import FieldScript.Proofs.Host.Resolving
import FieldScript.Proofs.Scope.Writing

/-! Handles from a table. A scope that enters every field it appends in a table of names, and looks
names up there and nowhere else, cannot be told from one that searches its fields: the two give the
same answers and stay in step through every write and statement. -/
namespace FieldScript

namespace Host

variable {σ τ : Type} [Host σ] [Host τ] {a : σ} {b : τ}

/-- Two scopes, perhaps of different kinds, that answer every question alike. -/
structure SameAnswers (a : σ) (b : τ) : Prop where
  points : pointCount a = pointCount b
  handles : fieldId? a = fieldId? b
  fields : field? a = field? b
  models : example? a = example? b
  dataKeywords : producesUserData a = producesUserData b
  filled : fillField a = fillField b
  computed : computeData a = computeData b
  bound : userData? a = userData? b

namespace SameAnswers

open Statement

theorem named?_eq (same : SameAnswers a b) : named? a = named? b := by
  funext name
  simp only [named?, same.handles, same.fields]

theorem resolve_eq (same : SameAnswers a b) : resolve a = resolve b := by
  funext names
  simp only [resolve, same.handles]

theorem evaluator_eq (same : SameAnswers a b) : evaluator a = evaluator b := by
  funext handles maxDepth
  have hlookup : lookup a = lookup b := by
    funext handles name
    simp only [lookup, same.fields, same.named?_eq]
  simp only [evaluator, hlookup]

theorem checkOutput_eq (same : SameAnswers a b) : checkOutput a = checkOutput b := by
  funext name
  simp only [checkOutput, same.handles, same.models]

theorem planCopy_eq (same : SameAnswers a b) : planCopy a = planCopy b := by
  funext target source
  have hlookup : lookup a = lookup b :=
    funext fun handles => congrArg Evaluator.lookup (congrFun (congrFun same.evaluator_eq handles) 0)
  simp only [planCopy, same.resolve_eq, hlookup, same.checkOutput_eq]

theorem planUserCall_eq (same : SameAnswers a b) : planUserCall a = planUserCall b := by
  funext target keyword args
  simp only [planUserCall, checkUserArgs, scratch, same.handles, same.bound, same.dataKeywords,
    same.computed, same.named?_eq, same.models, same.filled]

theorem planAssign_eq (same : SameAnswers a b) : planAssign a = planAssign b := by
  funext maxDepth target value
  have hvalues : evaluateAll a = evaluateAll b := by
    funext maxDepth tree
    simp only [evaluateAll, same.resolve_eq, same.evaluator_eq, same.points]
  unfold planAssign
  rw [same.planCopy_eq, same.planUserCall_eq, same.checkOutput_eq, hvalues]

theorem planConditional_eq (same : SameAnswers a b) : planConditional a = planConditional b := by
  funext maxDepth statement test branches
  have hseed : seed a = seed b := by
    funext target
    simp only [seed, same.named?_eq, same.points]
  have hsize : seedSize a = seedSize b := by
    funext target
    simp only [seedSize, same.named?_eq, same.points]
  have hchoice : choice a = choice b := by
    funext ev test branches index
    unfold choice
    rw [hsize]
  simp only [planConditional, same.checkOutput_eq, same.resolve_eq, same.evaluator_eq, same.points,
    hchoice, hseed]

theorem plan_eq (same : SameAnswers a b) : plan a = plan b := by
  funext maxDepth statement
  unfold plan
  rw [same.planAssign_eq, same.planConditional_eq]

end SameAnswers

end Host

structure TabledScope where
  scope : MemoryScope
  table : Handles

namespace TabledScope

def fieldId? (tabled : TabledScope) (name : String) : Option Nat := tabled.table.get? name

def install (tabled : TabledScope) (field : Field) : Nat × TabledScope :=
  let (id, scope) := tabled.scope.install field
  (id, ⟨scope, tabled.table.insert field.name id⟩)

def create? (tabled : TabledScope) (name : String) : Option (Nat × TabledScope) :=
  match tabled.fieldId? name with
  | some id => some (id, tabled)
  | none => (tabled.scope.model? name).map tabled.install

def addField (tabled : TabledScope) (field : Field) : Except EvalError (Nat × TabledScope) :=
  if (tabled.fieldId? field.name).isSome then
    .error (.misuse (.fieldExists field.name))
  else
    match tabled.scope.fields[0]? with
    | some first =>
      if first.size = field.size then .ok (tabled.install field)
      else .error (.misuse (.fieldLength field.name field.size first.size))
    | none => .ok (tabled.install field)

/-- Only the ways to find and to make a field are its own. -/
instance : Host TabledScope where
  pointCount tabled := tabled.scope.pointCount
  fieldId? := fieldId?
  field? tabled id := tabled.scope.fields[id]?
  putField id field tabled := { tabled with scope := Host.putField id field tabled.scope }
  example? tabled := tabled.scope.model?
  create? := create?
  producesUserData tabled := Host.producesUserData tabled.scope
  fillField tabled := Host.fillField tabled.scope
  computeData tabled := Host.computeData tabled.scope
  userData? tabled := Host.userData? tabled.scope
  storeUserData name data tabled :=
    (Host.storeUserData name data tabled.scope).map fun scope => { tabled with scope }
  functions tabled := Host.functions tabled.scope

structure InStep (tabled : TabledScope) (scope : MemoryScope) : Prop where
  fields : tabled.scope = scope
  handles : tabled.table.get? = scope.store.fieldId?

def SameReply (given : Nat × TabledScope) (given' : Nat × MemoryScope) : Prop :=
  given.1 = given'.1 ∧ InStep given.2 given'.2

end TabledScope

namespace MemoryScope

variable {scope : MemoryScope} {field written : Field} {id : Nat}

theorem fieldId?_install (fresh : scope.store.fieldId? field.name = none) (name : String) :
    (scope.install field).2.store.fieldId? name =
      if name = field.name then some scope.fields.size else scope.store.fieldId? name := by
  have hpush : (scope.install field).2.store.fieldId? name = (scope.store.fieldId? name).or
      (if field.name == name then some scope.fields.size else none) := Array.findIdx?_push
  rw [hpush]
  by_cases hname : name = field.name
  · subst hname
    simp [fresh]
  · simp [hname, Ne.symm hname]

theorem fieldId?_putField (stored : scope.fields[id]? = some field) (shape : field.SameShape written) :
    (Host.putField id written scope : MemoryScope).store.fieldId? = scope.store.fieldId? := by
  have hnames : (scope.fields.setIfInBounds id written).map Field.name =
      scope.fields.map Field.name := by
    have hname : (scope.fields.map Field.name)[id]? = some written.name := by
      rw [Array.getElem?_map, stored, Option.map_some, shape.name]
    rw [Array.map_setIfInBounds, setIfInBounds_of_getElem? hname]
  have hfind (fields : Array Field) (name : String) :
      fields.findIdx? (fun field => field.name == name) =
        (fields.map Field.name).findIdx? (· == name) := by
    rw [Array.findIdx?_map]
    rfl
  funext name
  have hput : (Host.putField id written scope : MemoryScope).store.fieldId? name =
      (scope.fields.setIfInBounds id written).findIdx? fun field => field.name == name := rfl
  rw [hput, hfind, hnames, ← hfind]
  rfl

end MemoryScope

namespace TabledScope.InStep

open Statement

variable {tabled : TabledScope} {scope : MemoryScope} {field : Field}

theorem sameAnswers (h : InStep tabled scope) : Host.SameAnswers tabled scope := by
  obtain ⟨rfl, htable⟩ := h
  exact ⟨rfl, htable, rfl, rfl, rfl, rfl, rfl, rfl⟩

theorem putField (h : InStep tabled scope) {id : Nat} {written : Field}
    (stored : scope.fields[id]? = some field) (shape : field.SameShape written) :
    InStep (Host.putField id written tabled) (Host.putField id written scope) := by
  obtain ⟨rfl, hhandles⟩ := h
  exact ⟨rfl, hhandles.trans (MemoryScope.fieldId?_putField stored shape).symm⟩

theorem install (h : InStep tabled scope) (fresh : scope.store.fieldId? field.name = none) :
    SameReply (tabled.install field) (scope.install field) := by
  obtain ⟨rfl, hhandles⟩ := h
  refine ⟨rfl, rfl, funext fun name => ?_⟩
  have hentry : (tabled.install field).2.table.get? name =
      if name = field.name then some tabled.scope.fields.size else tabled.table.get? name :=
    Handles.get?_insert tabled.table field.name name _
  rw [hentry, MemoryScope.fieldId?_install fresh, hhandles]

theorem create? (h : InStep tabled scope) (name : String) :
    Option.Rel SameReply (tabled.create? name) (scope.create? name) := by
  have hid : tabled.fieldId? name = scope.store.fieldId? name := congrFun h.handles name
  have hmodel : tabled.scope.model? name = scope.model? name := by rw [h.fields]
  unfold TabledScope.create? MemoryScope.create?
  rw [hid, hmodel]
  cases fresh : scope.store.fieldId? name with
  | some id => exact .some ⟨rfl, h⟩
  | none =>
    cases hfield : scope.model? name with
    | none => exact .none
    | some field =>
      obtain ⟨first, _, rfl⟩ := Option.map_eq_some_iff.mp hfield
      exact .some (h.install fresh)

theorem resolveOrCreate? (h : InStep tabled scope) (name : String) (mayCreate : Bool) :
    Option.Rel SameReply (Host.resolveOrCreate? tabled name mayCreate)
      (Host.resolveOrCreate? scope name mayCreate) := by
  unfold Host.resolveOrCreate?
  rw [h.sameAnswers.handles]
  cases Host.fieldId? scope name with
  | some id => exact .some ⟨rfl, h⟩
  | none =>
    cases mayCreate with
    | true => exact h.create? name
    | false => exact .none

theorem addField (h : InStep tabled scope) (field : Field) :
    Option.Rel SameReply (tabled.addField field).toOption (scope.addField field).toOption := by
  have hid : tabled.fieldId? field.name = scope.store.fieldId? field.name :=
    congrFun h.handles field.name
  unfold TabledScope.addField MemoryScope.addField
  rw [hid, h.fields]
  cases fresh : scope.store.fieldId? field.name with
  | some id => exact .none
  | none =>
    have given : Option.Rel SameReply (some (tabled.install field)) (some (scope.install field)) :=
      .some (h.install fresh)
    cases scope.fields[0]? with
    | none => exact given
    | some first =>
      simp only [Option.isSome_none, Bool.false_eq_true, if_false]
      by_cases hsize : first.size = field.size
      · rw [if_pos hsize, if_pos hsize]
        exact given
      · rw [if_neg hsize, if_neg hsize]
        exact .none

end TabledScope.InStep

namespace TabledScope

open Statement

theorem related_outputField (name : String) :
    Update.Related InStep (outputField name) (outputField name) := by
  intro tabled scope h
  have hreply := h.resolveOrCreate? name true
  unfold Update.outcome Update.after outputField
  cases htabled : Host.resolveOrCreate? tabled name true with
  | none =>
    cases hscope : Host.resolveOrCreate? scope name true with
    | none => exact ⟨rfl, h⟩
    | some given =>
      rw [htabled, hscope] at hreply
      cases hreply
  | some given =>
    cases hscope : Host.resolveOrCreate? scope name true with
    | none =>
      rw [htabled, hscope] at hreply
      cases hreply
    | some given' =>
      rw [htabled, hscope] at hreply
      cases hreply with
      | some hsame => exact ⟨congrArg Except.ok hsame.1, hsame.2⟩

theorem related_updateField (id : Nat) {step : Update Field Unit} (keeps : step.KeepsShape)
    (missing : EvalError) :
    Update.Related InStep (Host.updateField id step missing) (Host.updateField id step missing) := by
  intro tabled scope h
  rw [Host.outcome_updateField, Host.outcome_updateField, Host.after_updateField,
    Host.after_updateField, h.sameAnswers.fields]
  cases hfield : Host.field? scope id with
  | none => exact ⟨rfl, h⟩
  | some field => exact ⟨rfl, h.putField hfield (keeps field)⟩

theorem related_updateOutput (name : String) {step : Update Field Unit} (keeps : step.KeepsShape) :
    Update.Related InStep (updateOutput name step) (updateOutput name step) :=
  (related_outputField name).bind fun id => related_updateField id keeps _

theorem related_apply (write : Write) :
    Update.Related InStep (Write.apply write) (Write.apply write) := by
  have field (h : write.step?.isSome = true) :
      Update.Related InStep (Write.apply write) (Write.apply write) :=
    Write.related_apply h (fun _ keeps => related_updateOutput _ keeps)
      fun _ _ inStep => congrFun inStep.sameAnswers.named?_eq _
  cases write with
  | fill | clear | values => exact field rfl
  | data target data =>
    rintro tabled scope ⟨rfl, hhandles⟩
    have hstores : Host.storeUserData target data tabled =
        (Host.storeUserData target data tabled.scope).map fun scope => { tabled with scope } := rfl
    have hstore : Host.storeUserData target data tabled.scope =
        (tabled.scope.store.userData.store target data).map tabled.scope.setUserData := rfl
    simp only [Update.outcome, Update.after, Write.apply, hstores, hstore]
    cases tabled.scope.store.userData.store target data with
    | error e => exact ⟨rfl, rfl, hhandles⟩
    | ok userData => exact ⟨rfl, rfl, hhandles⟩

theorem related_process (maxDepth : Nat) (statement : Tree) :
    Update.Related InStep (process maxDepth statement) (process maxDepth statement) := by
  intro tabled scope h
  simp only [Update.outcome, Update.after, process, h.sameAnswers.plan_eq]
  cases plan scope maxDepth statement with
  | error e => exact ⟨rfl, h⟩
  | ok planned =>
    have hcommit : Update.Related InStep (commit planned) (commit planned) :=
      (Update.related_forM fun write _ => related_apply write).bind fun _ =>
        Update.related_pure _
    exact hcommit tabled scope h

end TabledScope

end FieldScript
