import FieldScript.Proofs.Evaluate.Levels
import FieldScript.Proofs.Statement.Success

/-! Which error an expression gives. It is refused for the first node that has no value at a point,
then for the first name that is no field. An expression that passes both has a value at every point,
unless levels run out. -/
namespace FieldScript

open Outcome

namespace Tree

mutual

/-- The nodes of a tree in the order of its text, but for those inside a call of a host function. -/
def preorder : Tree → List Tree
  | .leaf content => [.leaf content]
  | .call (.builtin op) args => .call (.builtin op) args :: argsPreorder args
  | .call (.user keyword) args => [.call (.user keyword) args]
  | .arith chain => [.arith chain]
  | .tests chain => [.tests chain]
  | .assign target value => .assign target value :: preorder value
  | .guarded test target value => .guarded test target value :: preorder value
  | .branched test target value target' value' =>
    .branched test target value target' value' :: (preorder value ++ preorder value')

def argsPreorder : List Tree → List Tree
  | [] => []
  | arg :: rest => preorder arg ++ argsPreorder rest

end

/-- Host functions work on whole fields, statements on a scope. -/
def hasNoPointValue (node : Tree) : Bool := node.userKeyword?.isSome || node.isStatement

def checkNode (node : Tree) : Except EvalError Unit :=
  match node.userKeyword? with
  | some keyword => .error (.badArguments keyword .nested)
  | none => if node.isStatement then .error (.misuse (.statementValue node.text)) else .ok ()

variable {tree part node : Tree}

theorem checkNode_eq_ok (h : node.hasNoPointValue = false) : node.checkNode = .ok () := by
  obtain ⟨hcallee, hstatement⟩ := Bool.or_eq_false_iff.mp h
  rw [Option.isSome_eq_false_iff, Option.isNone_iff_eq_none] at hcallee
  simp [checkNode, hcallee, hstatement]

theorem checkNode_statement (h : node.isStatement = true) :
    node.checkNode = .error (.misuse (.statementValue node.text)) := by
  cases node with
  | assign | guarded | branched => rfl
  | _ => cases h

theorem checkAll_eq_forM {args : List Tree}
    (h : ∀ arg ∈ args, arg.checkPointwise = arg.preorder.forM checkNode) :
    checkAll args = (argsPreorder args).forM checkNode := by
  induction args with
  | nil => rfl
  | cons arg rest ih =>
    obtain ⟨harg, hrest⟩ := List.forall_mem_cons.mp h
    have happend : (arg.preorder ++ argsPreorder rest).forM checkNode =
        arg.preorder.forM checkNode >>= fun _ => (argsPreorder rest).forM checkNode :=
      List.forM_append
    rw [checkAll, argsPreorder, happend, harg, ih hrest]
    cases arg.preorder.forM checkNode <;> rfl

theorem checkPointwise_eq_forM (calls : tree.Every CallChecked) :
    tree.checkPointwise = tree.preorder.forM checkNode := by
  induction tree using induct with
  | call callee args ih =>
    obtain ⟨hcall, hargs⟩ := every_call.mp calls
    cases callee with
    | user keyword => rfl
    | builtin op =>
      have hops : op.checkArgs args = .ok () := hcall
      rw [checkPointwise, hops, preorder]
      exact checkAll_eq_forM fun arg harg => ih arg harg (hargs arg harg)
  | _ => rfl

theorem mem_argsPreorder {args : List Tree} :
    part ∈ argsPreorder args ↔ ∃ arg ∈ args, part ∈ arg.preorder := by
  induction args with
  | nil => simp [argsPreorder]
  | cons arg rest ih => simp [argsPreorder, ih]

theorem mem_preorder_self (tree : Tree) : tree ∈ tree.preorder := by
  cases tree with
  | call callee args => cases callee <;> exact List.mem_cons_self
  | _ => exact List.mem_cons_self

theorem part_of_mem_preorder (checked : tree.checkPointwise = .ok ()) (mem : part ∈ tree.preorder) :
    part.checkPointwise = .ok () ∧ ∀ name ∈ part.inputs, name ∈ tree.inputs := by
  induction tree using induct with
  | call callee args ih =>
    cases callee with
    | user keyword => exact absurd checked checkPointwise_user
    | builtin op =>
      rcases List.mem_cons.mp mem with rfl | hinner
      · exact ⟨checked, fun _ hname => hname⟩
      · obtain ⟨arg, harg, hpart⟩ := mem_argsPreorder.mp hinner
        obtain ⟨hpointwise, hinputs⟩ :=
          ih arg harg ((checkPointwise_builtin.mp checked).2 arg harg) hpart
        exact ⟨hpointwise, fun name hname => mem_inputs_call.mpr ⟨arg, harg, hinputs name hname⟩⟩
  | leaf content | arith chain | tests chain =>
    cases List.mem_singleton.mp mem
    exact ⟨checked, fun _ hname => hname⟩
  | assign target value | guarded test target value | branched test target value target' value' =>
    rw [checkPointwise_statement rfl] at checked
    cases checked

end Tree

namespace Statement

section Hosts

variable {σ : Type} [Host σ] {scope : σ} {maxDepth : Nat} {tree : Tree} {e : EvalError}

theorem evaluateAll_of_node {node : Tree} (calls : tree.Every Tree.CallChecked)
    (first : tree.preorder.find? Tree.hasNoPointValue = some node)
    (refused : node.checkNode = .error e) : evaluateAll scope maxDepth tree = .error e := by
  have hcheck : tree.checkPointwise = .error e := by
    rw [Tree.checkPointwise_eq_forM calls]
    exact forM_eq_error_of_find? (fun _ => Tree.checkNode_eq_ok) first refused
  rw [evaluateAll_eq, hcheck]
  rfl

theorem checkPointwise_of_nodes (calls : tree.Every Tree.CallChecked)
    (none : tree.preorder.find? Tree.hasNoPointValue = none) : tree.checkPointwise = .ok () := by
  rw [Tree.checkPointwise_eq_forM calls]
  refine forM_eq_ok fun node hnode => Tree.checkNode_eq_ok ?_
  simpa using List.find?_eq_none.mp none node hnode

theorem evaluateAll_of_name {name : String} (checked : tree.checkPointwise = .ok ())
    (first : tree.inputs.find? (fun name => (Host.fieldId? scope name).isNone) = some name) :
    evaluateAll scope maxDepth tree = .error (.unresolvedName name) := by
  have hnames : Host.requireFields scope tree.inputs = .error (.unresolvedName name) := by
    have hnone := List.find?_some first
    refine forM_eq_error_of_find? (fun other hother => ?_) first ?_
    · rw [if_pos (by simpa using hother)]
    · rw [if_neg (by simpa using hnone)]
  rw [evaluateAll_eq, checked, hnames]
  rfl

end Hosts

variable {scope : MemoryScope} {maxDepth : Nat} {tree : Tree}

theorem overflow_of_resolved (checked : tree.checkPointwise = .ok ()) {handles : Handles}
    (resolved : Host.resolve scope tree.inputs = .ok handles) {part : Tree}
    (mem : part ∈ tree.preorder) {point depth : Nat} {e : EvalError}
    (h : (evaluator scope handles maxDepth).valueFrom point depth part = .error e) :
    ∃ reached, e = .stackOverflow reached maxDepth := by
  obtain ⟨hpart, hinputs⟩ := Tree.part_of_mem_preorder checked mem
  rcases Evaluator.valueFrom_error hpart h with ⟨name, hname, hnone, _⟩ | ⟨hreached, _⟩
  · have hid := Host.exists_resolve_iff.mp ⟨handles, resolved⟩ name (hinputs name hname)
    rw [evaluator_of_resolve resolved] at hnone
    rw [← isSome_lookup scope maxDepth, hnone] at hid
    cases hid
  · exact hreached

theorem evaluateAll_of_fields (checked : tree.checkPointwise = .ok ())
    (found : ∀ name ∈ tree.inputs, (Host.fieldId? scope name).isSome = true) :
    evaluateAll scope maxDepth tree = .error (.stackOverflow maxDepth maxDepth) ∨
      ∃ values, evaluateAll scope maxDepth tree = .ok values ∧
        values.length = Host.pointCount scope := by
  obtain ⟨handles, resolved⟩ := Host.exists_resolve_iff.mpr found
  have hvalues : evaluateAll scope maxDepth tree =
      (evaluator scope handles maxDepth).valuesAt tree (Host.pointCount scope) := by
    rw [evaluateAll, checked, resolved]
    rfl
  rw [hvalues]
  cases hresult : (evaluator scope handles maxDepth).valuesAt tree (Host.pointCount scope) with
  | ok values => exact .inr ⟨values, rfl, (length_of_mapM hresult).trans List.length_range⟩
  | error e =>
    obtain ⟨point, _, hvalue, _⟩ := mapM_range_eq_error.mp hresult
    have hreached : ∃ reached, e = .stackOverflow reached maxDepth :=
      overflow_of_resolved checked resolved (Tree.mem_preorder_self tree) hvalue
    obtain ⟨reached, rfl⟩ := hreached
    have hlimit := (Evaluator.failure_of_valueFrom hvalue).overflow rfl (Nat.zero_le maxDepth)
    exact .inl (congrArg Except.error hlimit.1)

/-- The errors of an expression, in the order in which they are looked for: the first node without a
value at a point, the first input that is no field, levels that ran out. Where both checks pass no
node of the tree can fail in any other way, at any point and at any level. -/
theorem evaluateAll_outcome (scope : MemoryScope) (maxDepth : Nat) {tree : Tree}
    (calls : tree.Every Tree.CallChecked) :
    let valueless? := tree.preorder.find? Tree.hasNoPointValue
    let unresolved? := tree.inputs.find? fun name => (Host.fieldId? scope name).isNone
    (∀ keyword args, valueless? = some (.call (.user keyword) args) →
      evaluateAll scope maxDepth tree = .error (.badArguments keyword .nested)) ∧
    (∀ statement, statement.isStatement = true → valueless? = some statement →
      evaluateAll scope maxDepth tree = .error (.misuse (.statementValue statement.text))) ∧
    (∀ name, valueless? = none → unresolved? = some name →
      evaluateAll scope maxDepth tree = .error (.unresolvedName name)) ∧
    (valueless? = none → unresolved? = none →
      evaluateAll scope maxDepth tree = .error (.stackOverflow maxDepth maxDepth) ∨
        ∃ values, evaluateAll scope maxDepth tree = .ok values ∧
          values.length = Host.pointCount scope) ∧
    ∀ handles, tree.checkPointwise = .ok () → Host.resolve scope tree.inputs = .ok handles →
      ∀ part ∈ tree.preorder, ∀ point depth e,
        (evaluator scope handles maxDepth).valueFrom point depth part = .error e →
          ∃ reached, e = .stackOverflow reached maxDepth := by
  intro valueless? unresolved?
  refine ⟨fun keyword args first => ?_, fun statement hstatement first => ?_,
    fun name pointwise first => ?_, fun pointwise found => ?_,
    fun handles checked resolved part mem point depth e => overflow_of_resolved checked resolved mem⟩
  · exact evaluateAll_of_node calls first rfl
  · exact evaluateAll_of_node calls first (Tree.checkNode_statement hstatement)
  · exact evaluateAll_of_name (checkPointwise_of_nodes calls pointwise) first
  · refine evaluateAll_of_fields (checkPointwise_of_nodes calls pointwise) fun name hname => ?_
    simpa [Option.isSome_iff_ne_none] using List.find?_eq_none.mp found name hname

def peakBeside (value : Tree) : Tree :=
  .call (.builtin .max) [.leaf (.variable "B"),
    .call (.builtin .max) [value, .call (.user "scale") [.leaf (.variable "B")]]]

def nestedAbs (name : String) : Tree :=
  .call (.builtin .abs) [.call (.builtin .abs) [.leaf (.variable name)]]

/-- A scope without a field `B` gives each of the errors, the one that is looked for first. -/
theorem peakBeside_outcome :
    let assigned := Tree.assign (.variable "V") (.leaf (.variable "A"))
    evaluateAll twoPoints 2 (peakBeside (nestedAbs "A")) = .error (.badArguments "scale" .nested) ∧
    evaluateAll twoPoints 2 (peakBeside assigned) =
      .error (.misuse (.statementValue assigned.text)) ∧
    evaluateAll twoPoints 2 (nestedAbs "B") = .error (.unresolvedName "B") ∧
    (evaluateAll twoPoints 2 (nestedAbs "A") = .error (.stackOverflow 2 2) ∨
      ∃ values, evaluateAll twoPoints 2 (nestedAbs "A") = .ok values ∧
        values.length = Host.pointCount twoPoints) := by
  intro assigned
  have calls (name : String) : (nestedAbs name).Every Tree.CallChecked := by
    simp only [nestedAbs, Tree.Every, Tree.EveryArg, Tree.CallChecked, and_true]
    exact ⟨rfl, rfl⟩
  have calls' (value : Tree) (h : value.Every Tree.CallChecked) :
      (peakBeside value).Every Tree.CallChecked := by
    simp only [peakBeside, Tree.Every, Tree.EveryArg, Tree.CallChecked, h, and_true, true_and]
    exact ⟨rfl, rfl⟩
  exact ⟨(evaluateAll_outcome twoPoints 2 (calls' _ (calls "A"))).1 _ _ rfl,
    (evaluateAll_outcome twoPoints 2 (calls' assigned ⟨trivial, trivial⟩)).2.1 _ rfl rfl,
    (evaluateAll_outcome twoPoints 2 (calls "B")).2.2.1 _ rfl (by decide +kernel),
    (evaluateAll_outcome twoPoints 2 (calls "A")).2.2.2.1 rfl (by decide +kernel)⟩

end Statement

end FieldScript
