import FieldScript.Proofs.Field.Writing
import FieldScript.Proofs.Statement.Effect
import FieldScript.Proofs.Statement.Evaluation

/-! Assignments, whatever way they are carried out, agree with evaluating the value at every point:
the assignment fails as the evaluation does, and else the target reads the values it gives. -/
namespace FieldScript.Statement

open Outcome MemoryScope

variable {scope : MemoryScope}

/-- The field exists and has one value a point, sentinels among them as missing. -/
def Holds (scope : MemoryScope) (name : String) (values : List (Option Binary64)) : Prop :=
  ∃ field, Host.named? scope name = some field ∧ field.size = values.length ∧
    ∀ point, field.read point = field.settle (values[point]?.join)

theorem holds_updateOutput (wf : scope.WellFormed) (nonempty : 0 < scope.fields.size)
    (target : String) {step : Update Field Unit} (keeps : step.KeepsShape)
    {values : List (Option Binary64)} (hlength : values.length = scope.pointCount)
    (hstep : ∀ field : Field, field.size = values.length → ∃ written, step field = .ok () written ∧
      ∀ point, written.read point = written.settle (values[point]?.join)) :
    ∃ after, updateOutput target step scope = .ok () after ∧ Holds after target values := by
  obtain ⟨old, hold⟩ := target?_isSome nonempty target
  have hsize : old.size = values.length := (size_target wf hold).trans hlength.symm
  obtain ⟨written, hwritten, hread⟩ := hstep old hsize
  have shape := keeps.of_ok hwritten
  exact ⟨_, updateOutput_eq_ok.mpr ⟨old, written, hold, hwritten, rfl⟩, written,
    field?_replace wf hold shape, shape.size.trans hsize, hread⟩

theorem holds_values (wf : scope.WellFormed) (nonempty : 0 < scope.fields.size) (target : String)
    {values : List (Option Binary64)} (hlength : values.length = scope.pointCount) :
    ∃ after, Write.apply (.values target values) scope = .ok () after ∧
      Holds after target values := by
  rw [apply_values wf target hlength]
  refine holds_updateOutput wf nonempty target (Field.keepsShape_commit values) hlength ?_
  intro field hsize
  obtain ⟨written, hwritten⟩ := Field.commit_ok hsize.symm
  exact ⟨written, hwritten, Field.read_commit hsize.symm hwritten⟩

theorem read_fill_replicate {field : Field} {count : Nat} (hsize : field.size = count)
    (value : Option Binary64) (point : Nat) :
    (field.fill (value.getD field.sentinel)).read point =
      (field.fill (value.getD field.sentinel)).settle ((List.replicate count value)[point]?.join) := by
  by_cases hpoint : point < count
  · rw [List.getElem?_replicate, if_pos hpoint]
    exact Field.read_fill (hsize ▸ hpoint)
  · rw [List.getElem?_replicate, if_neg hpoint, Field.read_of_size_le]
    · rfl
    · rw [(field.sameShape_fill _).size, hsize]
      omega

theorem holds_fill (wf : scope.WellFormed) (nonempty : 0 < scope.fields.size) (target : String)
    (value : Binary64) : ∃ after, Write.apply (.fill target value) scope = .ok () after ∧
      Holds after target (List.replicate scope.pointCount (some value)) := by
  refine holds_updateOutput wf nonempty target
    (Update.keepsShape_modify fun field => field.sameShape_fill value) List.length_replicate ?_
  intro field hsize
  rw [List.length_replicate] at hsize
  exact ⟨field.fill value, rfl, read_fill_replicate hsize (some value)⟩

theorem holds_clear (wf : scope.WellFormed) (nonempty : 0 < scope.fields.size) (target : String) :
    ∃ after, Write.apply (.clear target) scope = .ok () after ∧
      Holds after target (List.replicate scope.pointCount none) := by
  refine holds_updateOutput wf nonempty target
    (Update.keepsShape_modify fun field => field.sameShape_fill field.sentinel)
    List.length_replicate ?_
  intro field hsize
  rw [List.length_replicate] at hsize
  exact ⟨field.clear, rfl, read_fill_replicate hsize none⟩

/-- The plan that fits the outcome of an evaluation: none where it failed, and else writes that
succeed and leave its values in the target. -/
def CarriesOut (scope : MemoryScope) (target : String) :
    Except EvalError (List (Option Binary64)) → Except EvalError Plan → Prop
  | .error e, planned => planned = .error e
  | .ok values, planned => ∃ writes after, planned = .ok ⟨writes, .fields [target]⟩ ∧
      writes.forM Write.apply scope = .ok () after ∧ Holds after target values

theorem checkOutput_ok (nonempty : 0 < scope.fields.size) (name : String) :
    checkOutput scope name = .ok () := by
  have hmodel : (Host.example? scope name).isSome = true := model?_isSome nonempty name
  simp [checkOutput, hmodel]

theorem CarriesOut.single {target : String} {values : List (Option Binary64)} {write : Write}
    {planned : Except EvalError Plan} (hplanned : planned = .ok ⟨[write], .fields [target]⟩)
    (hwrite : ∃ after, Write.apply write scope = .ok () after ∧ Holds after target values) :
    CarriesOut scope target (.ok values) planned := by
  obtain ⟨after, happly, hholds⟩ := hwrite
  exact ⟨[write], after, hplanned, forM_cons_apply.mpr ⟨after, happly, rfl⟩, hholds⟩

theorem carriesOut_copy (wf : scope.WellFormed) (nonempty : 0 < scope.fields.size) {maxDepth : Nat}
    (hdepth : 1 ≤ maxDepth) (target source : String) :
    CarriesOut scope target (evaluateAll scope maxDepth (.leaf (.variable source)))
      (planCopy scope target source) := by
  rw [evaluateAll_leaf hdepth, inputs_variable]
  unfold planCopy
  cases hresolve : Host.resolve scope [source] with
  | error e => rfl
  | ok handles =>
    have hnames := Host.exists_resolve_iff.mp ⟨handles, hresolve⟩
    obtain ⟨id, hid⟩ := Option.isSome_iff_exists.mp (hnames source (List.mem_singleton.mpr rfl))
    obtain ⟨field, hfield, hname⟩ := Store.fieldId?_eq_some hid
    have hnamed : Host.named? scope source = some field :=
      wf.field?_eq_some_iff.mpr ⟨id, hfield, hname⟩
    have hsize : field.size = scope.pointCount := wf.size_named hnamed
    have hvalues : leafValues scope maxDepth (.variable source) = field.readings := by
      unfold leafValues Field.readings
      rw [hsize]
      refine List.map_congr_left fun point _ => ?_
      simp only [Evaluator.readLeaf, pointEvaluator, evaluator,
        (Host.agrees_empty scope).lookup_eq, hnamed]
      rfl
    simp only [Except.map, bind, Except.bind, hvalues]
    by_cases hself : source = target
    · subst hself
      rw [if_pos rfl]
      refine ⟨[], scope, rfl, rfl, field, hnamed, by simp, fun point => ?_⟩
      by_cases hpoint : point < field.size
      · simp [Field.readings, hpoint, Field.settle_read]
      · rw [Field.read_of_size_le (by omega), List.getElem?_eq_none (by simpa using hpoint)]
        rfl
    · rw [if_neg hself, Host.lookup_of_resolve hresolve, hnamed, checkOutput_ok nonempty]
      exact .single rfl (holds_values wf nonempty target (by simpa using hsize))

theorem carriesOut_assign (wf : scope.WellFormed) (nonempty : 0 < scope.fields.size) {maxDepth : Nat}
    (hdepth : 1 ≤ maxDepth) (target : String) {value : Tree} (hvalue : value.userKeyword? = none) :
    CarriesOut scope target (evaluateAll scope maxDepth value)
      (planAssign scope maxDepth target value) := by
  have hconstant (content : Leaf) (h : (Tree.leaf content).inputs = []) :
      evaluateAll scope maxDepth (.leaf content) = .ok (leafValues scope maxDepth content) := by
    rw [evaluateAll_leaf hdepth, h]
    rfl
  have hreplicate (content : Leaf) (v : Option Binary64)
      (h : ∀ i, (pointEvaluator scope maxDepth).readLeaf i content = v) :
      leafValues scope maxDepth content = List.replicate scope.pointCount v := by
    unfold leafValues
    rw [List.map_congr_left fun i _ => h i, List.map_const', List.length_range]
    rfl
  unfold planAssign
  split
  · rename_i label number
    rw [hconstant _ (inputs_number label number), hreplicate _ (some number) fun _ => rfl]
    exact .single rfl (holds_fill wf nonempty target number)
  · rw [hconstant _ inputs_missing, hreplicate _ none fun _ => rfl]
    exact .single rfl (holds_clear wf nonempty target)
  · exact carriesOut_copy wf nonempty hdepth target _
  · cases hvalue
  · rw [checkOutput_ok nonempty]
    cases hvalues : evaluateAll scope maxDepth value with
    | error e => simp [CarriesOut, bind, Except.bind]
    | ok values =>
      exact .single rfl (holds_values wf nonempty target (length_evaluateAll hvalues))

/-- An assignment of anything but a host function's result comes to evaluating its value at every
point before anything is written. -/
theorem process_assign_eq_evaluateAll (reachable : scope.Reachable)
    (nonempty : 0 < scope.fields.size) {maxDepth : Nat} (positive : 1 ≤ maxDepth) (target : Leaf)
    {value : Tree} (noHostCall : value.userKeyword? = none) :
    match evaluateAll scope maxDepth value with
    | .error e => process maxDepth (.assign target value) scope = .error e scope
    | .ok values => ∃ after field,
        process maxDepth (.assign target value) scope = .ok (.fields [target.targetName]) after ∧
        Host.named? after target.targetName = some field ∧ field.size = values.length ∧
        ∀ (point : Nat) (h : point < values.length),
          field.read point = field.settle values[point] := by
  have agrees :=
    carriesOut_assign reachable.wellFormed nonempty positive target.targetName noHostCall
  cases hvalues : evaluateAll scope maxDepth value with
  | error e =>
    rw [hvalues] at agrees
    have hplan : plan scope maxDepth (.assign target value) = .error e := agrees
    simp only [process, hplan]
  | ok values =>
    rw [hvalues] at agrees
    obtain ⟨writes, after, hplan, hwrites, field, hfield, hsize, hread⟩ := agrees
    refine ⟨after, field, process_eq_ok.mpr ⟨_, hplan, hwrites, rfl⟩, hfield, hsize, ?_⟩
    intro point hpoint
    rw [hread, List.getElem?_eq_getElem hpoint]
    rfl

def twoSentinels : MemoryScope := (twoPoints.install ⟨"B", #[2, 2], 2⟩).2

/-- The copied 2 is the sentinel of its new field. -/
theorem copy_settles :
    (twoSentinels.Reachable ∧ 0 < twoSentinels.fields.size ∧
      (Tree.leaf (.variable "A")).userKeyword? = none) ∧
      evaluateAll twoSentinels 1 (.leaf (.variable "A")) = .ok [some 1, some 2] ∧
      ∃ after field, process 1 (.assign (.variable "B") (.leaf (.variable "A"))) twoSentinels =
          .ok (.fields ["B"]) after ∧
        Host.named? after "B" = some field ∧ field.read 0 = field.settle (some 1) ∧
        field.read 1 = field.settle (some 2) := by
  have added : twoPoints.addField ⟨"B", #[2, 2], 2⟩ = .ok (1, twoSentinels) := by
    with_unfolding_all rfl
  have reachable : twoSentinels.Reachable := .addField reachable_twoPoints added
  have nonempty : 0 < twoSentinels.fields.size := by decide
  have values : evaluateAll twoSentinels 1 (.leaf (.variable "A")) = .ok [some 1, some 2] := by
    with_unfolding_all rfl
  have noHostCall : (Tree.leaf (.variable "A")).userKeyword? = none := rfl
  have agrees :=
    process_assign_eq_evaluateAll reachable nonempty (Nat.le_refl 1) (.variable "B") noHostCall
  rw [values] at agrees
  obtain ⟨after, field, processed, stored, _, reads⟩ := agrees
  exact ⟨⟨reachable, nonempty, noHostCall⟩, values, after, field, processed, stored, reads 0 (by decide),
    reads 1 (by decide)⟩

end FieldScript.Statement
