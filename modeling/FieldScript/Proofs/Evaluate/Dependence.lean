import FieldScript.Proofs.Evaluate.Missing
import FieldScript.Proofs.Field.Writing
import Mathlib.Data.List.Basic

/-! What a value depends on. Evaluation looks at a field only through its readings and its name, and
asks for no name outside the inputs of the tree, so evaluators that agree on the readings of those
give the same value or the same error. -/
namespace FieldScript

namespace Field

theorem read_eq_getElem? (field : Field) (index : Nat) :
    field.read index = field.readings[index]?.join := by
  by_cases hindex : index < field.size
  · simp [readings, hindex]
  · rw [read_of_size_le (by omega), List.getElem?_eq_none (by simpa [readings] using hindex)]
    rfl

variable {a b : Field}

theorem read_eq_of_readings (h : a.readings = b.readings) : a.read = b.read := by
  funext index
  rw [read_eq_getElem?, read_eq_getElem?, h]

theorem size_eq_of_readings (h : a.readings = b.readings) : a.size = b.size := by
  have hlength := congrArg List.length h
  simpa [readings] using hlength

theorem readings_eq_iff : a.readings = b.readings ↔
    a.size = b.size ∧ ∀ point < a.size, a.read point = b.read point := by
  constructor
  · intro h
    exact ⟨size_eq_of_readings h, fun point _ => congrFun (read_eq_of_readings h) point⟩
  · rintro ⟨hsize, hread⟩
    unfold readings
    rw [← hsize]
    exact List.map_congr_left fun point hpoint => hread point (List.mem_range.mp hpoint)

end Field

section Chains

variable {read read' : Leaf → Option Binary64}

theorem ArithChain.valueFrom_congr {steps : List (ArithOp × Leaf)}
    (h : ∀ content ∈ steps.map (·.2), read content = read' content) (acc : Binary64) :
    valueFrom read acc steps = valueFrom read' acc steps := by
  induction steps generalizing acc with
  | nil => rfl
  | cons step rest ih =>
    obtain ⟨op, content⟩ := step
    obtain ⟨hcontent, hrest⟩ := List.forall_mem_cons.mp h
    simp only [valueFrom, hcontent, ih hrest]

theorem ArithChain.value_congr {chain : ArithChain}
    (h : ∀ content ∈ chain.operands, read content = read' content) :
    chain.value read = chain.value read' := by
  obtain ⟨hfirst, hrest⟩ := List.forall_mem_cons.mp h
  simp only [value, hfirst, valueFrom_congr hrest]

theorem Test.holds_congr {test : Test} (hleft : read test.left = read' test.left)
    (hright : read test.right = read' test.right) : test.holds read = test.holds read' := by
  unfold holds
  simp only [hleft, hright, apply_ite read, apply_ite read']

theorem TestChain.holds_congr {chain : TestChain}
    (h : ∀ content ∈ chain.operands, read content = read' content) :
    chain.holds read = chain.holds read' := by
  have htest (test : Test) (hmem : test ∈ chain.tests) : test.holds read = test.holds read' := by
    refine Test.holds_congr (h _ ?_) (h _ ?_)
    · exact List.mem_flatMap.mpr ⟨test, hmem, List.mem_cons_self⟩
    · exact List.mem_flatMap.mpr ⟨test, hmem, by simp⟩
  unfold holds
  rw [htest chain.first List.mem_cons_self]
  refine List.foldl_ext _ _ _ fun acc step hstep => ?_
  obtain ⟨op, test⟩ := step
  simp only [htest test (List.mem_cons_of_mem _ (List.mem_map_of_mem hstep))]

end Chains

namespace Evaluator

/-- Two evaluators that whoever reads no other names cannot tell apart. -/
structure Alike (names : List String) (ev ev' : Evaluator) : Prop where
  levels : ev.maxDepth = ev'.maxDepth
  readings : ∀ name ∈ names,
    (ev.lookup name).map Field.readings = (ev'.lookup name).map Field.readings

variable {names fewer : List String} {ev ev' : Evaluator} {index : Nat}

theorem Alike.mono (alike : Alike names ev ev') (h : ∀ name ∈ fewer, name ∈ names) :
    Alike fewer ev ev' :=
  ⟨alike.levels, fun name hname => alike.readings name (h name hname)⟩

theorem Alike.readLeaf_eq {tree : Tree} {content : Leaf} (alike : Alike tree.inputs ev ev')
    (h : content ∈ tree.leaves) : ev.readLeaf index content = ev'.readLeaf index content := by
  rcases content with name | ⟨label, value⟩ | _
  · have hread (field? : Option Field) : (field?.bind fun field => field.read index) =
        (field?.map Field.readings).bind fun values => values[index]?.join := by
      cases field? with
      | none => rfl
      | some field => exact field.read_eq_getElem? index
    simp only [readLeaf, bind, hread, alike.readings name (Tree.mem_inputs_iff.mpr h)]
  · rfl
  · rfl

theorem window_eq {a b : Field} (h : a.readings = b.readings) : window a = window b := by
  funext centre half
  simp only [window, Field.size_eq_of_readings h, Field.read_eq_of_readings h]

theorem Alike.windowAt_eq {op : Builtin} {args : List Tree}
    (alike : ∀ arg ∈ args, Alike arg.inputs ev ev') :
    ev.windowAt op index args = ev'.windowAt op index args := by
  unfold windowAt
  split
  · rename_i field length
    split
    · rfl
    · rename_i name hname
      cases Tree.leafName?_eq_some hname
      have hinput : name ∈ (Tree.leaf (.variable name)).inputs :=
        Tree.mem_inputs_iff.mpr List.mem_cons_self
      have hreadings := (alike _ List.mem_cons_self).readings name hinput
      cases hfield : ev.lookup name with
      | none =>
        rw [hfield, Option.map_none] at hreadings
        rw [Option.map_eq_none_iff.mp hreadings.symm]
      | some field =>
        rw [hfield, Option.map_some] at hreadings
        obtain ⟨field', hfield', hsame⟩ := Option.map_eq_some_iff.mp hreadings.symm
        rw [hfield']
        simp only [window_eq hsame, Field.read_eq_of_readings hsame]
  · rfl

theorem argsFrom_congr {index' : Nat} {args : List Tree} {depth : Nat}
    (h : ∀ arg ∈ args, ev.valueFrom index depth arg = ev'.valueFrom index' depth arg) :
    ev.argsFrom index depth args = ev'.argsFrom index' depth args := by
  induction args with
  | nil => rw [argsFrom, argsFrom]
  | cons arg rest ih =>
    obtain ⟨harg, hrest⟩ := List.forall_mem_cons.mp h
    rw [argsFrom, argsFrom, harg, ih hrest]

/-- Two evaluations, each at a point of its own, agree on a class of trees with all their arguments
if they read the same from the leaves and from the windows of each. -/
theorem valueFrom_congr {index' : Nat} {P : Tree → Prop} (levels : ev.maxDepth = ev'.maxDepth)
    (args : ∀ {callee args}, P (.call callee args) → ∀ arg ∈ args, P arg)
    (leaves : ∀ {tree}, P tree → ∀ content ∈ tree.leaves,
      ev.readLeaf index content = ev'.readLeaf index' content)
    (windows : ∀ {op args}, P (.call (.builtin op) args) → op.isWindow = true →
      ev.windowAt op index args = ev'.windowAt op index' args)
    {tree : Tree} (h : P tree) (depth : Nat) :
    ev.valueFrom index depth tree = ev'.valueFrom index' depth tree := by
  induction tree using Tree.induct generalizing depth with
  | leaf content =>
    unfold valueFrom
    simp only [levels, leaves h content List.mem_cons_self]
  | arith chain =>
    unfold valueFrom
    simp only [levels, ArithChain.value_congr (leaves h)]
  | tests chain =>
    unfold valueFrom
    simp only [levels, TestChain.holds_congr (leaves h)]
  | call callee list ih =>
    cases callee with
    | user keyword =>
      unfold valueFrom
      rw [levels]
    | builtin op =>
      by_cases hdepth : ev.maxDepth ≤ depth
      · unfold valueFrom
        rw [if_pos hdepth, if_pos (levels ▸ hdepth), levels]
      · have hargs := argsFrom_congr fun arg harg => ih arg harg (args h arg harg) (depth + 1)
        rw [valueFrom_builtin hdepth, valueFrom_builtin (levels ▸ hdepth), hargs]
        by_cases hop : op.isWindow = true
        · rw [if_pos hop, if_pos hop, windows h hop]
        · rw [if_neg hop, if_neg hop]
  | assign target value | guarded test target value | branched test target value target' value' =>
    unfold valueFrom
    rw [levels]

theorem Alike.valueFrom_eq {tree : Tree} (alike : Alike tree.inputs ev ev') (depth : Nat) :
    ev.valueFrom index depth tree = ev'.valueFrom index depth tree := by
  have hargs {callee : Callee} {args : List Tree} (h : Alike (Tree.call callee args).inputs ev ev')
      (arg : Tree) (harg : arg ∈ args) : Alike arg.inputs ev ev' :=
    h.mono fun name hname => Tree.mem_inputs_call.mpr ⟨arg, harg, hname⟩
  exact valueFrom_congr (P := fun tree => Alike tree.inputs ev ev') alike.levels hargs
    (fun h content => h.readLeaf_eq) (fun h _ => windowAt_eq (hargs h)) alike depth

theorem Alike.valuesAt_eq {tree : Tree} (alike : Alike tree.inputs ev ev') (count : Nat) :
    ev.valuesAt tree count = ev'.valuesAt tree count := by
  have hvalue : ev.valueAt tree = ev'.valueAt tree := funext fun _ => alike.valueFrom_eq 0
  rw [valuesAt, valuesAt, hvalue]

end Evaluator

end FieldScript
