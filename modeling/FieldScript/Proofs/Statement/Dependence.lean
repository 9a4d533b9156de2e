import FieldScript.Proofs.Evaluate.Dependence
import FieldScript.Proofs.Scope.Reachable
import FieldScript.Proofs.Statement.Failing

/-! What a statement sees of a scope. An expression depends on the readings of its inputs and on the
number of points; planning a statement looks besides at what its outputs read, and at nothing else:
neither handles, sentinels, user data nor other fields make a difference. -/
namespace FieldScript

open Outcome

namespace Host

variable {σ τ : Type} [Host σ] [Host τ] {names fewer : List String} {a : σ} {b : τ}

/-- Scopes with fields of the same readings, or with no field, under each of these names. -/
structure Alike (names : List String) (a : σ) (b : τ) : Prop where
  points : pointCount a = pointCount b
  found : ∀ name ∈ names, (fieldId? a name).isSome = (fieldId? b name).isSome
  readings : ∀ name ∈ names,
    (named? a name).map Field.readings = (named? b name).map Field.readings

theorem Alike.mono (alike : Alike names a b) (h : ∀ name ∈ fewer, name ∈ names) :
    Alike fewer a b where
  points := alike.points
  found name hname := alike.found name (h name hname)
  readings name hname := alike.readings name (h name hname)

theorem Alike.requireFields_eq (alike : Alike names a b) :
    requireFields a names = requireFields b names :=
  forM_congr fun name hname => by rw [alike.found name hname]

end Host

namespace Statement

section Hosts

variable {σ τ : Type} [Host σ] [Host τ] {names : List String} {a : σ} {b : τ} {maxDepth : Nat}

theorem alike_pointEvaluator (alike : Host.Alike names a b) (maxDepth : Nat) :
    Evaluator.Alike names (pointEvaluator a maxDepth) (pointEvaluator b maxDepth) where
  levels := rfl
  readings name hname := by
    rw [lookup_pointEvaluator, lookup_pointEvaluator]
    exact alike.readings name hname

theorem evaluateAll_congr {tree : Tree} (alike : Host.Alike tree.inputs a b) :
    evaluateAll a maxDepth tree = evaluateAll b maxDepth tree := by
  rw [evaluateAll_eq, evaluateAll_eq, alike.requireFields_eq, alike.points,
    (alike_pointEvaluator alike maxDepth).valuesAt_eq]

theorem planCopy_eq (scope : σ) (target source : String) : planCopy scope target source = (do
    Host.requireFields scope [source]
    if source = target then pure ⟨[], .fields [target]⟩
    else
      match (Host.named? scope source).map Field.readings with
      | none => .error (.unresolvedName source)
      | some values => do
        checkOutput scope target
        pure ⟨[.values target values], .fields [target]⟩) := by
  refine Host.resolve_bind fun handles hresolve => ?_
  rw [Host.lookup_of_resolve hresolve]
  cases Host.named? scope source <;> rfl

theorem planAssign_congr {target : String} {value : Tree} (noHost : value.userKeyword? = none)
    (alike : Host.Alike value.inputs a b) (available : checkOutput a = checkOutput b) :
    planAssign a maxDepth target value = planAssign b maxDepth target value := by
  unfold planAssign
  split
  · rfl
  · rfl
  · rename_i source
    rw [inputs_variable] at alike
    rw [planCopy_eq, planCopy_eq, alike.requireFields_eq, available,
      alike.readings source List.mem_cons_self]
  · cases noHost
  · rw [available, evaluateAll_congr alike]

theorem seed_eq (scope : σ) (target : String) : seed scope target =
    ((Host.named? scope target).map Field.readings).getD
      (List.replicate (Host.pointCount scope) none) := by
  unfold seed
  cases Host.named? scope target <;> rfl

theorem seedSize_eq_length (scope : σ) (target : String) :
    seedSize scope target = (seed scope target).length := by
  unfold seedSize seed
  cases Host.named? scope target <;> simp

theorem seed_congr (alike : Host.Alike names a b) {target : String} (h : target ∈ names) :
    seed a target = seed b target := by
  rw [seed_eq, seed_eq, alike.readings target h, alike.points]

section Conditionals

variable {test : TestChain} {first : Leaf × Tree} {other : Option (Leaf × Tree)}

theorem choice_congr {ev ev' : Evaluator} {point point' : Nat}
    (tests : test.holds (ev.readLeaf point) = test.holds (ev'.readLeaf point'))
    (values : ∀ branch ∈ first :: other.toList,
      ev.valueAt branch.2 point = ev'.valueAt branch.2 point')
    (places : ∀ branch ∈ first :: other.toList, point < seedSize a branch.1.targetName ↔
      point' < seedSize b branch.1.targetName) :
    choice a ev test (namedBranches first other) point =
      choice b ev' test (namedBranches first other) point' := by
  unfold choice
  rw [selected_map, selected_map, tests]
  cases htaken : taken first other (test.holds (ev'.readLeaf point')) with
  | none => rfl
  | some branch =>
    have hbranch := mem_of_taken htaken
    simp only [Option.map_some, values branch hbranch, places branch hbranch]

theorem choice_eq_of_alike (alike : Host.Alike (Tree.conditional test first other).inputs a b)
    (places : ∀ name ∈ (Tree.conditional test first other).outputs,
      seedSize a name = seedSize b name) :
    choice a (pointEvaluator a maxDepth) test (namedBranches first other) =
      choice b (pointEvaluator b maxDepth) test (namedBranches first other) := by
  funext point
  have alike' := alike_pointEvaluator alike maxDepth
  refine choice_congr ?_ (fun branch hbranch => ?_) fun branch hbranch => ?_
  · refine TestChain.holds_congr fun content hcontent => alike'.readLeaf_eq ?_
    cases other <;> simp [Tree.conditional, Tree.leaves, hcontent]
  · refine (alike'.mono fun name hname => ?_).valueFrom_eq 0
    exact Tree.mem_inputs_of_branch (branches_conditional ▸ hbranch) hname
  · rw [places _ (mem_outputs_conditional hbranch)]

theorem plan_conditional_eq (scope : σ) (maxDepth : Nat) (test : TestChain) (first : Leaf × Tree)
    (other : Option (Leaf × Tree)) : plan scope maxDepth (.conditional test first other) = (do
      (namedBranches first other).forM (checkBranch scope)
      Host.requireFields scope (Tree.conditional test first other).inputs
      let choices ← (List.range (Host.pointCount scope)).mapM
        (choice scope (pointEvaluator scope maxDepth) test (namedBranches first other))
      pure (overlayPlan scope (Tree.conditional test first other).outputs choices)) := by
  rw [plan_conditional, planConditional_eq]
  cases (namedBranches first other).forM (checkBranch scope) with
  | error e => rfl
  | ok _ =>
    refine Host.resolve_bind fun handles hresolve => ?_
    rw [evaluator_of_resolve hresolve]

theorem plan_conditional_congr (alike : Host.Alike names a b)
    (available : checkOutput a = checkOutput b)
    (reads : ∀ name ∈ (Tree.conditional test first other).inputs, name ∈ names)
    (writes : ∀ name ∈ (Tree.conditional test first other).outputs, name ∈ names) :
    plan a maxDepth (.conditional test first other) =
      plan b maxDepth (.conditional test first other) := by
  have hcheck : checkBranch a = checkBranch b := by
    funext branch
    simp only [checkBranch, available]
  have hplans : overlayPlan a (Tree.conditional test first other).outputs =
      overlayPlan b (Tree.conditional test first other).outputs := by
    funext choices
    unfold overlayPlan
    congr 1
    refine List.map_congr_left fun target htarget => ?_
    rw [overlayWrite, overlayWrite, seed_congr alike (writes target htarget)]
  have hplaces (name : String) (hname : name ∈ (Tree.conditional test first other).outputs) :
      seedSize a name = seedSize b name := by
    rw [seedSize_eq_length, seedSize_eq_length, seed_congr alike (writes name hname)]
  rw [plan_conditional_eq, plan_conditional_eq, hcheck, hplans,
    (alike.mono reads).requireFields_eq, alike.points,
    choice_eq_of_alike (alike.mono reads) hplaces]

end Conditionals

theorem plan_congr {statement : Tree} (noHost : ¬statement.CallsHost)
    (alike : Host.Alike names a b) (available : checkOutput a = checkOutput b)
    (reads : ∀ name ∈ statement.inputs, name ∈ names)
    (writes : ∀ name ∈ statement.outputs, name ∈ names) :
    plan a maxDepth statement = plan b maxDepth statement := by
  rcases statement.form with ⟨target, value, rfl⟩ | ⟨test, first, other, rfl⟩ | hother
  · cases hkeyword : value.userKeyword? with
    | none => exact planAssign_congr hkeyword (alike.mono reads) available
    | some keyword =>
      obtain ⟨args, rfl⟩ := Tree.userKeyword?_eq_some hkeyword
      exact absurd ⟨target, keyword, args, rfl⟩ noHost
  · exact plan_conditional_congr alike available reads writes
  · rw [plan_of_not_isStatement hother, plan_of_not_isStatement hother]

end Hosts

open MemoryScope

variable {scope other : MemoryScope}

theorem map_readings_eq (wf : scope.WellFormed) (wf' : other.WellFormed)
    (points : scope.pointCount = other.pointCount) {name : String}
    (found : (Host.fieldId? scope name).isSome = (Host.fieldId? other name).isSome)
    (same : ∀ point < scope.pointCount, reading scope name point = reading other name point) :
    (Host.named? scope name).map Field.readings = (Host.named? other name).map Field.readings := by
  have hnamed : (Host.named? scope name).isSome = (Host.named? other name).isSome :=
    (scope.store.isSome_fieldId? name).symm.trans (found.trans (other.store.isSome_fieldId? name))
  cases hfield : Host.named? scope name with
  | none =>
    have hnone : Host.named? other name = none := by simpa [hfield] using hnamed
    rw [hnone]
  | some field =>
    rw [hfield, Option.isSome_some] at hnamed
    obtain ⟨field', hfield'⟩ := Option.isSome_iff_exists.mp hnamed.symm
    have hsize : field.size = scope.pointCount := wf.size_named hfield
    have hsize' : field'.size = other.pointCount := wf'.size_named hfield'
    have hreadings : field.readings = field'.readings := by
      refine Field.readings_eq_iff.mpr ⟨by omega, fun point hpoint => ?_⟩
      simpa [reading, hfield, hfield'] using same point (hsize ▸ hpoint)
    rw [hfield', Option.map_some, Option.map_some, hreadings]

/-- Scopes of as many points, where each input is a field of both or of neither and reads the same
in both at every point, give an expression the same values or the same error. -/
theorem evaluateAll_eq_of_reading_eq (reachable : scope.Reachable) (reachable' : other.Reachable)
    (points : scope.pointCount = other.pointCount) {tree : Tree}
    (found : ∀ name ∈ tree.inputs,
      (Host.fieldId? scope name).isSome = (Host.fieldId? other name).isSome)
    (same : ∀ name ∈ tree.inputs, ∀ point < scope.pointCount,
      reading scope name point = reading other name point) (maxDepth : Nat) :
    evaluateAll scope maxDepth tree = evaluateAll other maxDepth tree :=
  evaluateAll_congr ⟨points, found, fun name hname =>
    map_readings_eq reachable.wellFormed reachable'.wellFormed points (found name hname)
      (same name hname)⟩

def plainA : MemoryScope :=
  (MemoryScope.empty.install ⟨"A", #[1, defaultSentinel], defaultSentinel⟩).2

/-- The same readings behind another handle and another sentinel, beside another field and user data
of the same name. -/
def rearrangedA : MemoryScope :=
  ⟨⟨#[⟨"B", #[2, 2], defaultSentinel⟩, ⟨"A", #[1, 2], 2⟩], ⟨.owning, [("A", .text "B")]⟩⟩, .empty⟩

def peakOfA : Tree :=
  .call (.builtin .max) [.leaf (.variable "A"), .call (.builtin .median) [.leaf (.variable "A"),
    .leaf (.number "3" ⟨0x4008000000000000⟩)]]

theorem reachable_plainA : plainA.Reachable := by
  have added : MemoryScope.empty.addField ⟨"A", #[1, defaultSentinel], defaultSentinel⟩ =
      .ok (0, plainA) := by
    with_unfolding_all rfl
  exact .addField (.start _ _) added

theorem reachable_rearrangedA : rearrangedA.Reachable := by
  have start : (⟨⟨#[], ⟨.owning, [("A", .text "B")]⟩⟩, .empty⟩ : MemoryScope).Reachable := .start _ _
  have addedB : (⟨⟨#[], ⟨.owning, [("A", .text "B")]⟩⟩, .empty⟩ : MemoryScope).addField
      ⟨"B", #[2, 2], defaultSentinel⟩ =
        .ok (0, ⟨⟨#[⟨"B", #[2, 2], defaultSentinel⟩], ⟨.owning, [("A", .text "B")]⟩⟩, .empty⟩) := by
    with_unfolding_all rfl
  have addedA : (⟨⟨#[⟨"B", #[2, 2], defaultSentinel⟩], ⟨.owning, [("A", .text "B")]⟩⟩, .empty⟩ :
      MemoryScope).addField ⟨"A", #[1, 2], 2⟩ = .ok (1, rearrangedA) := by
    with_unfolding_all rfl
  exact .addField (.addField start addedB) addedA

theorem peakOfA_rearranged :
    (plainA.Reachable ∧ rearrangedA.Reachable ∧ plainA.pointCount = rearrangedA.pointCount ∧
      (∀ name ∈ peakOfA.inputs,
        (Host.fieldId? plainA name).isSome = (Host.fieldId? rearrangedA name).isSome) ∧
      ∀ name ∈ peakOfA.inputs, ∀ point < plainA.pointCount,
        reading plainA name point = reading rearrangedA name point) ∧
    evaluateAll plainA 2 peakOfA = .ok [some 1, none] ∧
      evaluateAll plainA 2 peakOfA = evaluateAll rearrangedA 2 peakOfA := by
  have points : plainA.pointCount = rearrangedA.pointCount := by decide
  have found : ∀ name ∈ peakOfA.inputs,
      (Host.fieldId? plainA name).isSome = (Host.fieldId? rearrangedA name).isSome := by
    decide +kernel
  have same : ∀ name ∈ peakOfA.inputs, ∀ point < plainA.pointCount,
      reading plainA name point = reading rearrangedA name point := by
    decide +kernel
  have values : evaluateAll plainA 2 peakOfA = .ok [some 1, none] := by
    with_unfolding_all rfl
  exact ⟨⟨reachable_plainA, reachable_rearrangedA, points, found, same⟩, values,
    evaluateAll_eq_of_reading_eq reachable_plainA reachable_rearrangedA points found same 2⟩

end Statement

end FieldScript
