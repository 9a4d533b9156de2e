import FieldScript.Proofs.Field.Writing
import FieldScript.Proofs.Statement.Effect
import FieldScript.Proofs.Statement.Evaluation

/-! Conditionals choose a branch at every point and write at once: tests, values and the readings
that are kept are all those of the scope before the statement, whatever the branches write. -/
namespace FieldScript

def Tree.conditional (test : TestChain) (first : Leaf × Tree) : Option (Leaf × Tree) → Tree
  | none => .guarded test first.1 first.2
  | some other => .branched test first.1 first.2 other.1 other.2

namespace Statement

open Outcome MemoryScope

def reading (scope : MemoryScope) (name : String) (point : Nat) : Option Binary64 :=
  (Host.named? scope name).bind fun field => field.read point

def taken (first : Leaf × Tree) (other : Option (Leaf × Tree)) (holds : Bool) :
    Option (Leaf × Tree) :=
  if holds then some first else other

def namedBranches (first : Leaf × Tree) (other : Option (Leaf × Tree)) : List (String × Tree) :=
  (first :: other.toList).map fun branch => (branch.1.targetName, branch.2)

theorem mem_of_taken {first branch : Leaf × Tree} {other : Option (Leaf × Tree)} {holds : Bool}
    (h : taken first other holds = some branch) : branch ∈ first :: other.toList := by
  cases holds with
  | true =>
    cases h
    exact List.mem_cons_self
  | false => exact List.mem_cons_of_mem _ (Option.mem_toList.mpr h)

section Plans

variable {σ : Type} [Host σ] {scope : σ} {maxDepth : Nat} {test : TestChain} {first : Leaf × Tree}
  {other : Option (Leaf × Tree)}

theorem plan_conditional : plan scope maxDepth (.conditional test first other) =
    planConditional scope maxDepth (.conditional test first other) test
      (namedBranches first other) := by
  cases other <;> rfl

theorem branches_conditional :
    (Tree.conditional test first other).branches = first :: other.toList := by
  cases other <;> rfl

theorem selected_map (holds : Bool) :
    selected (namedBranches first other) holds =
      (taken first other holds).map fun branch => (branch.1.targetName, branch.2) := by
  cases holds <;> cases other <;> rfl

theorem choice_eq_ok {ev : Evaluator} {point : Nat} {chosen : Option (String × Option Binary64)}
    (h : choice scope ev test (namedBranches first other) point = .ok chosen) :
    match taken first other (test.holds (ev.readLeaf point)) with
    | none => chosen = none
    | some branch => ∃ value, ev.valueAt branch.2 point = .ok value ∧
        chosen = some (branch.1.targetName, value) := by
  unfold choice at h
  rw [selected_map] at h
  cases htaken : taken first other (test.holds (ev.readLeaf point)) with
  | none =>
    rw [htaken] at h
    exact (Except.ok.inj h).symm
  | some branch =>
    simp only [htaken, Option.map_some, bind_eq_ok, pure] at h
    obtain ⟨value, hvalue, h⟩ := h
    refine ⟨value, hvalue, ?_⟩
    split at h
    · exact (Except.ok.inj h).symm
    · cases h

end Plans

def overlaid (target : String) (old : Option Binary64) :
    Option (String × Option Binary64) → Option Binary64
  | some (name, value) => if name = target then value else old
  | none => old

theorem getElem?_overlay (target : String) {olds : List (Option Binary64)}
    {choices : List (Option (String × Option Binary64))} {point : Nat} {old : Option Binary64}
    {chosen : Option (String × Option Binary64)} (hold : olds[point]? = some old)
    (hchosen : choices[point]? = some chosen) :
    (overlay target olds choices)[point]? = some (overlaid target old chosen) := by
  induction olds generalizing choices point with
  | nil => cases hold
  | cons first olds ih =>
    cases choices with
    | nil => cases hchosen
    | cons choice choices =>
      cases point with
      | zero =>
        cases hold
        cases hchosen
        rfl
      | succ point => exact ih hold hchosen

variable {scope after : MemoryScope} {maxDepth : Nat} {test : TestChain} {first : Leaf × Tree}
  {other : Option (Leaf × Tree)} {produced : Produced}

theorem getElem?_seed (wf : scope.WellFormed) (name : String) {point : Nat}
    (h : point < scope.pointCount) : (seed scope name)[point]? = some (reading scope name point) := by
  unfold seed reading
  cases hnamed : Host.named? scope name with
  | some field =>
    have hpoint : point < field.size := wf.size_named hnamed ▸ h
    simp [Field.readings, hpoint]
  | none => exact List.getElem?_replicate.trans (if_pos h)

theorem settle_reading {name : String} {field : Field} (h : scope.target? name = some field)
    (point : Nat) : field.settle (reading scope name point) = reading scope name point := by
  unfold reading
  cases hnamed : Host.named? scope name with
  | none => rfl
  | some stored =>
    have hstored : scope.store.field? name = some stored := hnamed
    have heq : stored = field := by simpa [target?, hstored] using h
    subst heq
    exact stored.settle_read point

theorem reads_of_conditional (wf : scope.WellFormed)
    (h : process maxDepth (.conditional test first other) scope = .ok produced after)
    {name : String} (hname : name ∈ (Tree.conditional test first other).outputs) {point : Nat}
    (hpoint : point < scope.pointCount) :
    ∃ field, Host.named? after name = some field ∧
      match taken first other (test.holds ((pointEvaluator scope maxDepth).readLeaf point)) with
      | none => field.read point = reading scope name point
      | some branch => ∃ value, (pointEvaluator scope maxDepth).valueAt branch.2 point = .ok value ∧
          field.read point =
            if branch.1.targetName = name then field.settle value else reading scope name point := by
  obtain ⟨planned, hplan, hwrites, _⟩ := process_eq_ok.mp h
  rw [plan_conditional] at hplan
  simp only [planConditional, bind_eq_ok] at hplan
  obtain ⟨_, _, handles, hresolve, choices, hchoices, hplan⟩ := hplan
  cases hplan
  rw [evaluator_of_resolve hresolve] at hchoices
  obtain ⟨chosen, hchosen, hget⟩ := getElem?_of_mapM hchoices
    (List.getElem?_range (show point < Host.pointCount scope from hpoint))
  have hspec := choice_eq_ok hchosen
  have distinct : (((Tree.conditional test first other).outputs.map fun target =>
      Write.values target (overlay target (seed scope target) choices)).map Write.target).Nodup := by
    simpa [Function.comp_def, Write.target] using Tree.nodup_outputs _
  obtain ⟨old, new, hold, hcommit, hnew⟩ := forM_apply_stored wf
    (fun write hwrite => by
      obtain ⟨target, _, rfl⟩ := List.mem_map.mp hwrite
      rfl)
    distinct hwrites _ (List.mem_map_of_mem hname) _ rfl
  have shape := (Field.keepsShape_commit _).of_ok hcommit
  have hsize : (overlay name (seed scope name) choices).length = old.size := by
    rw [length_overlay, length_seed wf, size_target wf hold]
  have hread := Field.read_commit hsize hcommit point
  rw [getElem?_overlay name (getElem?_seed wf name hpoint) hget] at hread
  have hkept : new.settle (reading scope name point) = reading scope name point := by
    rw [shape.settle_eq]
    exact settle_reading hold point
  refine ⟨new, hnew, ?_⟩
  cases htaken : taken first other
      (test.holds ((pointEvaluator scope maxDepth).readLeaf point)) with
  | none =>
    rw [htaken] at hspec
    subst hspec
    exact hread.trans hkept
  | some branch =>
    rw [htaken] at hspec
    obtain ⟨value, hvalue, rfl⟩ := hspec
    refine ⟨value, hvalue, hread.trans ?_⟩
    by_cases hsame : branch.1.targetName = name
    · simp [overlaid, hsame]
    · simpa [overlaid, hsame] using hkept

/-- At the point, the target of the branch holds what its value was in the scope before. -/
def Written (scope : MemoryScope) (maxDepth : Nat) (after : MemoryScope) (branch : Leaf × Tree)
    (point : Nat) : Prop :=
  ∃ value field, (pointEvaluator scope maxDepth).valueAt branch.2 point = .ok value ∧
    Host.named? after branch.1.targetName = some field ∧ field.read point = field.settle value

theorem mem_outputs_conditional {branch : Leaf × Tree} (h : branch ∈ first :: other.toList) :
    branch.1.targetName ∈ (Tree.conditional test first other).outputs :=
  Tree.mem_outputs.mpr ⟨branch, branches_conditional ▸ h, rfl⟩

theorem written_of_taken (wf : scope.WellFormed)
    (h : process maxDepth (.conditional test first other) scope = .ok produced after)
    {branch : Leaf × Tree} (hbranch : branch ∈ first :: other.toList) {point : Nat}
    (hpoint : point < scope.pointCount)
    (htaken : taken first other (test.holds ((pointEvaluator scope maxDepth).readLeaf point)) =
      some branch) : Written scope maxDepth after branch point := by
  obtain ⟨field, hfield, hread⟩ :=
    reads_of_conditional wf h (mem_outputs_conditional hbranch) hpoint
  rw [htaken] at hread
  obtain ⟨value, hvalue, hread⟩ := hread
  rw [if_pos rfl] at hread
  exact ⟨value, field, hvalue, hfield, hread⟩

theorem reading_of_not_taken (wf : scope.WellFormed)
    (h : process maxDepth (.conditional test first other) scope = .ok produced after)
    {name : String} {point : Nat} (hpoint : point < scope.pointCount)
    (hother : ∀ branch ∈ taken first other
      (test.holds ((pointEvaluator scope maxDepth).readLeaf point)), branch.1.targetName ≠ name) :
    reading after name point = reading scope name point := by
  by_cases hname : name ∈ (Tree.conditional test first other).outputs
  · obtain ⟨field, hfield, hread⟩ := reads_of_conditional wf h hname hpoint
    have hafter : reading after name point = field.read point := by simp [reading, hfield]
    rw [hafter]
    cases htaken : taken first other
        (test.holds ((pointEvaluator scope maxDepth).readLeaf point)) with
    | none => rwa [htaken] at hread
    | some branch =>
      rw [htaken] at hread
      obtain ⟨value, _, hread⟩ := hread
      rwa [if_neg (hother branch htaken)] at hread
  · have wf' := wellFormed_of_process wf h
    cases effect_of_process wf h with
    | fields frame =>
      have hfield : Host.named? after name = Host.named? scope name := frame.field?_eq wf' hname
      simp only [reading, hfield]
    | data target keyword args data call => cases other <;> cases call

/-- Where the test holds, the first target gets the first value, elsewhere the other target gets the
other value, and what is not written at a point reads as before. Test, values and readings are all
taken in the scope before the statement, also where they name a target. -/
theorem process_conditional_simultaneous (reachable : scope.Reachable)
    (succeeded : process maxDepth (.conditional test first other) scope = .ok produced after) :
    (∀ branch ∈ first :: other.toList, (Host.fieldId? after branch.1.targetName).isSome = true) ∧
    ∀ point < scope.pointCount,
      (test.holds ((pointEvaluator scope maxDepth).readLeaf point) = true →
        Written scope maxDepth after first point ∧
        ∀ name, first.1.targetName ≠ name → reading after name point = reading scope name point) ∧
      (test.holds ((pointEvaluator scope maxDepth).readLeaf point) = false →
        (∀ branch ∈ other, Written scope maxDepth after branch point) ∧
        ∀ name, (∀ branch ∈ other, branch.1.targetName ≠ name) →
          reading after name point = reading scope name point) := by
  have wf := reachable.wellFormed
  refine ⟨?_, ?_⟩
  · intro branch hbranch
    cases effect_of_process wf succeeded with
    | fields frame stored => exact stored _ (mem_outputs_conditional hbranch)
    | data target keyword args data call => cases other <;> cases call
  · intro point hpoint
    constructor
    · intro holds
      refine ⟨written_of_taken wf succeeded List.mem_cons_self hpoint (by rw [holds]; rfl), ?_⟩
      intro name hname
      refine reading_of_not_taken wf succeeded hpoint fun branch hbranch => ?_
      rw [holds] at hbranch
      cases hbranch
      exact hname
    · intro fails
      refine ⟨fun branch hbranch => ?_, fun name hname => ?_⟩
      · have htaken : taken first other
            (test.holds ((pointEvaluator scope maxDepth).readLeaf point)) = some branch := by
          rw [fails]
          exact hbranch
        exact written_of_taken wf succeeded (mem_of_taken htaken) hpoint htaken
      · refine reading_of_not_taken wf succeeded hpoint fun branch hbranch => ?_
        rw [fails] at hbranch
        exact hname branch hbranch

/-- `if (A > 1) then X = A else A = 0`: the test and the first branch read what the other writes. -/
theorem aboveOne_simultaneous :
    twoPoints.Reachable ∧
      ∃ after, process 1 (.conditional ⟨⟨.variable "A", .gt, .number "1" 1⟩, []⟩
          (.variable "X", .leaf (.variable "A"))
          (some (.variable "A", .leaf (.number "0" 0)))) twoPoints =
            .ok (.fields ["X", "A"]) after ∧
        Written twoPoints 1 after (.variable "A", .leaf (.number "0" 0)) 0 ∧
        reading after "X" 0 = none ∧
        Written twoPoints 1 after (.variable "X", .leaf (.variable "A")) 1 ∧
        reading after "A" 1 = some 2 := by
  let after : MemoryScope :=
    ⟨⟨#[⟨"A", #[0, 2], defaultSentinel⟩, ⟨"X", #[defaultSentinel, 2], defaultSentinel⟩],
      .empty .owning⟩, .empty⟩
  have succeeded : process 1 (.conditional ⟨⟨.variable "A", .gt, .number "1" 1⟩, []⟩
      (.variable "X", .leaf (.variable "A")) (some (.variable "A", .leaf (.number "0" 0))))
        twoPoints = .ok (.fields ["X", "A"]) after := by
    with_unfolding_all rfl
  have points := (process_conditional_simultaneous reachable_twoPoints succeeded).2
  have atZero := (points 0 (by decide)).2 (by with_unfolding_all rfl)
  have atOne := (points 1 (by decide)).1 (by with_unfolding_all rfl)
  have before : reading twoPoints "X" 0 = none ∧ reading twoPoints "A" 1 = some 2 := by
    constructor <;> with_unfolding_all rfl
  exact ⟨reachable_twoPoints, after, succeeded, atZero.1 _ rfl,
    (atZero.2 "X" fun branch hbranch => by cases hbranch; decide).trans before.1, atOne.1,
    (atOne.2 "A" (by decide)).trans before.2⟩

end Statement

end FieldScript
