import FieldScript.Proofs.Statement.Independence
import FieldScript.Proofs.Statement.Success

/-! Running a statement once more. If it reads nothing that it writes, its inputs are as before and
the points that a conditional kept read as before, so the plan is the same; and a write that has been
made leaves a field as it is when it is made again. -/
namespace FieldScript

theorem Field.fill_fill (field : Field) (value : Binary64) :
    (field.fill value).fill value = field.fill value := by
  simp [fill]

theorem Write.step_again {write : Write} {step : Update Field Unit} (hstep : write.step? = some step)
    {old new : Field}
    (fits : ∀ target values, write = .values target values → values.length = old.size)
    (h : step old = .ok () new) : step new = .ok () new := by
  cases write with
  | fill target value =>
    cases hstep
    cases h
    exact congrArg (EStateM.Result.ok ()) (old.fill_fill value)
  | clear target =>
    cases hstep
    cases h
    exact congrArg (EStateM.Result.ok ()) (old.fill_fill old.sentinel)
  | values target values =>
    cases hstep
    have hlength := fits target values rfl
    rw [Field.commit_eq hlength] at h
    cases h
    exact Field.commit_eq (by simp [Field.size])
  | data target data => cases hstep

namespace MemoryScope

variable {scope : MemoryScope} {name : String} {field : Field}

theorem replace_stored (h : scope.store.field? name = some field) :
    scope.replace name field = scope := by
  obtain ⟨id, hid, hstored⟩ := Store.field?_eq_some h
  have hsame : scope.fields.setIfInBounds id field = scope.fields :=
    setIfInBounds_of_getElem? hstored
  simp only [replace, hid, hsame]
  rfl

end MemoryScope

namespace Statement

open Outcome MemoryScope

variable {scope after : MemoryScope} {maxDepth : Nat} {statement : Tree} {produced : Produced}

theorem apply_stored (wf : scope.WellFormed) {write : Write} {step : Update Field Unit}
    (hstep : write.step? = some step)
    (fits : ∀ target values, write = .values target values → values.length = scope.pointCount)
    {field : Field} (stored : scope.store.field? write.target = some field)
    (again : step field = .ok () field) : Write.apply write scope = .ok () scope := by
  have htarget : scope.target? write.target = some field := by simp [target?, stored]
  have hupdate : updateOutput write.target step scope = .ok () scope :=
    updateOutput_eq_ok.mpr ⟨field, field, htarget, again, replace_stored stored⟩
  cases write with
  | fill target value =>
    cases hstep
    exact hupdate
  | clear target =>
    cases hstep
    exact hupdate
  | values target values =>
    cases hstep
    rw [apply_values wf target (fits target values rfl)]
    exact hupdate
  | data target data => cases hstep

theorem forM_apply_unchanged {writes : List Write}
    (h : ∀ write ∈ writes, Write.apply write scope = .ok () scope) :
    writes.forM Write.apply scope = .ok () scope := by
  induction writes with
  | nil => rfl
  | cons write rest ih =>
    obtain ⟨hwrite, hrest⟩ := List.forall_mem_cons.mp h
    exact forM_cons_apply.mpr ⟨scope, hwrite, ih hrest⟩

theorem forM_apply_again (wf : scope.WellFormed) {planned : Plan}
    (hplan : plan scope maxDepth statement = .ok planned)
    (steps : ∀ write ∈ planned.writes, write.step?.isSome = true)
    (distinct : (planned.writes.map Write.target).Nodup)
    (h : planned.writes.forM Write.apply scope = .ok () after) :
    planned.writes.forM Write.apply after = .ok () after := by
  have wf' := wellFormed_of_forM_apply wf h
  refine forM_apply_unchanged fun write hwrite => ?_
  obtain ⟨step, hstep⟩ := Option.isSome_iff_exists.mp (steps write hwrite)
  obtain ⟨old, new, hold, hnew, hstored⟩ :=
    forM_apply_stored wf steps distinct h write hwrite step hstep
  have shape := (Write.keepsShape_of_step? hstep).of_ok hnew
  have fits (target : String) (values : List (Option Binary64))
      (heq : write = .values target values) : values.length = scope.pointCount :=
    length_of_plan wf hplan (heq ▸ hwrite)
  have hpoints : after.pointCount = scope.pointCount := by
    rw [← wf'.size_named hstored, shape.size, size_target wf hold]
  have again : step new = .ok () new :=
    Write.step_again hstep (fun target values heq =>
      (fits target values heq).trans (size_target wf hold).symm) hnew
  exact apply_stored wf' hstep (fun target values heq => (fits target values heq).trans hpoints.symm)
    hstored again

section Conditionals

variable {test : TestChain} {first : Leaf × Tree} {other : Option (Leaf × Tree)}

theorem overlay_again (wf : scope.WellFormed)
    (h : process maxDepth (.conditional test first other) scope = .ok produced after)
    (points : after.pointCount = scope.pointCount)
    {choices : List (Option (String × Option Binary64))}
    (hchoices : (List.range scope.pointCount).mapM
      (choice scope (pointEvaluator scope maxDepth) test (namedBranches first other)) = .ok choices)
    (target : String) :
    overlay target (seed after target) choices = overlay target (seed scope target) choices := by
  have wf' := wellFormed_of_process wf h
  refine List.ext_getElem? fun point => ?_
  by_cases hpoint : point < scope.pointCount
  · obtain ⟨chosen, hchosen, hget⟩ := getElem?_of_mapM hchoices (List.getElem?_range hpoint)
    have hspec := choice_eq_ok hchosen
    rw [getElem?_overlay target (getElem?_seed wf' target (points ▸ hpoint)) hget,
      getElem?_overlay target (getElem?_seed wf target hpoint) hget]
    cases htaken : taken first other
        (test.holds ((pointEvaluator scope maxDepth).readLeaf point)) with
    | none =>
      rw [htaken] at hspec
      rw [hspec, reading_of_not_taken wf h hpoint (by simp [htaken])]
    | some branch =>
      rw [htaken] at hspec
      obtain ⟨value, _, rfl⟩ := hspec
      by_cases hname : branch.1.targetName = target
      · simp [overlaid, hname]
      · rw [reading_of_not_taken wf h hpoint (by simpa [htaken] using hname)]
  · rw [List.getElem?_eq_none, List.getElem?_eq_none]
    · simpa [length_seed wf] using hpoint
    · simpa [length_seed wf', points] using hpoint

theorem plan_conditional_again (wf : scope.WellFormed)
    (agree : AgreeOn (Tree.conditional test first other).inputs scope after)
    (h : process maxDepth (.conditional test first other) scope = .ok produced after) :
    plan after maxDepth (.conditional test first other) =
      plan scope maxDepth (.conditional test first other) := by
  have hcheck : checkBranch after = checkBranch scope := by
    funext branch
    simp only [checkBranch, agree.checkOutput_eq]
  have hchoice : choice after (pointEvaluator after maxDepth) test (namedBranches first other) =
      choice scope (pointEvaluator scope maxDepth) test (namedBranches first other) :=
    (choice_eq_of_alike agree.alike fun name _ => by
      rw [seedSize_eq wf, seedSize_eq agree.right, agree.pointCount_eq]).symm
  have hpoints : Host.pointCount after = Host.pointCount scope := agree.pointCount_eq.symm
  rw [plan_conditional_eq, plan_conditional_eq, hcheck, hchoice, hpoints,
    ← agree.alike.requireFields_eq]
  cases hchoices : (List.range (Host.pointCount scope)).mapM
      (choice scope (pointEvaluator scope maxDepth) test (namedBranches first other)) with
  | error e => rfl
  | ok choices =>
    have hplans : overlayPlan after (Tree.conditional test first other).outputs choices =
        overlayPlan scope (Tree.conditional test first other).outputs choices := by
      unfold overlayPlan
      congr 1
      refine List.map_congr_left fun target _ => ?_
      rw [overlayWrite, overlayWrite, overlay_again wf h hpoints hchoices]
    simp only [bind, Except.bind, hplans]

end Conditionals

theorem plan_again (wf : scope.WellFormed) (noHost : ¬statement.CallsHost)
    (apart : ∀ name ∈ statement.outputs, name ∉ statement.inputs)
    (h : process maxDepth statement scope = .ok produced after) :
    plan after maxDepth statement = plan scope maxDepth statement := by
  have agree : AgreeOn statement.inputs scope after := by
    have hagree : AgreeOn statement.inputs scope ((process maxDepth statement).after scope) :=
      agree_after wf maxDepth fun name hread hwritten => apart name hwritten hread
    simpa [Update.after, h] using hagree
  rcases statement.form with ⟨target, value, rfl⟩ | ⟨test, first, other, rfl⟩ | hother
  · cases hkeyword : value.userKeyword? with
    | none => exact (planAssign_congr hkeyword agree.alike agree.checkOutput_eq).symm
    | some keyword =>
      obtain ⟨args, rfl⟩ := Tree.userKeyword?_eq_some hkeyword
      exact absurd ⟨target, keyword, args, rfl⟩ noHost
  · exact plan_conditional_again wf agree h
  · rw [plan_of_not_isStatement hother, plan_of_not_isStatement hother]

/-- A statement without host functions that reads none of its outputs and succeeds does the same when
it is run again, and then changes nothing at all. -/
theorem process_again (reachable : scope.Reachable) (noHost : ¬statement.CallsHost)
    (apart : ∀ name ∈ statement.outputs, name ∉ statement.inputs)
    (succeeded : process maxDepth statement scope = .ok produced after) :
    process maxDepth statement after = .ok produced after := by
  have wf := reachable.wellFormed
  obtain ⟨planned, hplan, hwrites, hproduced⟩ := process_eq_ok.mp succeeded
  refine process_eq_ok.mpr
    ⟨planned, (plan_again wf noHost apart succeeded).trans hplan, ?_, hproduced⟩
  cases planned_of_plan hplan with
  | fields writes steps targets =>
    exact forM_apply_again wf hplan steps (targets ▸ statement.nodup_outputs) hwrites
  | nothing => rfl
  | data target keyword args data call => exact absurd ⟨target, keyword, args, call⟩ noHost

/-- The field is new at first and keeps a missing point both times. -/
theorem keepFromOne_again :
    (rearrangedA.Reachable ∧ ¬keepFromOne.CallsHost ∧
      ∀ name ∈ keepFromOne.outputs, name ∉ keepFromOne.inputs) ∧
    ∃ after, process 1 keepFromOne rearrangedA = .ok (.fields ["X"]) after ∧
      Host.named? after "X" = some ⟨"X", #[1, defaultSentinel], defaultSentinel⟩ ∧
      process 1 keepFromOne after = .ok (.fields ["X"]) after := by
  have noHost : ¬keepFromOne.CallsHost := by rintro ⟨_, _, _, ⟨⟩⟩
  have apart : ∀ name ∈ keepFromOne.outputs, name ∉ keepFromOne.inputs := by decide
  let after : MemoryScope :=
    ⟨⟨#[⟨"B", #[2, 2], defaultSentinel⟩, ⟨"A", #[1, 2], 2⟩,
      ⟨"X", #[1, defaultSentinel], defaultSentinel⟩], ⟨.owning, [("A", .text "B")]⟩⟩, .empty⟩
  have succeeded : process 1 keepFromOne rearrangedA = .ok (.fields ["X"]) after := by
    with_unfolding_all rfl
  exact ⟨⟨reachable_rearrangedA, noHost, apart⟩, after, succeeded, by with_unfolding_all rfl,
    process_again reachable_rearrangedA noHost apart succeeded⟩

end Statement

end FieldScript
