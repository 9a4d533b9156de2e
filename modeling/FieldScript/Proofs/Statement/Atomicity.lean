import FieldScript.Proofs.Scope.Reachable
import FieldScript.Proofs.Statement.Planning

/-! A statement that fails leaves a scope in memory as it was. Nothing is written before the plan
stands, and a plan's writes are either one, refused as a whole, or writes that cannot fail. -/
namespace FieldScript.Statement

open Outcome

/-- A write that concerns its target as a whole: all points at once, or an entry of user data. -/
def Whole : Write → Prop
  | .values _ _ => False
  | _ => True

variable {scope : MemoryScope}

theorem planAssign_writes (wf : scope.WellFormed) {maxDepth : Nat} {target : String} {value : Tree}
    {plan : Plan} (h : planAssign scope maxDepth target value = .ok plan) :
    (∃ write, plan.writes = [write] ∧ Whole write) ∨ ∀ write ∈ plan.writes, Fits scope write := by
  unfold planAssign at h
  split at h
  · cases h
    exact .inl ⟨_, rfl, trivial⟩
  · cases h
    exact .inl ⟨_, rfl, trivial⟩
  · exact .inr (fits_planCopy wf h)
  · rcases planUserCall_writes wf h with ⟨data, hdata⟩ | hfits
    · exact .inl ⟨_, hdata, trivial⟩
    · exact .inr hfits
  · simp only [bind_eq_ok] at h
    obtain ⟨⟨⟩, hcheck, values, hvalues, h⟩ := h
    cases h
    right
    simpa [Fits] using ⟨length_evaluateAll hvalues, nonempty_of_checkOutput hcheck⟩

theorem plan_writes (wf : scope.WellFormed) {maxDepth : Nat} {statement : Tree} {planned : Plan}
    (h : plan scope maxDepth statement = .ok planned) :
    (∃ write, planned.writes = [write] ∧ Whole write) ∨
      ∀ write ∈ planned.writes, Fits scope write := by
  unfold plan at h
  split at h
  · exact planAssign_writes wf h
  · exact .inr (fits_planConditional wf h)
  · exact .inr (fits_planConditional wf h)
  · cases h

theorem length_of_plan (wf : scope.WellFormed) {maxDepth : Nat} {statement : Tree}
    {planned : Plan} (h : plan scope maxDepth statement = .ok planned) {target : String}
    {values : List (Option Binary64)} (hwrite : .values target values ∈ planned.writes) :
    values.length = scope.pointCount := by
  rcases plan_writes wf h with ⟨write, hone, whole⟩ | hfits
  · rw [hone] at hwrite
    cases List.mem_singleton.mp hwrite
    exact whole.elim
  · exact (hfits _ hwrite).1

theorem updateOutput_modify_error {name : String} {f : Field → Field} {e : EvalError}
    {after : MemoryScope} (h : updateOutput name (modify f) scope = .error e after) :
    after = scope := by
  rw [MemoryScope.updateOutput_eq] at h
  cases htarget : scope.target? name with
  | none =>
    rw [htarget] at h
    cases h
    rfl
  | some field =>
    rw [htarget] at h
    cases h

theorem apply_whole_error {write : Write} (whole : Whole write) {e : EvalError}
    {after : MemoryScope} (h : Write.apply write scope = .error e after) : after = scope := by
  cases write with
  | fill target value => exact updateOutput_modify_error h
  | clear target => exact updateOutput_modify_error h
  | values target values => exact whole.elim
  | data target data =>
    simp only [Write.apply] at h
    split at h <;> cases h
    rfl

theorem apply_values (wf : scope.WellFormed) (target : String) {values : List (Option Binary64)}
    (hlength : values.length = scope.pointCount) :
    Write.apply (.values target values) scope = updateOutput target (Field.commit values) scope := by
  simp only [Write.apply]
  cases hstored : Host.named? scope target with
  | none => rfl
  | some stored =>
    have hsize : stored.size = values.length := (wf.size_named hstored).trans hlength.symm
    simp only [hsize, if_true]

theorem apply_fits (wf : scope.WellFormed) {write : Write} (h : Fits scope write) :
    ∃ after, Write.apply write scope = .ok () after ∧ after.WellFormed ∧
      ∀ other, Fits scope other → Fits after other := by
  cases write with
  | values target values =>
    obtain ⟨hlength, hnonempty⟩ := h
    obtain ⟨field, htarget⟩ := MemoryScope.target?_isSome hnonempty target
    have hsize : values.length = field.size :=
      hlength.trans (MemoryScope.size_target wf htarget).symm
    obtain ⟨written, hcommit⟩ := Field.commit_ok hsize
    have shape : field.SameShape written := (Field.keepsShape_commit values).of_ok hcommit
    have hupdate : updateOutput target (Field.commit values) scope =
        .ok () (scope.replace target written) := by
      rw [MemoryScope.updateOutput_eq, htarget]
      simp only [hcommit]
    refine ⟨scope.replace target written, ?_, wf.replace htarget shape, ?_⟩
    · rw [apply_values wf target hlength, hupdate]
    · intro other hother
      cases other with
      | values name others =>
        have hcount := MemoryScope.pointCount_replace wf htarget shape
        have hgrown := MemoryScope.size_fields_replace scope target written
        exact ⟨hother.1.trans hcount.symm, by omega⟩
      | _ => exact hother.elim
  | _ => exact h.elim

theorem forM_apply_fits (wf : scope.WellFormed) {writes : List Write}
    (h : ∀ write ∈ writes, Fits scope write) :
    ∃ after, writes.forM Write.apply scope = .ok () after := by
  induction writes generalizing scope with
  | nil => exact ⟨scope, rfl⟩
  | cons write rest ih =>
    obtain ⟨middle, hwrite, wf', keeps⟩ := apply_fits wf (h write List.mem_cons_self)
    obtain ⟨after, hrest⟩ :=
      ih wf' fun other hother => keeps other (h other (List.mem_cons_of_mem _ hother))
    exact ⟨after, by rw [forM_cons]; simp only [bind, EStateM.bind, hwrite, hrest]⟩

theorem commit_error (wf : scope.WellFormed) {planned : Plan}
    (hwrites : (∃ write, planned.writes = [write] ∧ Whole write) ∨
      ∀ write ∈ planned.writes, Fits scope write)
    {e : EvalError} {after : MemoryScope} (h : commit planned scope = .error e after) :
    after = scope := by
  simp only [commit, bind, EStateM.bind] at h
  rcases hwrites with ⟨write, hone, whole⟩ | hfits
  · rw [hone] at h
    have hforM : [write].forM Write.apply scope =
        (Write.apply write >>= fun _ => pure ()) scope := rfl
    rw [hforM] at h
    simp only [bind, EStateM.bind] at h
    cases hwrite : Write.apply write scope with
    | ok result middle => simp [hwrite, pure, EStateM.pure] at h
    | error e' middle =>
      simp only [hwrite] at h
      cases h
      exact apply_whole_error whole hwrite
  · obtain ⟨middle, hall⟩ := forM_apply_fits wf hfits
    rw [hall] at h
    cases h

theorem process_error_unchanged (reachable : scope.Reachable) (maxDepth : Nat) (statement : Tree)
    {e : EvalError} {after : MemoryScope}
    (failed : process maxDepth statement scope = .error e after) : after = scope := by
  have wf := reachable.wellFormed
  unfold process at failed
  split at failed
  · rename_i planned hplan
    exact commit_error wf (plan_writes wf hplan) failed
  · cases failed
    rfl

def twoPoints : MemoryScope := (MemoryScope.empty.install ⟨"A", #[1, 2], defaultSentinel⟩).2

/-- Both targets are new, and only the first point needs the value that is nested too deep. -/
def halfTooDeep : Tree :=
  .branched ⟨⟨.variable "A", .gt, .number "1" 1⟩, []⟩ (.variable "X") (.leaf (.variable "A"))
    (.variable "Y") (.call (.builtin .abs) [.call (.builtin .abs) [.leaf (.variable "A")]])

theorem halfTooDeep_unchanged :
    twoPoints.Reachable ∧
      ∃ after, process 2 halfTooDeep twoPoints = .error (.stackOverflow 2 2) after ∧
        after = twoPoints := by
  have added : MemoryScope.empty.addField ⟨"A", #[1, 2], defaultSentinel⟩ =
      .ok (0, twoPoints) := by
    with_unfolding_all rfl
  have reachable : twoPoints.Reachable := .addField (.start _ _) added
  have failed : process 2 halfTooDeep twoPoints = .error (.stackOverflow 2 2) twoPoints := by
    with_unfolding_all rfl
  exact ⟨reachable, _, failed, process_error_unchanged reachable 2 halfTooDeep failed⟩

end FieldScript.Statement
