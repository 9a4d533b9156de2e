import FieldScript.Proofs.Host.Resolving
import FieldScript.Proofs.Scope.Frame
import FieldScript.Proofs.Statement.Atomicity
import FieldScript.Proofs.Tree.Names
import FieldScript.Proofs.UserData.Storing

/-! What a statement that succeeds has changed. It reports its outputs, and either those fields are
all it wrote, or it only stored the user data that a host function computed. -/
namespace FieldScript

namespace Statement

open Outcome MemoryScope

section Plans

variable {σ : Type} [Host σ] {scope : σ}

/-- What a plan writes: every output once, nothing where a field is copied onto itself, or the user
data that a host function computed. -/
inductive Planned (scope : σ) (statement : Tree) : Plan → Prop
  | fields (writes : List Write) (steps : ∀ write ∈ writes, write.step?.isSome = true)
      (targets : writes.map Write.target = statement.outputs) :
      Planned scope statement ⟨writes, .fields statement.outputs⟩
  | nothing (stored : ∀ name ∈ statement.outputs, (Host.fieldId? scope name).isSome = true) :
      Planned scope statement ⟨[], .fields statement.outputs⟩
  | data (target : Leaf) (keyword : String) (args : List Tree) (data : UserData)
      (call : statement = .assign target (.call (.user keyword) args))
      (computed : Host.computeData scope keyword args = .ok data) :
      Planned scope statement ⟨[.data target.targetName data], .userData target.targetName⟩

theorem outputs_assign (target : Leaf) (value : Tree) :
    (Tree.assign target value).outputs = [target.targetName] := by
  simp [Tree.outputs, Tree.branches, mention]

theorem Planned.single {target : Leaf} {value : Tree} {write : Write}
    (step : write.step?.isSome = true) (htarget : write.target = target.targetName) :
    Planned scope (.assign target value) ⟨[write], .fields [target.targetName]⟩ := by
  have hplanned : Planned scope (.assign target value)
      ⟨[write], .fields (Tree.assign target value).outputs⟩ :=
    .fields [write] (by simpa using step) (by simp [outputs_assign, htarget])
  rwa [outputs_assign] at hplanned

theorem planned_copy {target : Leaf} {source : String} {planned : Plan}
    (h : planCopy scope target.targetName source = .ok planned) :
    Planned scope (.assign target (.leaf (.variable source))) planned := by
  unfold planCopy at h
  obtain ⟨handles, hresolve, h⟩ := bind_eq_ok.mp h
  split at h
  · rename_i hself
    cases h
    have hstored := Host.exists_resolve_iff.mp ⟨handles, hresolve⟩
    have hplanned : Planned scope (.assign target (.leaf (.variable source)))
        ⟨[], .fields (Tree.assign target (.leaf (.variable source))).outputs⟩ :=
      .nothing (by rwa [outputs_assign, ← hself])
    rwa [outputs_assign] at hplanned
  · cases hsource : Host.lookup scope handles source with
    | none => simp [hsource] at h
    | some field =>
      simp only [hsource, bind_eq_ok] at h
      obtain ⟨_, _, h⟩ := h
      cases h
      exact Planned.single rfl rfl

theorem planned_userCall {target : Leaf} {keyword : String} {args : List Tree} {planned : Plan}
    (h : planUserCall scope target.targetName keyword args = .ok planned) :
    Planned scope (.assign target (.call (.user keyword) args)) planned := by
  unfold planUserCall at h
  obtain ⟨_, _, h⟩ := bind_eq_ok.mp h
  split at h
  · obtain ⟨data, hdata, h⟩ := bind_eq_ok.mp h
    cases h
    exact .data target keyword args data rfl hdata
  · obtain ⟨field, _, h⟩ := bind_eq_ok.mp h
    split at h
    · cases h
      exact Planned.single rfl rfl
    · cases h

theorem planned_assign {maxDepth : Nat} {target : Leaf} {value : Tree} {planned : Plan}
    (h : planAssign scope maxDepth target.targetName value = .ok planned) :
    Planned scope (.assign target value) planned := by
  unfold planAssign at h
  split at h
  · cases h
    exact Planned.single rfl rfl
  · cases h
    exact Planned.single rfl rfl
  · exact planned_copy h
  · exact planned_userCall h
  · simp only [bind_eq_ok] at h
    obtain ⟨_, _, values, _, h⟩ := h
    cases h
    exact Planned.single rfl rfl

theorem planned_conditional {maxDepth : Nat} {statement : Tree} {test : TestChain}
    {branches : List (String × Tree)} {planned : Plan}
    (h : planConditional scope maxDepth statement test branches = .ok planned) :
    Planned scope statement planned := by
  unfold planConditional at h
  simp only [bind_eq_ok] at h
  obtain ⟨_, _, handles, _, choices, _, h⟩ := h
  cases h
  refine .fields _ ?_ ?_
  · intro write hwrite
    obtain ⟨target, _, rfl⟩ := List.mem_map.mp hwrite
    rfl
  · simp [Write.target, Function.comp_def]

theorem planned_of_plan {maxDepth : Nat} {statement : Tree} {planned : Plan}
    (h : plan scope maxDepth statement = .ok planned) : Planned scope statement planned := by
  cases statement with
  | assign target value => exact planned_assign h
  | guarded test target value => exact planned_conditional h
  | branched test target value target' value' => exact planned_conditional h
  | _ => cases h

theorem process_eq_ok {maxDepth : Nat} {statement : Tree} {produced : Produced} {after : σ} :
    process maxDepth statement scope = .ok produced after ↔ ∃ planned,
      plan scope maxDepth statement = .ok planned ∧
        planned.writes.forM Write.apply scope = .ok () after ∧ planned.produced = produced := by
  unfold process
  cases plan scope maxDepth statement with
  | error e => simp
  | ok planned =>
    simp only [commit, bind, EStateM.bind, Except.ok.injEq, exists_eq_left']
    cases planned.writes.forM Write.apply scope with
    | ok result middle => simp [pure, EStateM.pure, and_comm]
    | error e middle => simp

end Plans

variable {scope after : MemoryScope}

theorem forM_cons_apply {write : Write} {rest : List Write} :
    (write :: rest).forM Write.apply scope = .ok () after ↔ ∃ middle,
      Write.apply write scope = .ok () middle ∧ rest.forM Write.apply middle = .ok () after := by
  rw [forM_cons]
  simp only [bind, EStateM.bind]
  cases Write.apply write scope <;> simp

theorem updateOutput_eq_ok {name : String} {step : Update Field Unit} :
    updateOutput name step scope = .ok () after ↔ ∃ old new, scope.target? name = some old ∧
      step old = .ok () new ∧ scope.replace name new = after := by
  rw [MemoryScope.updateOutput_eq]
  cases scope.target? name with
  | none => simp
  | some old =>
    simp only [Option.some.injEq, exists_and_left, exists_eq_left']
    cases step old <;> simp

theorem apply_eq_ok {write : Write} {step : Update Field Unit} (hstep : write.step? = some step)
    (h : Write.apply write scope = .ok () after) :
    ∃ old new, scope.target? write.target = some old ∧ step old = .ok () new ∧
      scope.replace write.target new = after := by
  refine updateOutput_eq_ok.mp ?_
  cases write with
  | fill target value =>
    cases hstep
    exact h
  | clear target =>
    cases hstep
    exact h
  | values target values =>
    cases hstep
    simp only [Write.apply] at h
    split at h
    · split at h
      · exact h
      · cases h
    · exact h
  | data target data => cases hstep

theorem frame_apply (wf : scope.WellFormed) {write : Write} (hstep : write.step?.isSome = true)
    (h : Write.apply write scope = .ok () after) : Frame [write.target] scope after := by
  obtain ⟨step, hstep⟩ := Option.isSome_iff_exists.mp hstep
  obtain ⟨old, new, hold, hnew, rfl⟩ := apply_eq_ok hstep h
  exact frame_replace wf hold ((Write.keepsShape_of_step? hstep).of_ok hnew)

theorem wellFormed_of_apply (wf : scope.WellFormed) {write : Write}
    (h : Write.apply write scope = .ok () after) : after.WellFormed := by
  simpa [Update.after, h] using wf.apply write

theorem wellFormed_of_forM_apply (wf : scope.WellFormed) {writes : List Write}
    (h : writes.forM Write.apply scope = .ok () after) : after.WellFormed := by
  simpa [Update.after, h] using wf.forM_apply writes

theorem wellFormed_of_process (wf : scope.WellFormed) {maxDepth : Nat} {statement : Tree}
    {produced : Produced} (h : process maxDepth statement scope = .ok produced after) :
    after.WellFormed := by
  simpa [Update.after, h] using wf.process maxDepth statement

theorem frame_forM_apply (wf : scope.WellFormed) {writes : List Write}
    (steps : ∀ write ∈ writes, write.step?.isSome = true)
    (h : writes.forM Write.apply scope = .ok () after) :
    Frame (writes.map Write.target) scope after := by
  induction writes generalizing scope with
  | nil =>
    cases h
    exact Frame.refl [] _
  | cons write rest ih =>
    obtain ⟨middle, hwrite, hrest⟩ := forM_cons_apply.mp h
    obtain ⟨hstep, hsteps⟩ := List.forall_mem_cons.mp steps
    have first := frame_apply wf hstep hwrite
    have others := ih (wellFormed_of_apply wf hwrite) hsteps hrest
    exact (first.mono (by simp)).trans (others.mono fun _ => List.mem_cons_of_mem _)

/-- Writes to different targets each start from the scope before them all, and what each leaves is
there at the end. -/
theorem forM_apply_stored (wf : scope.WellFormed) {writes : List Write}
    (steps : ∀ write ∈ writes, write.step?.isSome = true)
    (distinct : (writes.map Write.target).Nodup)
    (h : writes.forM Write.apply scope = .ok () after) :
    ∀ write ∈ writes, ∀ step, write.step? = some step → ∃ old new,
      scope.target? write.target = some old ∧ step old = .ok () new ∧
        after.store.field? write.target = some new := by
  induction writes generalizing scope with
  | nil =>
    intro write hwrite
    cases hwrite
  | cons write rest ih =>
    obtain ⟨middle, happly, hrest⟩ := forM_cons_apply.mp h
    obtain ⟨hstep, hsteps⟩ := List.forall_mem_cons.mp steps
    rw [List.map_cons, List.nodup_cons] at distinct
    have wf' := wellFormed_of_apply wf happly
    have frame := frame_apply wf hstep happly
    have others := frame_forM_apply wf' hsteps hrest
    intro other hother step hother?
    rcases List.mem_cons.mp hother with rfl | hmem
    · obtain ⟨old, new, hold, hnew, rfl⟩ := apply_eq_ok hother? happly
      have shape := (Write.keepsShape_of_step? hother?).of_ok hnew
      refine ⟨old, new, hold, hnew, ?_⟩
      rw [others.field?_eq (wellFormed_of_forM_apply wf' hrest) distinct.1]
      exact field?_replace wf hold shape
    · obtain ⟨old, new, hold, hnew, hstored⟩ := ih wf' hsteps distinct.2 hrest other hmem step hother?
      have hne : other.target ∉ [write.target] := fun heq =>
        distinct.1 (List.mem_singleton.mp heq ▸ List.mem_map_of_mem hmem)
      have nonempty : 0 < scope.fields.size := by
        obtain ⟨first, hfirst⟩ := Option.isSome_iff_exists.mp hstep
        obtain ⟨before, _, hbefore, _⟩ := apply_eq_ok hfirst happly
        exact fields_nonempty_of_target hbefore
      exact ⟨old, new, (frame.target?_eq wf' nonempty hne).symm.trans hold, hnew, hstored⟩

inductive Effect (scope : MemoryScope) (statement : Tree) : Produced → MemoryScope → Prop
  | fields {after : MemoryScope} (frame : Frame statement.outputs scope after)
      (stored : ∀ name ∈ statement.outputs, (after.store.fieldId? name).isSome = true) :
      Effect scope statement (.fields statement.outputs) after
  | data (target : Leaf) (keyword : String) (args : List Tree) (data : UserData)
      (call : statement = .assign target (.call (.user keyword) args))
      (computed : Host.computeData scope keyword args = .ok data)
      (fresh : scope.store.userData.get? target.targetName = none) :
      Effect scope statement (.userData target.targetName) (scope.setUserData
        { scope.store.userData with
          entries := scope.store.userData.entries ++ [(target.targetName, data)] })

theorem apply_data_eq_ok {name : String} {data : UserData}
    (h : Write.apply (.data name data) scope = .ok () after) :
    scope.store.userData.ownership = .owning ∧ scope.store.userData.get? name = none ∧
      after = scope.setUserData
        { scope.store.userData with entries := scope.store.userData.entries ++ [(name, data)] } := by
  simp only [Write.apply, Host.storeUserData] at h
  cases hstore : scope.store.userData.store name data with
  | error e => simp [hstore, bind, Except.bind] at h
  | ok stored =>
    have howned : scope.store.userData.storeAs .owning name data = .ok stored := hstore
    obtain ⟨howning, hfree, rfl⟩ := UserDataStore.storeAs_eq_ok howned
    rw [hstore] at h
    cases h
    exact ⟨howning.symm, hfree, rfl⟩

theorem effect_of_process (wf : scope.WellFormed) {maxDepth : Nat} {statement : Tree}
    {produced : Produced} (h : process maxDepth statement scope = .ok produced after) :
    Effect scope statement produced after := by
  obtain ⟨planned, hplan, hwrites, rfl⟩ := process_eq_ok.mp h
  cases planned_of_plan hplan with
  | fields writes steps targets =>
    refine .fields (targets ▸ frame_forM_apply wf steps hwrites) fun name hname => ?_
    have distinct : (writes.map Write.target).Nodup := targets ▸ statement.nodup_outputs
    rw [← targets] at hname
    obtain ⟨write, hwrite, rfl⟩ := List.mem_map.mp hname
    obtain ⟨step, hstep⟩ := Option.isSome_iff_exists.mp (steps write hwrite)
    obtain ⟨_, new, _, _, hnew⟩ := forM_apply_stored wf steps distinct hwrites write hwrite step hstep
    obtain ⟨id, hid, _⟩ := Store.field?_eq_some hnew
    exact Option.isSome_of_eq_some hid
  | nothing stored =>
    cases hwrites
    exact .fields (Frame.refl _ _) stored
  | data target keyword args data call computed =>
    obtain ⟨middle, happly, hrest⟩ := forM_cons_apply.mp hwrites
    cases hrest
    obtain ⟨_, hfree, rfl⟩ := apply_data_eq_ok happly
    exact .data target keyword args data call computed hfree

/-- A statement that succeeds reports its outputs and touches nothing else: other fields stay as
they are under their handles, an output that existed keeps its handle and shape, and new fields are
outputs. Either no user data changed, or no field did and the reported name, free before, is bound
to what the host function gives on the scope before. -/
theorem process_touches_outputs (reachable : scope.Reachable) {maxDepth : Nat} {statement : Tree}
    {produced : Produced} (succeeded : process maxDepth statement scope = .ok produced after) :
    produced.names = statement.outputs ∧
    (∀ name, name ∉ statement.outputs → Host.fieldId? after name = Host.fieldId? scope name ∧
      Host.named? after name = Host.named? scope name) ∧
    (∀ (id : Nat) (field : Field), scope.fields[id]? = some field →
      Host.fieldId? after field.name = some id ∧
        ∃ field', after.fields[id]? = some field' ∧ field.SameShape field') ∧
    (∀ (id : Nat) (field : Field), after.fields[id]? = some field → scope.fields[id]? = none →
      field.name ∈ statement.outputs) ∧
    after.registry = scope.registry ∧
    match produced with
    | .fields _ => after.store.userData = scope.store.userData
    | .userData name => after.fields = scope.fields ∧ ∃ target keyword args data,
        statement = .assign target (.call (.user keyword) args) ∧
        Host.computeData scope keyword args = .ok data ∧
        scope.store.userData.get? name = none ∧
        after.store.userData = { scope.store.userData with
          entries := scope.store.userData.entries ++ [(name, data)] } := by
  have wf := reachable.wellFormed
  have wf' := wellFormed_of_process wf succeeded
  have handle {id : Nat} {field : Field} (h : scope.fields[id]? = some field) :
      scope.store.fieldId? field.name = some id := wf.fieldId?_eq_some_iff.mpr ⟨field, h, rfl⟩
  cases effect_of_process wf succeeded with
  | fields frame stored =>
    refine ⟨rfl, fun name hname => ⟨frame.fieldId?_eq wf' hname, frame.field?_eq wf' hname⟩, ?_,
      frame.created, frame.registry, frame.userData⟩
    intro id field hfield
    obtain ⟨field', hfield', shape, _⟩ := frame.kept id field hfield
    exact ⟨frame.fieldId?_kept wf' (handle hfield), field', hfield', shape⟩
  | data target keyword args data call computed fresh =>
    subst call
    refine ⟨(outputs_assign target _).symm, fun _ _ => ⟨rfl, rfl⟩, ?_, ?_, rfl, rfl, target,
      keyword, args, data, rfl, computed, fresh, rfl⟩
    · intro id field hfield
      exact ⟨handle hfield, field, hfield, Field.SameShape.refl field⟩
    · intro id field hsome hnone
      cases hsome.symm.trans hnone

theorem reachable_twoPoints : twoPoints.Reachable := by
  have added : MemoryScope.empty.addField ⟨"A", #[1, 2], defaultSentinel⟩ =
      .ok (0, twoPoints) := by
    with_unfolding_all rfl
  exact .addField (.start _ _) added

def splitAtOne : Tree :=
  .branched ⟨⟨.variable "A", .gt, .number "1" 1⟩, []⟩ (.variable "A") (.leaf (.number "0" 0))
    (.variable "X") (.leaf (.variable "A"))

theorem splitAtOne_touches_outputs :
    twoPoints.Reachable ∧
      ∃ after, process 1 splitAtOne twoPoints = .ok (.fields ["A", "X"]) after ∧
        ["A", "X"] = splitAtOne.outputs ∧ Host.fieldId? after "A" = some 0 ∧
        after.fields[1]? = some ⟨"X", #[1, defaultSentinel], defaultSentinel⟩ ∧
        "X" ∈ splitAtOne.outputs ∧ Host.named? after "B" = Host.named? twoPoints "B" := by
  let after : MemoryScope :=
    ⟨⟨#[⟨"A", #[1, 0], defaultSentinel⟩, ⟨"X", #[1, defaultSentinel], defaultSentinel⟩],
      .empty .owning⟩, .empty⟩
  have succeeded : process 1 splitAtOne twoPoints = .ok (.fields ["A", "X"]) after := by
    with_unfolding_all rfl
  obtain ⟨names, others, kept, created, _⟩ :=
    process_touches_outputs reachable_twoPoints succeeded
  exact ⟨reachable_twoPoints, after, succeeded, names, (kept 0 _ rfl).1, rfl, created 1 _ rfl rfl,
    (others "B" (by rw [← names]; decide)).2⟩

end Statement

end FieldScript
