import FieldScript.Proofs.Outcome
import FieldScript.Proofs.Scope.Writing

/-! What a plan promises. A statement that is planned against a well-formed scope ends in one write
that is refused as a whole or made as a whole, or in writes of values that cannot fail. -/
namespace FieldScript.Statement

open Outcome

/-- A write of one value for each point, to a name that can be written. -/
def Fits (scope : MemoryScope) : Write → Prop
  | .values _ values => values.length = scope.pointCount ∧ 0 < scope.fields.size
  | _ => False

variable {scope : MemoryScope}

theorem size_lookup (wf : scope.WellFormed) {handles : Handles} {name : String} {field : Field}
    (h : Host.lookup scope handles name = some field) : field.size = scope.pointCount := by
  unfold Host.lookup at h
  cases hid : handles.get? name with
  | some id =>
    rw [hid] at h
    exact wf.sameSize id field h
  | none =>
    rw [hid] at h
    exact wf.size_named h

theorem nonempty_of_checkOutput {name : String} (h : checkOutput scope name = .ok ()) :
    0 < scope.fields.size := by
  unfold checkOutput at h
  rcases Bool.or_eq_true_iff.mp (ite_eq_ok.mp h).1 with hid | hmodel
  · exact MemoryScope.fields_nonempty_of_fieldId? hid
  · exact MemoryScope.fields_nonempty_of_model hmodel

theorem scratch_fits (wf : scope.WellFormed) {target : String} {field : Field}
    (h : scratch scope target = .ok field) :
    field.size = scope.pointCount ∧ 0 < scope.fields.size := by
  unfold scratch at h
  cases hstored : Host.named? scope target with
  | some stored =>
    rw [hstored] at h
    cases h
    obtain ⟨id, _, hget⟩ := Store.field?_eq_some hstored
    exact ⟨wf.size_named hstored, MemoryScope.fields_nonempty_of_getElem? hget⟩
  | none =>
    rw [hstored] at h
    cases hmodel : Host.example? scope target with
    | none => simp [hmodel] at h
    | some model =>
      simp only [hmodel, Except.ok.injEq] at h
      subst h
      exact ⟨MemoryScope.size_model hmodel,
        MemoryScope.fields_nonempty_of_model (Option.isSome_of_eq_some hmodel)⟩

theorem keepsShape_fillField (registry : Registry) (store : Store) (keyword : String)
    (args : List Tree) : (registry.fillField store keyword args).KeepsShape := by
  unfold Registry.fillField
  split
  · rename_i function _
    exact function.keepsShape store args
  · exact Update.keepsShape_throw _

theorem length_evaluateAll {maxDepth : Nat} {tree : Tree} {values : List (Option Binary64)}
    (h : evaluateAll scope maxDepth tree = .ok values) : values.length = scope.pointCount := by
  unfold evaluateAll at h
  simp only [bind_eq_ok] at h
  obtain ⟨_, _, handles, _, hvalues⟩ := h
  exact (length_of_mapM hvalues).trans List.length_range

theorem length_seed (wf : scope.WellFormed) (target : String) :
    (seed scope target).length = scope.pointCount := by
  unfold seed
  cases hstored : Host.named? scope target with
  | some field =>
    exact (Field.length_readings field).trans (wf.size_named hstored)
  | none => exact List.length_replicate

@[simp] theorem length_overlay (target : String) (olds : List (Option Binary64))
    (choices : List (Option (String × Option Binary64))) :
    (overlay target olds choices).length = olds.length := by
  induction olds generalizing choices with
  | nil => rfl
  | cons old olds ih =>
    cases choices with
    | nil => rfl
    | cons choice choices => simp [overlay, ih]

theorem fits_planCopy (wf : scope.WellFormed) {target source : String} {plan : Plan}
    (h : planCopy scope target source = .ok plan) : ∀ write ∈ plan.writes, Fits scope write := by
  unfold planCopy at h
  simp only [bind_eq_ok] at h
  obtain ⟨handles, _, h⟩ := h
  split at h
  · cases h
    simp
  · cases hsource : Host.lookup scope handles source with
    | none => simp [hsource] at h
    | some field =>
      simp only [hsource, bind_eq_ok] at h
      obtain ⟨⟨⟩, hcheck, h⟩ := h
      cases h
      simpa [Fits] using ⟨size_lookup wf hsource, nonempty_of_checkOutput hcheck⟩

theorem planUserCall_writes (wf : scope.WellFormed) {target keyword : String} {args : List Tree}
    {plan : Plan} (h : planUserCall scope target keyword args = .ok plan) :
    (∃ data, plan.writes = [.data target data]) ∨ ∀ write ∈ plan.writes, Fits scope write := by
  unfold planUserCall at h
  simp only [bind_eq_ok] at h
  obtain ⟨⟨⟩, _, h⟩ := h
  split at h
  · simp only [bind_eq_ok] at h
    obtain ⟨data, _, h⟩ := h
    cases h
    exact .inl ⟨data, rfl⟩
  · simp only [bind_eq_ok] at h
    obtain ⟨field, hscratch, h⟩ := h
    obtain ⟨hsize, hnonempty⟩ := scratch_fits wf hscratch
    cases hrun : Host.fillField scope keyword args field with
    | error e written => simp [hrun] at h
    | ok result written =>
      simp only [hrun] at h
      cases h
      have shape := (keepsShape_fillField scope.registry scope.store keyword args).of_ok hrun
      right
      simpa [Fits] using ⟨shape.size.trans hsize, hnonempty⟩

theorem fits_planConditional (wf : scope.WellFormed) {maxDepth : Nat} {statement : Tree}
    {test : TestChain} {first : String × Tree} {rest : List (String × Tree)} {plan : Plan}
    (h : planConditional scope maxDepth statement test (first :: rest) = .ok plan) :
    ∀ write ∈ plan.writes, Fits scope write := by
  unfold planConditional at h
  simp only [bind_eq_ok, forM_cons_eq_ok] at h
  obtain ⟨_, ⟨⟨_, _, hcheck⟩, _⟩, handles, _, choices, _, h⟩ := h
  cases h
  intro write hwrite
  obtain ⟨target, _, rfl⟩ := List.mem_map.mp hwrite
  exact ⟨by simp [length_seed wf], nonempty_of_checkOutput hcheck⟩

end FieldScript.Statement
