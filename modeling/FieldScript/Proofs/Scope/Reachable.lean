import FieldScript.Proofs.Scope.Writing

/-! The scopes in memory that can come about: an empty one, and what adding and creating fields,
writing to fields, storing user data and processing statements make of it. Every step keeps the
invariant, so it holds of all of them. -/
namespace FieldScript.MemoryScope

open Statement

inductive Reachable : MemoryScope → Prop
  | start (userData : UserDataStore) (registry : Registry) :
      Reachable ⟨⟨#[], userData⟩, registry⟩
  | addField {scope after : MemoryScope} {field : Field} {id : Nat} (reachable : Reachable scope)
      (added : scope.addField field = .ok (id, after)) : Reachable after
  | createField {scope after : MemoryScope} {name : String} {id : Nat}
      (reachable : Reachable scope) (created : scope.create? name = some (id, after)) :
      Reachable after
  /-- A host writes through a handle; it cannot rename or resize a field. -/
  | writeField {scope : MemoryScope} {id : Nat} {field written : Field}
      (reachable : Reachable scope) (stored : scope.fields[id]? = some field)
      (shape : field.SameShape written) : Reachable (Host.putField id written scope)
  | setUserData {scope : MemoryScope} (reachable : Reachable scope) (userData : UserDataStore) :
      Reachable (scope.setUserData userData)
  | setRegistry {scope : MemoryScope} (reachable : Reachable scope) (registry : Registry) :
      Reachable { scope with registry }
  | process {scope : MemoryScope} (reachable : Reachable scope) (maxDepth : Nat)
      (statement : Tree) : Reachable (Update.after (Statement.process maxDepth statement) scope)

variable {scope : MemoryScope}

theorem WellFormed.install (wf : scope.WellFormed) {field : Field}
    (fresh : scope.store.fieldId? field.name = none)
    (fits : ∀ first, scope.fields[0]? = some first → first.size = field.size) :
    (scope.install field).2.WellFormed := by
  have hcount : scope.fields = #[] ∨ field.size = scope.pointCount := by
    cases hfirst : scope.fields[0]? with
    | none => exact .inl (by simpa using hfirst)
    | some first => exact .inr (by simp [pointCount, hfirst, fits first hfirst])
  have hpush : (scope.install field).2.pointCount = field.size := by
    rcases hcount with hempty | hsize
    · simp [MemoryScope.install, pointCount, hempty]
    · cases hfirst : scope.fields[0]? with
      | none => simp_all [MemoryScope.install, pointCount]
      | some first =>
        have hget : (scope.install field).2.fields[0]? = some first := by
          have hpos := fields_nonempty_of_getElem? hfirst
          simp only [MemoryScope.install, fields_setFields]
          rw [Array.getElem?_push, if_neg (by omega), hfirst]
        rw [pointCount, hget]
        exact fits first hfirst
  constructor
  · intro i j a b ha hb hab
    simp only [MemoryScope.install, fields_setFields, Array.getElem?_push] at ha hb
    split at ha <;> split at hb
    · omega
    · cases ha
      exact absurd hab.symm (Store.fieldId?_eq_none fresh hb)
    · cases hb
      exact absurd hab (Store.fieldId?_eq_none fresh ha)
    · exact wf.distinct i j a b ha hb hab
  · intro i other hother
    rw [hpush]
    simp only [MemoryScope.install, fields_setFields, Array.getElem?_push] at hother
    split at hother
    · cases hother
      rfl
    · rcases hcount with hempty | hsize
      · simp [hempty] at hother
      · exact (wf.sameSize i other hother).trans hsize.symm

theorem addField_eq_ok {field : Field} {id : Nat} {after : MemoryScope}
    (h : scope.addField field = .ok (id, after)) :
    scope.store.fieldId? field.name = none ∧
      (∀ first, scope.fields[0]? = some first → first.size = field.size) ∧
      scope.install field = (id, after) := by
  unfold MemoryScope.addField at h
  split at h
  · cases h
  · rename_i hfresh
    refine ⟨by simpa using hfresh, ?_⟩
    split at h
    · rename_i first hfirst
      split at h
      · rename_i hsize
        refine ⟨fun other hother => ?_, Except.ok.inj h⟩
        cases hfirst.symm.trans hother
        exact hsize
      · cases h
    · rename_i hnone
      refine ⟨fun first hfirst => ?_, Except.ok.inj h⟩
      cases hnone.symm.trans hfirst

theorem WellFormed.addField (wf : scope.WellFormed) {field : Field} {id : Nat}
    {after : MemoryScope} (h : scope.addField field = .ok (id, after)) : after.WellFormed := by
  obtain ⟨fresh, fits, hinstall⟩ := addField_eq_ok h
  have hafter : after = (scope.install field).2 := by rw [hinstall]
  exact hafter ▸ wf.install fresh fits

theorem WellFormed.create (wf : scope.WellFormed) {name : String} {id : Nat} {after : MemoryScope}
    (h : scope.create? name = some (id, after)) : after.WellFormed := by
  unfold create? at h
  split at h
  · cases h
    exact wf
  · rename_i fresh
    obtain ⟨model, hmodel, hinstall⟩ := Option.map_eq_some_iff.mp h
    obtain ⟨first, hfirst, rfl⟩ := Option.map_eq_some_iff.mp hmodel
    have hafter : after = (scope.install (.absent name first.size first.sentinel)).2 := by
      rw [hinstall]
    rw [hafter]
    exact wf.install fresh fun other hother => by
      rw [hfirst] at hother
      cases hother
      simp [Field.absent, Field.size]

theorem WellFormed.writeField (wf : scope.WellFormed) {id : Nat} {field written : Field}
    (stored : scope.fields[id]? = some field) (shape : field.SameShape written) :
    (Host.putField id written scope : MemoryScope).WellFormed := by
  have hid := wf.fieldId?_eq_some_iff.mpr ⟨field, stored, rfl⟩
  have hstored := wf.field?_eq_some_iff.mpr ⟨id, stored, rfl⟩
  have htarget : scope.target? field.name = some field := by simp [target?, hstored]
  have hput : (Host.putField id written scope : MemoryScope) =
      scope.replace field.name written := by
    simp only [MemoryScope.replace, hid]
    rfl
  rw [hput]
  exact wf.replace htarget shape

theorem WellFormed.apply (wf : scope.WellFormed) (write : Write) :
    (Update.after (Write.apply write) scope).WellFormed := by
  cases write with
  | fill target value =>
    exact wf.updateOutput target (Update.keepsShape_modify fun field => field.sameShape_fill value)
  | clear target =>
    exact wf.updateOutput target
      (Update.keepsShape_modify fun field => field.sameShape_fill field.sentinel)
  | values target values =>
    have hwrite := wf.updateOutput target (Field.keepsShape_commit values)
    unfold Update.after at hwrite ⊢
    simp only [Write.apply]
    cases Host.named? scope target with
    | none => exact hwrite
    | some field =>
      by_cases hsize : field.size = values.length
      · simpa only [hsize, if_true] using hwrite
      · simpa only [hsize, if_false] using wf
  | data target data =>
    simp only [Update.after, Write.apply, Host.storeUserData]
    cases scope.store.userData.store target data with
    | ok userData => exact wellFormed_of_fields_eq (fields_setUserData scope userData) wf
    | error e => exact wf

theorem WellFormed.forM_apply (wf : scope.WellFormed) (writes : List Write) :
    (Update.after (writes.forM Write.apply) scope).WellFormed := by
  induction writes generalizing scope with
  | nil => exact wf
  | cons write rest ih =>
    have hcons : (write :: rest).forM Write.apply scope =
        (Write.apply write >>= fun _ => rest.forM Write.apply) scope := rfl
    have hwrite := wf.apply write
    unfold Update.after at hwrite ih ⊢
    rw [hcons]
    simp only [bind, EStateM.bind]
    cases happly : Write.apply write scope with
    | ok result middle =>
      simp only [happly] at hwrite
      exact ih hwrite
    | error e middle => simpa only [happly] using hwrite

theorem WellFormed.process (wf : scope.WellFormed) (maxDepth : Nat) (statement : Tree) :
    (Update.after (Statement.process maxDepth statement) scope).WellFormed := by
  have hcommit (planned : Plan) : (Update.after (commit planned) scope).WellFormed := by
    have hwrites := wf.forM_apply planned.writes
    unfold Update.after at hwrites ⊢
    simp only [commit, bind, EStateM.bind]
    cases hforM : planned.writes.forM Write.apply scope with
    | ok result after =>
      simp only [hforM] at hwrites
      exact hwrites
    | error e after =>
      simp only [hforM] at hwrites
      exact hwrites
  unfold Update.after Statement.process
  cases plan scope maxDepth statement with
  | ok planned => exact hcommit planned
  | error e => exact wf

theorem Reachable.wellFormed (reachable : scope.Reachable) : scope.WellFormed := by
  induction reachable with
  | start userData registry => exact wellFormed_of_no_fields rfl
  | addField _ added ih => exact ih.addField added
  | createField _ created ih => exact ih.create created
  | writeField _ stored shape ih => exact ih.writeField stored shape
  | setUserData _ userData ih => exact wellFormed_of_fields_eq (fields_setUserData _ userData) ih
  | @setRegistry scope _ registry ih =>
    have hfields : ({ scope with registry } : MemoryScope).fields = scope.fields := rfl
    exact wellFormed_of_fields_eq hfields ih
  | process _ maxDepth statement ih => exact ih.process maxDepth statement

end FieldScript.MemoryScope
