import FieldScript.Host
import FieldScript.Proofs.Outcome

/-! Names resolved ahead of a loop. Resolving succeeds exactly if every name has a field, and what
is then found through the handles is what a look-up by name finds. -/
namespace FieldScript

namespace Handles

theorem lookup_filter_ne {entries : List (String × Nat)} {name other : String} (h : other ≠ name) :
    (entries.filter fun entry => entry.1 != name).lookup other = entries.lookup other := by
  induction entries with
  | nil => rfl
  | cons entry entries ih =>
    obtain ⟨key, id⟩ := entry
    by_cases hkey : key = name
    · have hother : (other == key) = false := by simpa [hkey] using h
      simp [hkey, ih, List.lookup_cons, hkey ▸ hother]
    · simp [hkey, ih, List.lookup_cons]

theorem get?_insert (handles : Handles) (name other : String) (id : Nat) :
    (handles.insert name id).get? other = if other = name then some id else handles.get? other := by
  by_cases h : other = name
  · simp [insert, get?, h]
  · have hbeq : (other == name) = false := by simpa using h
    simp only [insert, get?, List.lookup_cons, hbeq, lookup_filter_ne h, if_neg h]

end Handles

namespace Host

variable {σ : Type} [Host σ] {scope : σ}

/-- The handles are those that the scope gives now. -/
def Agrees (scope : σ) (handles : Handles) : Prop :=
  ∀ name id, handles.get? name = some id → fieldId? scope name = some id

theorem agrees_empty (scope : σ) : Agrees scope .empty := by
  intro name id h
  cases h

theorem Agrees.insert {handles : Handles} (h : Agrees scope handles) {name : String} {id : Nat}
    (hid : fieldId? scope name = some id) : Agrees scope (handles.insert name id) := by
  intro other id' hget
  rw [Handles.get?_insert] at hget
  split at hget
  · rename_i heq
    cases hget
    rwa [heq]
  · exact h other id' hget

theorem lookup_eq_named? {handles : Handles} {name : String}
    (h : ∀ id, handles.get? name = some id → fieldId? scope name = some id) :
    lookup scope handles name = named? scope name := by
  unfold lookup
  cases hget : handles.get? name with
  | none => rfl
  | some id => simp [named?, h id hget]

theorem Agrees.lookup_eq {handles : Handles} (h : Agrees scope handles) :
    lookup scope handles = named? scope :=
  funext fun name => lookup_eq_named? (h name)

def resolveNext (scope : σ) (handles : Handles) (name : String) : Except EvalError Handles :=
  match fieldId? scope name with
  | some id => .ok (handles.insert name id)
  | none => .error (.unresolvedName name)

theorem resolveNext_eq_ok {handles next : Handles} {name : String} :
    resolveNext scope handles name = .ok next ↔
      ∃ id, fieldId? scope name = some id ∧ handles.insert name id = next := by
  unfold resolveNext
  cases fieldId? scope name <;> simp

theorem foldlM_resolveNext {names : List String} {handles resolved : Handles}
    (h : Agrees scope handles) (hresolved : names.foldlM (resolveNext scope) handles = .ok resolved) :
    Agrees scope resolved ∧ ∀ name ∈ names, (fieldId? scope name).isSome = true := by
  induction names generalizing handles with
  | nil =>
    cases hresolved
    exact ⟨h, fun _ hname => absurd hname List.not_mem_nil⟩
  | cons name names ih =>
    rw [List.foldlM_cons] at hresolved
    obtain ⟨next, hnext, hrest⟩ := Outcome.bind_eq_ok.mp hresolved
    obtain ⟨id, hid, rfl⟩ := resolveNext_eq_ok.mp hnext
    obtain ⟨hagrees, hnames⟩ := ih (h.insert hid) hrest
    exact ⟨hagrees, List.forall_mem_cons.mpr ⟨Option.isSome_of_eq_some hid, hnames⟩⟩

theorem exists_foldlM_resolveNext {names : List String}
    (h : ∀ name ∈ names, (fieldId? scope name).isSome = true) (handles : Handles) :
    ∃ resolved, names.foldlM (resolveNext scope) handles = .ok resolved := by
  induction names generalizing handles with
  | nil => exact ⟨handles, rfl⟩
  | cons name names ih =>
    obtain ⟨hname, hnames⟩ := List.forall_mem_cons.mp h
    obtain ⟨id, hid⟩ := Option.isSome_iff_exists.mp hname
    obtain ⟨resolved, hresolved⟩ := ih hnames (handles.insert name id)
    refine ⟨resolved, ?_⟩
    rw [List.foldlM_cons]
    exact Outcome.bind_eq_ok.mpr ⟨_, resolveNext_eq_ok.mpr ⟨id, hid, rfl⟩, hresolved⟩

theorem exists_resolve_iff {names : List String} :
    (∃ handles, resolve scope names = .ok handles) ↔
      ∀ name ∈ names, (fieldId? scope name).isSome = true := by
  constructor
  · rintro ⟨handles, h⟩
    exact (foldlM_resolveNext (agrees_empty scope) h).2
  · intro h
    exact exists_foldlM_resolveNext h .empty

def requireFields (scope : σ) (names : List String) : Except EvalError Unit :=
  names.forM fun name =>
    if (fieldId? scope name).isSome then .ok () else .error (.unresolvedName name)

theorem requireFields_eq_ok {names : List String} :
    requireFields scope names = .ok () ↔ ∀ name ∈ names, (fieldId? scope name).isSome = true := by
  constructor
  · intro h name hname
    exact (Outcome.ite_eq_ok.mp (Outcome.of_forM_eq_ok h name hname)).1
  · intro h
    exact Outcome.forM_eq_ok fun name hname => Outcome.ite_eq_ok.mpr ⟨h name hname, rfl⟩

theorem map_foldlM_resolveNext (names : List String) (handles : Handles) :
    (names.foldlM (resolveNext scope) handles).map (fun _ => ()) = requireFields scope names := by
  induction names generalizing handles with
  | nil => rfl
  | cons name names ih =>
    have hcons : requireFields scope (name :: names) =
        (if (fieldId? scope name).isSome then .ok () else .error (.unresolvedName name)) >>=
          fun _ => requireFields scope names := rfl
    rw [List.foldlM_cons, hcons, resolveNext]
    cases fieldId? scope name with
    | none => rfl
    | some id => exact ih (handles.insert name id)

/-- A step that makes the same of all the handles that may be resolved needs only that there are
some. -/
theorem resolve_bind {α : Type} {names : List String} {next : Handles → Except EvalError α}
    {result : Except EvalError α}
    (h : ∀ handles, resolve scope names = .ok handles → next handles = result) :
    (resolve scope names >>= next) = requireFields scope names >>= fun _ => result := by
  have hmap : (resolve scope names).map (fun _ => ()) = requireFields scope names :=
    map_foldlM_resolveNext names .empty
  rw [← hmap]
  cases hresolve : resolve scope names with
  | error e => rfl
  | ok handles => exact h handles hresolve

theorem agrees_of_resolve {names : List String} {handles : Handles}
    (h : resolve scope names = .ok handles) : Agrees scope handles :=
  (foldlM_resolveNext (agrees_empty scope) h).1

theorem lookup_of_resolve {names : List String} {handles : Handles}
    (h : resolve scope names = .ok handles) : lookup scope handles = named? scope :=
  (agrees_of_resolve h).lookup_eq

end Host

end FieldScript
