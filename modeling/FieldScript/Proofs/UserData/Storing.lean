import FieldScript.UserData

/-! One change to a store of user data. Data of the store's own kind is taken under a free name and
goes to the end; an edit reaches nothing but the data that an owning store has under the name. -/
namespace FieldScript

def Misuse.otherKind : Ownership → String → Misuse
  | .owning, name => .ownedIntoBorrowing name
  | .borrowing, name => .borrowedIntoOwning name

namespace UserDataStore

variable {userData after : UserDataStore} {name : String} {data : UserData}

def storeAs (userData : UserDataStore) : Ownership → String → UserData →
    Except EvalError UserDataStore
  | .owning => userData.store
  | .borrowing => userData.storeBorrowed

theorem storeAs_eq (userData : UserDataStore) (kind : Ownership) (name : String)
    (data : UserData) :
    userData.storeAs kind name data =
      if kind ≠ userData.ownership then .error (.misuse (.otherKind kind name))
      else if userData.contains name then .error (.duplicateUserData name)
      else .ok { userData with entries := userData.entries ++ [(name, data)] } := by
  cases kind <;> cases h : userData.ownership <;>
    simp [storeAs, store, storeBorrowed, bind, Misuse.otherKind, h]

theorem storeAs_eq_ok {kind : Ownership} (h : userData.storeAs kind name data = .ok after) :
    kind = userData.ownership ∧ userData.get? name = none ∧
      after = { userData with entries := userData.entries ++ [(name, data)] } := by
  rw [storeAs_eq] at h
  split at h
  · cases h
  · rename_i hkind
    split at h
    · cases h
    · rename_i hfree
      cases h
      exact ⟨by simpa using hkind, by simpa [contains] using hfree, rfl⟩

theorem get?_append (userData : UserDataStore) (added : List (String × UserData)) (name : String) :
    get? { userData with entries := userData.entries ++ added } name =
      (userData.get? name).or (added.lookup name) :=
  List.lookup_append

theorem contains_iff : userData.contains name = true ↔ name ∈ userData.entries.map (·.1) := by
  rw [contains, get?, List.lookup_isSome_iff]
  simp only [beq_iff_eq, List.mem_map]
  exact exists_congr fun entry => and_congr_right fun _ => eq_comm

theorem lookup_edit (entries : List (String × UserData)) (given name : String)
    (change : UserData → UserData) :
    (entries.map fun entry => if entry.1 = given then (entry.1, change entry.2) else entry).lookup
        name =
      (entries.lookup name).map fun data => if given = name then change data else data := by
  induction entries with
  | nil => rfl
  | cons entry entries ih =>
    obtain ⟨key, data⟩ := entry
    by_cases hkey : name = key
    · subst hkey
      by_cases hgiven : name = given
      · simp [hgiven]
      · simp [hgiven, Ne.symm hgiven]
    · by_cases hgiven : key = given
      · simp [List.lookup_cons, hgiven, beq_eq_false_iff_ne.mpr (hgiven ▸ hkey), ih]
      · simp [List.lookup_cons, hgiven, beq_eq_false_iff_ne.mpr hkey, ih]

theorem modify?_eq_some {change : UserData → UserData}
    (h : userData.modify? name change = some after) :
    userData.ownership = .owning ∧ (userData.get? name).isSome = true ∧
      after = { userData with entries := userData.entries.map fun entry =>
        if entry.1 = name then (entry.1, change entry.2) else entry } := by
  unfold modify? at h
  split at h
  · cases h
  · rename_i howning
    split at h
    · rename_i hbound
      cases h
      exact ⟨howning, hbound, rfl⟩
    · cases h

theorem modify?_eq_none_iff {change : UserData → UserData} :
    userData.modify? name change = none ↔
      userData.ownership = .borrowing ∨ userData.get? name = none := by
  unfold modify?
  cases h : userData.ownership with
  | borrowing => simp
  | owning => cases hget : userData.get? name <;> simp [contains, hget]

end UserDataStore

end FieldScript
