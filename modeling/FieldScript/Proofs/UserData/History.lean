import FieldScript.Proofs.UserData.Storing
import Mathlib.Data.List.DropRight
import Mathlib.Data.List.Induction
import Mathlib.Data.String.Basic

/-! What a store of user data holds after a row of requests. A name is bound by the first request that
offers data of the store's kind for it since the store was last cleared; later offers are refused, and
only edits in an owning store change what it is bound to. -/
namespace FieldScript

inductive DataRequest where
  /-- Data for the store to own, or data of another owner for it to borrow. -/
  | store (kind : Ownership) (name : String) (data : UserData)
  | edit (name : String) (change : UserData → UserData)
  | clear

namespace DataRequest

def isClear : DataRequest → Bool
  | clear => true
  | _ => false

def offer? (ownership : Ownership) (name : String) : DataRequest → Option UserData
  | store kind given data => if kind = ownership ∧ given = name then some data else none
  | _ => none

/-- What the request makes of the data behind this name. Data of another owner is not changed. -/
def edited (ownership : Ownership) (name : String) (data : UserData) : DataRequest → UserData
  | edit given change => if ownership = .owning ∧ given = name then change data else data
  | _ => data

end DataRequest

namespace UserDataStore

variable {userData after : UserDataStore} {ownership : Ownership} {name : String} {data : UserData}

def perform (userData : UserDataStore) : DataRequest → Except EvalError UserDataStore
  | .store kind name data => userData.storeAs kind name data
  | .edit name change => .ok ((userData.modify? name change).getD userData)
  | .clear => .ok userData.clear

def next (userData : UserDataStore) (request : DataRequest) : UserDataStore :=
  (userData.perform request).toOption.getD userData

def ofHistory (ownership : Ownership) (history : List DataRequest) : UserDataStore :=
  history.foldl next (empty ownership)

def sinceClear (history : List DataRequest) : List DataRequest :=
  history.rtakeWhile fun request => !request.isClear

/-- What a row of requests without a clear binds a name to: the data offered first, with the edits
made later. -/
def boundBy (ownership : Ownership) (name : String) : List DataRequest → Option UserData
  | [] => none
  | request :: later =>
    match request.offer? ownership name with
    | some first => some (later.foldl (DataRequest.edited ownership name) first)
    | none => boundBy ownership name later

theorem next_cases (userData : UserDataStore) (request : DataRequest) :
    userData.next request = userData ∨
      (∃ name data, userData.get? name = none ∧
        userData.next request =
          { userData with entries := userData.entries ++ [(name, data)] }) ∨
      (∃ (name : String) (change : UserData → UserData), userData.next request =
        { userData with entries := userData.entries.map fun entry =>
          if entry.1 = name then (entry.1, change entry.2) else entry }) ∨
      userData.next request = userData.clear := by
  cases request with
  | store kind name data =>
    simp only [next, perform]
    cases hstore : userData.storeAs kind name data with
    | error e => exact .inl rfl
    | ok stored =>
      obtain ⟨_, hfree, rfl⟩ := storeAs_eq_ok hstore
      exact .inr (.inl ⟨name, data, hfree, rfl⟩)
  | edit name change =>
    simp only [next, perform, Except.toOption, Option.getD_some]
    cases hmodify : userData.modify? name change with
    | none => exact .inl rfl
    | some edited =>
      obtain ⟨_, _, rfl⟩ := modify?_eq_some hmodify
      exact .inr (.inr (.inl ⟨name, change, rfl⟩))
  | clear => exact .inr (.inr (.inr rfl))

theorem ownership_next (userData : UserDataStore) (request : DataRequest) :
    (userData.next request).ownership = userData.ownership := by
  rcases userData.next_cases request with h | ⟨_, _, _, h⟩ | ⟨_, _, h⟩ | h <;> rw [h]
  rfl

theorem get?_edit (userData : UserDataStore) (given name : String)
    (change : UserData → UserData) :
    ((userData.modify? given change).getD userData).get? name =
      (userData.get? name).map fun data =>
        DataRequest.edited userData.ownership name data (.edit given change) := by
  cases hmodify : userData.modify? given change with
  | none =>
    rw [Option.getD_none]
    rcases modify?_eq_none_iff.mp hmodify with hborrowing | hfree
    · simp [DataRequest.edited, hborrowing]
    · cases hget : userData.get? name with
      | none => rfl
      | some data =>
        have hne : given ≠ name := by
          rintro rfl
          simp [hfree] at hget
        simp [DataRequest.edited, hne]
  | some edited =>
    obtain ⟨howning, _, rfl⟩ := modify?_eq_some hmodify
    simp only [Option.getD_some, get?, lookup_edit, DataRequest.edited, howning, true_and]

theorem get?_next (userData : UserDataStore) (request : DataRequest) (name : String) :
    (userData.next request).get? name =
      if request.isClear then none
      else match userData.get? name with
        | some data => some (request.edited userData.ownership name data)
        | none => request.offer? userData.ownership name := by
  cases request with
  | store kind given data =>
    simp only [next, perform, DataRequest.isClear, DataRequest.offer?, DataRequest.edited]
    cases hstore : userData.storeAs kind given data with
    | ok stored =>
      obtain ⟨rfl, hfree, rfl⟩ := storeAs_eq_ok hstore
      simp only [Except.toOption, Option.getD_some, get?_append]
      by_cases hname : given = name
      · simp [← hname, hfree]
      · have hlookup : [(given, data)].lookup name = none := by
          simp [Ne.symm hname]
        cases hget : userData.get? name <;> simp [hlookup, hname]
    | error e =>
      simp only [Except.toOption, Option.getD_none]
      cases hget : userData.get? name with
      | some old => rfl
      | none =>
        have hother : ¬(kind = userData.ownership ∧ given = name) := by
          rintro ⟨rfl, rfl⟩
          simp [storeAs_eq, contains, hget] at hstore
        simp [hother]
  | edit given change =>
    simp only [next, perform, Except.toOption, Option.getD_some, get?_edit]
    cases userData.get? name <;> rfl
  | clear => rfl

theorem ofHistory_concat (ownership : Ownership) (history : List DataRequest) (request : DataRequest) :
    ofHistory ownership (history ++ [request]) = (ofHistory ownership history).next request := by
  simp [ofHistory]

theorem ownership_ofHistory (ownership : Ownership) (history : List DataRequest) :
    (ofHistory ownership history).ownership = ownership := by
  induction history using List.reverseRecOn with
  | nil => rfl
  | append_singleton history request ih => rw [ofHistory_concat, ownership_next, ih]

theorem sinceClear_concat (history : List DataRequest) (request : DataRequest) :
    sinceClear (history ++ [request]) =
      if request.isClear then [] else sinceClear history ++ [request] := by
  rw [sinceClear, List.rtakeWhile_concat]
  cases request.isClear <;> rfl

theorem boundBy_concat (requests : List DataRequest) (request : DataRequest) :
    boundBy ownership name (requests ++ [request]) =
      match boundBy ownership name requests with
      | some data => some (request.edited ownership name data)
      | none => request.offer? ownership name := by
  induction requests with
  | nil =>
    simp only [List.nil_append, boundBy]
    cases request.offer? ownership name <;> rfl
  | cons first later ih =>
    simp only [List.cons_append, boundBy]
    cases first.offer? ownership name with
    | some data => simp
    | none => exact ih

theorem get?_ofHistory (ownership : Ownership) (history : List DataRequest) (name : String) :
    (ofHistory ownership history).get? name = boundBy ownership name (sinceClear history) := by
  induction history using List.reverseRecOn with
  | nil => rfl
  | append_singleton history request ih =>
    rw [ofHistory_concat, get?_next, sinceClear_concat, ownership_ofHistory, ih]
    cases request.isClear with
    | true => rfl
    | false => exact (boundBy_concat _ request).symm

theorem isSome_boundBy_iff {requests : List DataRequest} :
    (boundBy ownership name requests).isSome = true ↔
      ∃ request ∈ requests, (request.offer? ownership name).isSome = true := by
  induction requests with
  | nil => simp [boundBy]
  | cons request later ih =>
    cases hoffer : request.offer? ownership name <;> simp [boundBy, hoffer, ih]

theorem boundBy_borrowing (name : String) (requests : List DataRequest) :
    boundBy .borrowing name requests = requests.findSome? (DataRequest.offer? .borrowing name) := by
  have hkept (data : UserData) (request : DataRequest) :
      request.edited .borrowing name data = data := by
    cases request <;> simp [DataRequest.edited]
  induction requests with
  | nil => rfl
  | cons request later ih =>
    simp only [boundBy, List.findSome?_cons, ih]
    cases request.offer? .borrowing name with
    | none => rfl
    | some first => simp only [List.foldl_fixed' (hkept first)]

theorem nodup_next (distinct : (userData.entries.map (·.1)).Nodup) (request : DataRequest) :
    ((userData.next request).entries.map (·.1)).Nodup := by
  rcases userData.next_cases request with h | ⟨name, data, hfree, h⟩ | ⟨name, change, h⟩ | h <;>
    rw [h]
  · exact distinct
  · have hname : name ∉ userData.entries.map (·.1) := by
      rw [← contains_iff, contains, hfree]
      exact Bool.false_ne_true
    rw [List.map_append]
    exact (List.perm_append_singleton _ _).nodup_iff.mpr (List.nodup_cons.mpr ⟨hname, distinct⟩)
  · have hkey (entry : String × UserData) :
        (if entry.1 = name then (entry.1, change entry.2) else entry).1 = entry.1 := by
      split <;> rfl
    simpa only [List.map_map, Function.comp_def, hkey] using distinct
  · exact List.nodup_nil

theorem nodup_ofHistory (ownership : Ownership) (history : List DataRequest) :
    ((ofHistory ownership history).entries.map (·.1)).Nodup := by
  induction history using List.reverseRecOn with
  | nil => exact List.nodup_nil
  | append_singleton history request ih =>
    rw [ofHistory_concat]
    exact nodup_next ih request

theorem mem_names_iff : name ∈ userData.names ↔ userData.contains name = true := by
  rw [names, List.mem_mergeSort, contains_iff]

theorem length_names (userData : UserDataStore) : userData.names.length = userData.size := by
  rw [names, List.length_mergeSort, List.length_map, size]

theorem increasing_names (distinct : (userData.entries.map (·.1)).Nodup) :
    userData.names.Pairwise (· < ·) := by
  have hsorted : userData.names.Pairwise (· ≤ ·) := by
    refine (List.pairwise_mergeSort ?_ ?_ _).imp (by simp)
    · intro a b c
      simpa using le_trans
    · intro a b
      simpa using le_total a b
  have hdistinct : userData.names.Nodup := (List.mergeSort_perm _ _).nodup_iff.mpr distinct
  exact (hsorted.and hdistinct).imp fun h => lt_of_le_of_ne h.1 h.2

end UserDataStore

end FieldScript
