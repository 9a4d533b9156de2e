import FieldScript.Proofs.Script.Survivors
import FieldScript.Proofs.Statement.Failing
import FieldScript.Proofs.UserData.History

/-! User data over a run. A statement binds at most the one name that it reports, and only if the name
was free; fields are written beside the user data. So a run only adds to what is bound, and what a name
was bound to first it is bound to at the end. -/
namespace FieldScript

namespace UserDataStore

/-- The store afterwards has these names besides, which were free before. -/
structure Extends (names : List String) (before after : UserDataStore) : Prop where
  ownership : after.ownership = before.ownership
  entries : ∃ added, added.map (·.1) = names ∧ after.entries = before.entries ++ added
  distinct : names.Nodup
  fresh : ∀ name ∈ names, before.get? name = none
  owning : names ≠ [] → before.ownership = .owning

namespace Extends

variable {names more : List String} {before middle after : UserDataStore} {name : String}
  {data : UserData}

theorem refl (userData : UserDataStore) : Extends [] userData userData where
  ownership := rfl
  entries := ⟨[], rfl, (List.append_nil _).symm⟩
  distinct := List.nodup_nil
  fresh := by simp
  owning := by simp

theorem bind (free : before.get? name = none) (owning : before.ownership = .owning)
    (data : UserData) :
    Extends [name] before { before with entries := before.entries ++ [(name, data)] } where
  ownership := rfl
  entries := ⟨[(name, data)], rfl, rfl⟩
  distinct := by simp
  fresh := by simpa using free
  owning _ := owning

theorem get?_eq_some (grown : Extends names before after) (bound : before.get? name = some data) :
    after.get? name = some data := by
  obtain ⟨added, _, hentries⟩ := grown.entries
  have hbound : before.entries.lookup name = some data := bound
  rw [get?, hentries, List.lookup_append, hbound]
  rfl

theorem isSome_get? (grown : Extends names before after) (h : name ∈ names) :
    (after.get? name).isSome = true := by
  obtain ⟨added, rfl, hentries⟩ := grown.entries
  have hmem : name ∈ after.entries.map (·.1) := by
    rw [hentries, List.map_append]
    exact List.mem_append_right _ h
  exact contains_iff.mpr hmem

theorem trans (first : Extends names before middle) (second : Extends more middle after) :
    Extends (names ++ more) before after where
  ownership := second.ownership.trans first.ownership
  entries := by
    obtain ⟨added, hnames, hmiddle⟩ := first.entries
    obtain ⟨added', hmore, hafter⟩ := second.entries
    exact ⟨added ++ added', by rw [List.map_append, hnames, hmore],
      by rw [hafter, hmiddle, List.append_assoc]⟩
  distinct := by
    refine List.nodup_append.mpr ⟨first.distinct, second.distinct, ?_⟩
    rintro name hname _ hmore rfl
    have hbound := first.isSome_get? hname
    rw [second.fresh name hmore] at hbound
    cases hbound
  fresh name h := by
    rcases List.mem_append.mp h with hname | hmore
    · exact first.fresh name hname
    · cases hbound : before.get? name with
      | none => rfl
      | some data =>
        have hkept := first.get?_eq_some hbound
        rw [second.fresh name hmore] at hkept
        cases hkept
  owning h := by
    by_cases hnames : names = []
    · have howning := second.owning (by simpa [hnames] using h)
      rwa [first.ownership] at howning
    · exact first.owning hnames

end Extends

end UserDataStore

open UserDataStore

namespace Statement

variable {scope after : MemoryScope}

def boundNames : Except EvalError Produced → List String
  | .ok (.userData name) => [name]
  | _ => []

theorem userData_replace (scope : MemoryScope) (name : String) (field : Field) :
    (scope.replace name field).store.userData = scope.store.userData := by
  unfold MemoryScope.replace
  cases scope.store.fieldId? name <;> rfl

theorem userData_updateOutput (name : String) (step : Update Field Unit) (scope : MemoryScope) :
    ((updateOutput name step).after scope).store.userData = scope.store.userData := by
  cases htarget : scope.target? name with
  | none => rw [Update.after_of_error (MemoryScope.updateOutput_of_none htarget step)]
  | some old => rw [MemoryScope.after_updateOutput htarget, userData_replace]

theorem userData_forM_apply {writes : List Write}
    (steps : ∀ write ∈ writes, write.step?.isSome = true) (scope : MemoryScope) :
    ((writes.forM Write.apply).after scope).store.userData = scope.store.userData := by
  have hkept : Update.Respects
      (fun a b : MemoryScope => a = b ∧ a.store.userData = scope.store.userData)
      (writes.forM Write.apply) := by
    refine Update.respects_forM fun write hwrite => Write.related_apply (steps write hwrite) ?_ ?_
    · rintro step - a _ ⟨rfl, hsame⟩
      exact ⟨rfl, rfl, (userData_updateOutput write.target step a).trans hsame⟩
    · rintro a _ ⟨rfl, _⟩
      rfl
  exact (hkept scope scope ⟨rfl, rfl⟩).2.2

theorem eq_of_apply_data_error {target : String} {data : UserData} {e : EvalError}
    (h : Write.apply (.data target data) scope = .error e after) : after = scope := by
  simp only [Write.apply] at h
  split at h <;> cases h
  rfl

theorem extends_process (maxDepth : Nat) (statement : Tree) (scope : MemoryScope) :
    Extends (boundNames ((process maxDepth statement).outcome scope)) scope.store.userData
      ((process maxDepth statement).after scope).store.userData := by
  cases hprocess : process maxDepth statement scope with
  | ok produced after =>
    obtain ⟨planned, hplan, hwrites, rfl⟩ := process_eq_ok.mp hprocess
    simp only [Update.outcome, Update.after, hprocess]
    cases planned_of_plan hplan with
    | fields writes steps targets =>
      have hkept := userData_forM_apply steps scope
      simp only [Update.after, hwrites] at hkept
      rw [hkept]
      exact .refl _
    | nothing stored =>
      cases hwrites
      exact .refl _
    | data target keyword args data call computed =>
      obtain ⟨middle, hwrite, hnone⟩ := forM_cons_apply.mp hwrites
      cases hnone
      obtain ⟨howning, hfree, rfl⟩ := apply_data_eq_ok hwrite
      exact .bind hfree howning data
  | error e after =>
    simp only [Update.outcome, Update.after, hprocess]
    have hsame : after.store.userData = scope.store.userData := by
      rcases process_eq_error.mp hprocess with ⟨_, rfl⟩ | ⟨planned, hplan, hwrites⟩
      · rfl
      · cases planned_of_plan hplan with
        | fields writes steps targets =>
          have hkept := userData_forM_apply steps scope
          simpa only [Update.after, hwrites] using hkept
        | nothing stored => cases hwrites
        | data target keyword args data call computed =>
          rcases forM_cons_apply_error.mp hwrites with hwrite | ⟨_, _, hnone⟩
          · rw [eq_of_apply_data_error hwrite]
          · cases hnone
    rw [hsame]
    exact .refl _

end Statement

namespace Script

open Statement

variable {options : RunOptions} {statements : List Tree} {scope after : MemoryScope}
  {report : Report}

def Report.bound (report : Report) : List String :=
  report.entries.flatMap fun entry => boundNames entry.outcome

theorem Runs.extends (h : Runs options statements scope report after) :
    Extends report.bound scope.store.userData after.store.userData := by
  induction h with
  | done scope => exact .refl _
  | stopped statement rest scope =>
    simp only [Report.bound, List.flatMap_cons, List.flatMap_nil, List.append_nil]
    exact extends_process options.maxDepth statement scope
  | next statement scope goes others ih =>
    exact (extends_process options.maxDepth statement scope).trans ih

theorem get?_of_prefix (options : RunOptions) (before rest : List Tree) (scope : MemoryScope)
    {name : String} {data : UserData}
    (bound : (runStatements options before scope).2.store.userData.get? name = some data) :
    (runStatements options (before ++ rest) scope).2.store.userData.get? name = some data := by
  have first := runs_runStatements options before scope
  by_cases goes : ∀ entry ∈ (runStatements options before scope).1.entries,
      entry.stops options = false
  · have second := runs_runStatements options rest (runStatements options before scope).2
    rw [runs_iff.mp (first.append_of_goes second goes)]
    exact second.extends.get?_eq_some bound
  · have stops : ∃ entry ∈ (runStatements options before scope).1.entries,
        entry.stops options = true := by
      simpa using goes
    rw [runs_iff.mp (first.append_of_stops stops rest)]
    exact bound

/-- A name of user data is bound once. Whatever was asked of a store, it takes data exactly if the
kind is its own and nothing of that kind has been offered for the name since it was last cleared, and a
wrong kind is found before a taken name. What is refused changes nothing, a name keeps the data offered
first with the edits made to it, data of another owner is never edited, and the names come sorted, one
for each entry. A run binds names that were free, each of them once, and what was bound before it or at
any point of it stays bound to the same. -/
theorem names_bound_once :
    (∀ (ownership : Ownership) (history : List DataRequest),
      let userData := ofHistory ownership history
      let since := sinceClear history
      (∀ kind name data, userData.storeAs kind name data =
        if kind ≠ ownership then .error (.misuse (.otherKind kind name))
        else if ∃ request ∈ since, (request.offer? ownership name).isSome then
          .error (.duplicateUserData name)
        else .ok (ofHistory ownership (history ++ [.store kind name data]))) ∧
      (∀ request e, userData.perform request = .error e →
        ofHistory ownership (history ++ [request]) = userData) ∧
      (∀ name, userData.get? name = boundBy ownership name since) ∧
      (ownership = .borrowing → ∀ name,
        (∀ change, userData.modify? name change = none) ∧
          userData.get? name = since.findSome? (DataRequest.offer? .borrowing name)) ∧
      (∀ name, name ∈ userData.names ↔ (userData.get? name).isSome = true) ∧
      userData.names.Pairwise (· < ·) ∧ userData.names.length = userData.size) ∧
    ∀ (script : Script) (options : RunOptions) (scope : MemoryScope),
      let run := script.runWith options scope
      Extends run.1.bound scope.store.userData run.2.store.userData ∧
      ∀ before rest, script.statements = before ++ rest → ∀ name data,
        (Script.mk before script.options |>.runWith options scope).2.store.userData.get? name =
            some data →
          run.2.store.userData.get? name = some data := by
  refine ⟨fun ownership history => ?_, fun script options scope => ⟨?_, ?_⟩⟩
  · intro userData since
    have hownership : userData.ownership = ownership := ownership_ofHistory ownership history
    have hget (name : String) : userData.get? name = boundBy ownership name since :=
      get?_ofHistory ownership history name
    have hbound (name : String) : userData.contains name = true ↔
        ∃ request ∈ since, (request.offer? ownership name).isSome = true := by
      rw [contains, hget, isSome_boundBy_iff]
    refine ⟨fun kind name data => ?_, fun request e refused => ?_, hget, ?_,
      fun name => mem_names_iff, increasing_names (nodup_ofHistory ownership history),
      length_names userData⟩
    · rw [ofHistory_concat, next, perform, storeAs_eq]
      simp only [hownership, hbound]
      split
      · rfl
      · split <;> rfl
    · rw [ofHistory_concat, next, refused]
      rfl
    · rintro rfl name
      exact ⟨fun change => modify?_eq_none_iff.mpr (.inl hownership),
        (hget name).trans (boundBy_borrowing name since)⟩
  · exact (runs_runStatements options script.statements scope).extends
  · intro before rest hsplit name data bound
    rw [runWith, hsplit]
    exact get?_of_prefix options before rest scope bound

/-- Two tables offered for one name, the first of them edited before the second is refused. In the
scope with host functions a second call for `T` is refused as well, and `T` is what the first gave. -/
theorem names_bound_once_tables :
    let offers : List DataRequest :=
      [.store .owning "T" (.table [1]), .edit "T" (·.push 2), .store .owning "T" (.table [])]
    let userData := ofHistory .owning offers
    let run := faulty.runWith .default hosted
    (userData.get? "T" = some (.table [1, 2]) ∧
      userData.storeAs .owning "T" (.table []) = .error (.duplicateUserData "T") ∧
      userData.storeAs .borrowing "T" (.table []) = .error (.misuse (.borrowedIntoOwning "T"))) ∧
    faulty.statements = faulty.statements.take 2 ++ faulty.statements.drop 2 ∧
    (Script.mk (faulty.statements.take 2) faulty.options |>.runWith .default
      hosted).2.store.userData.get? "T" = some (.table [1, 2]) ∧
    run.1.bound = ["T"] ∧ run.2.store.userData.get? "T" = some (.table [1, 2]) := by
  intro offers userData run
  obtain ⟨stores, runs⟩ := names_bound_once
  obtain ⟨hstore, -, hget, -⟩ := stores .owning offers
  have hsplit : faulty.statements = faulty.statements.take 2 ++ faulty.statements.drop 2 := rfl
  have hreached : (Script.mk (faulty.statements.take 2) faulty.options |>.runWith .default
      hosted).2.store.userData.get? "T" = some (.table [1, 2]) := by
    with_unfolding_all rfl
  refine ⟨⟨(hget "T").trans rfl, (hstore .owning "T" (.table [])).trans rfl,
    (hstore .borrowing "T" (.table [])).trans rfl⟩, hsplit, hreached, ?_, ?_⟩
  · with_unfolding_all rfl
  · exact (runs faulty .default hosted).2 _ _ hsplit "T" _ hreached

end Script

end FieldScript
