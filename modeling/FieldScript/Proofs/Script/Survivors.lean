import FieldScript.Proofs.Script.Stopping
import FieldScript.Proofs.Statement.Independence
import FieldScript.SampleFunctions

/-! The statements of a run that succeeded. A statement that fails leaves the scope as it was, so
the others run the same without it. -/
namespace FieldScript.Script

open Statement

def Report.survivors (report : Report) : List Entry :=
  report.entries.filter fun entry => entry.outcome.isOk

theorem Report.survivors_cons (entry : Entry) (entries : List Entry) (early : Bool) :
    Report.survivors ⟨entry :: entries, early⟩ =
      if entry.outcome.isOk then entry :: Report.survivors ⟨entries, early⟩
      else Report.survivors ⟨entries, early⟩ :=
  List.filter_cons

def surviving (script : Script) (report : Report) : Script :=
  { script with statements := report.survivors.map Entry.statement }

variable {options : RunOptions} {statement : Tree} {statements : List Tree}
  {scope after : MemoryScope} {report : Report}

theorem scopeAfter_eq_of_failed (wf : scope.WellFormed)
    (failed : (entryOf options statement scope).outcome.isOk = false) :
    scopeAfter options statement scope = scope := by
  cases houtcome : (process options.maxDepth statement).outcome scope with
  | ok produced =>
    rw [entryOf, houtcome] at failed
    cases failed
  | error e =>
    obtain ⟨after, hprocess⟩ := Update.outcome_eq_error.mp houtcome
    exact (Update.after_of_error hprocess).trans (eq_of_process_error wf hprocess)

/-- Survivors alone run from the same scope to the same scope, each with the outcome it had. -/
theorem Runs.survivors (h : Runs options statements scope report after) (wf : scope.WellFormed)
    (goes : ∀ entry ∈ report.entries, entry.stops options = false) :
    Runs options (report.survivors.map Entry.statement) scope ⟨report.survivors, false⟩ after := by
  induction h with
  | done scope => exact .done scope
  | stopped _ _ _ stops =>
    rw [goes _ (List.mem_singleton_self _)] at stops
    cases stops
  | @next statement _ scope report after hgoes _ ih =>
    have others := ih (wf.process options.maxDepth statement)
      fun entry hentry => goes entry (List.mem_cons_of_mem _ hentry)
    rw [Report.survivors_cons]
    cases hok : (entryOf options statement scope).outcome.isOk with
    | true => exact .next statement scope hgoes others
    | false => rwa [scopeAfter_eq_of_failed wf hok] at others

theorem Entry.stops_eq_false {entry : Entry} (goesOn : options.stopOnError = false)
    (enough : ∀ e, entry.outcome = .error e → e.isResourceExceeded = false) :
    entry.stops options = false := by
  unfold Entry.stops
  cases h : entry.outcome with
  | ok produced => rfl
  | error e => simp [enough e h, goesOn]

/-- Failures are local. Where a run goes on after errors and no statement runs out of levels, the
script without the statements that failed succeeds from the same scope, with the outcomes that its
statements had before, and leaves the same scope. -/
theorem runWith_surviving (script : Script) (reachable : scope.Reachable)
    (goesOn : options.stopOnError = false) (ran : script.runWith options scope = (report, after))
    (enough : ∀ entry ∈ report.entries, ∀ e, entry.outcome = .error e →
      e.isResourceExceeded = false) :
    report.entries.map Entry.statement = script.statements ∧
      (script.surviving report).runWith options scope = (⟨report.survivors, false⟩, after) ∧
      Report.isSuccess ⟨report.survivors, false⟩ = true := by
  have goes (entry : Entry) (hentry : entry ∈ report.entries) : entry.stops options = false :=
    Entry.stops_eq_false goesOn (enough entry hentry)
  have hruns := runs_iff.mpr ran
  refine ⟨hruns.reached_of_goes goes, runs_iff.mp (hruns.survivors reachable.wellFormed goes), ?_⟩
  simp [Report.isSuccess, Report.survivors]

def hosted : MemoryScope :=
  { twoPoints with registry := ⟨[
    ⟨⟨"broken", ""⟩, .field SampleFunctions.failAfterFill⟩,
    ⟨⟨"present", ""⟩, .data SampleFunctions.present⟩]⟩ }

def callOnA (target keyword : String) : Tree :=
  .assign (.variable target) (.call (.user keyword) [.leaf (.variable "A")])

/-- `X = broken(A)`, which leaves no `X` to copy, and `T = present(A)` twice, though a name is bound
at most once. -/
def faulty : Script where
  statements := [callOnA "X" "broken", callOnA "T" "present", callOnA "T" "present",
    .assign (.variable "Y") (.leaf (.variable "X")), bFromA]
  options := .default

theorem faulty_surviving :
    ∃ report after, (hosted.Reachable ∧ RunOptions.default.stopOnError = false ∧
        faulty.runWith .default hosted = (report, after) ∧
        ∀ entry ∈ report.entries, ∀ e, entry.outcome = .error e →
          e.isResourceExceeded = false) ∧
      report.failures.map (·.2) = [.functionFailed "broken" "sensor offline",
        .duplicateUserData "T", .unresolvedName "X"] ∧
      report.survivors = [⟨callOnA "T" "present", .ok (.userData "T")⟩,
        ⟨bFromA, .ok (.fields ["B"])⟩] ∧
      (faulty.surviving report).runWith .default hosted = (⟨report.survivors, false⟩, after) := by
  let copied : Tree := .assign (.variable "Y") (.leaf (.variable "X"))
  let report : Report := ⟨[
    ⟨callOnA "X" "broken", .error (.functionFailed "broken" "sensor offline")⟩,
    ⟨callOnA "T" "present", .ok (.userData "T")⟩,
    ⟨callOnA "T" "present", .error (.duplicateUserData "T")⟩,
    ⟨copied, .error (.unresolvedName "X")⟩,
    ⟨bFromA, .ok (.fields ["B"])⟩], false⟩
  have reachable : hosted.Reachable := .setRegistry reachable_twoPoints _
  have ran : faulty.runWith .default hosted = (report, (faulty.runWith .default hosted).2) := by
    with_unfolding_all rfl
  have enough : ∀ entry ∈ report.entries, ∀ e, entry.outcome = .error e →
      e.isResourceExceeded = false := by
    simp [report, EvalError.isResourceExceeded]
  obtain ⟨-, again, -⟩ := runWith_surviving faulty reachable rfl ran enough
  exact ⟨report, _, ⟨reachable, rfl, ran, enough⟩, rfl, rfl, again⟩

end FieldScript.Script
