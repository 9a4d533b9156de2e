import FieldScript.Proofs.Script.Survivors

/-! What the report of a run says in its several ways. The first failure settles all of them: with none
the run is a success, every statement was reached and the result is all that they produced; otherwise
the result is that failure, and a run that left statements out ended with one. -/
namespace FieldScript

open Statement

theorem EvalError.isResourceExceeded_iff {e : EvalError} :
    e.isResourceExceeded = true ↔ ∃ depth limit, e = .stackOverflow depth limit := by
  cases e <;> simp [isResourceExceeded]

theorem EngineError.ofEval_eq_resourceExceeded_iff {e : EvalError} {message : String} :
    EngineError.ofEval e = .resourceExceeded message ↔
      e.isResourceExceeded = true ∧ message = e.message := by
  unfold ofEval
  cases e.isResourceExceeded <;> simp [eq_comm]

theorem EngineError.ofEval_eq_runtime_iff {e : EvalError} {message : String} :
    EngineError.ofEval e = .runtime message ↔
      e.isResourceExceeded = false ∧ message = e.message := by
  unfold ofEval
  cases e.isResourceExceeded <;> simp [eq_comm]

theorem Statement.Planned.names {σ : Type} [Host σ] {scope : σ} {statement : Tree} {planned : Plan}
    (h : Planned scope statement planned) : planned.produced.names = statement.outputs := by
  cases h with
  | fields | nothing => rfl
  | data target keyword args data call =>
    rw [call, outputs_assign]
    rfl

namespace Script

namespace Report

variable {report : Report} {entry : Entry} {e : EvalError}

def FailsFirst (report : Report) (entry : Entry) (e : EvalError) : Prop :=
  entry.outcome = .error e ∧ ∃ earlier later, report.entries = earlier ++ entry :: later ∧
    ∀ other ∈ earlier, other.outcome.isOk = true

theorem exists_failsFirst_or (report : Report) :
    (∀ entry ∈ report.entries, entry.outcome.isOk = true) ∨
      ∃ entry e, report.FailsFirst entry e := by
  obtain ⟨entries, early⟩ := report
  induction entries with
  | nil => simp
  | cons entry entries ih =>
    cases hentry : entry.outcome with
    | error e => exact .inr ⟨entry, e, hentry, [], entries, rfl, by simp⟩
    | ok produced =>
      have hok : entry.outcome.isOk = true := by rw [hentry]; rfl
      rcases ih with hall | ⟨failed, e, hfailed, earlier, later, hsplit, hbefore⟩
      · exact .inl (List.forall_mem_cons.mpr ⟨hok, hall⟩)
      · exact .inr ⟨failed, e, hfailed, entry :: earlier, later,
          congrArg (entry :: ·) hsplit, List.forall_mem_cons.mpr ⟨hok, hbefore⟩⟩

theorem failures_eq_nil_iff :
    report.failures = [] ↔ ∀ entry ∈ report.entries, entry.outcome.isOk = true := by
  rw [failures, List.filterMap_eq_nil_iff]
  refine forall₂_congr fun entry _ => ?_
  cases entry.outcome <;> simp [Except.isOk, Except.toBool]

theorem head?_failures (h : report.FailsFirst entry e) :
    report.failures.head? = some (entry.statement, e) := by
  obtain ⟨hfail, earlier, later, hsplit, hbefore⟩ := h
  have hnone : failures ⟨earlier, false⟩ = [] := failures_eq_nil_iff.mpr hbefore
  simp only [failures] at hnone
  simp [failures, hsplit, List.filterMap_append, hnone, hfail]

theorem result_eq_ok_iff {all : List Produced} :
    report.result = .ok all ↔ report.entries.map Entry.outcome = all.map .ok := by
  obtain ⟨entries, early⟩ := report
  unfold result
  induction entries generalizing all with
  | nil => cases all <;> simp [pure, Except.pure]
  | cons entry entries ih =>
    rw [Outcome.mapM_cons_eq_ok]
    cases hentry : entry.outcome with
    | error e => cases all <;> simp [hentry]
    | ok produced =>
      cases all with
      | nil => simp
      | cons first rest =>
        simp only [Except.ok.injEq, ih, List.map_cons, List.cons.injEq, hentry]
        constructor
        · rintro ⟨_, others, rfl, hothers, rfl, rfl⟩
          exact ⟨rfl, hothers⟩
        · rintro ⟨rfl, hrest⟩
          exact ⟨_, rest, rfl, hrest, rfl, rfl⟩

theorem exists_result_iff : (∃ all, report.result = .ok all) ↔
    ∀ entry ∈ report.entries, entry.outcome.isOk = true := by
  constructor
  · rintro ⟨all, h⟩ entry hentry
    have hmem : entry.outcome ∈ all.map Except.ok := by
      rw [← result_eq_ok_iff.mp h]
      exact List.mem_map_of_mem hentry
    obtain ⟨produced, _, hproduced⟩ := List.mem_map.mp hmem
    rw [← hproduced]
    rfl
  · intro hall
    refine Outcome.exists_mapM fun entry hentry => ?_
    have hok := hall entry hentry
    cases houtcome : entry.outcome with
    | ok produced => exact ⟨produced, rfl⟩
    | error e =>
      rw [houtcome] at hok
      cases hok

theorem result_of_failsFirst (h : report.FailsFirst entry e) :
    report.result = .error (.ofEval e) := by
  obtain ⟨hfail, earlier, later, hsplit, hbefore⟩ := h
  unfold result
  rw [hsplit]
  refine Outcome.mapM_append_cons_error (fun other hother => ?_) (by rw [hfail])
  cases hok : other.outcome with
  | ok produced => exact ⟨produced, rfl⟩
  | error e =>
    have hbad := hbefore other hother
    rw [hok] at hbad
    cases hbad

theorem produced_eq (names : ∀ entry ∈ report.entries, ∀ produced, entry.outcome = .ok produced →
      produced.names = entry.statement.outputs) :
    report.produced = report.survivors.flatMap fun entry => entry.statement.outputs := by
  obtain ⟨entries, early⟩ := report
  induction entries with
  | nil => rfl
  | cons entry entries ih =>
    obtain ⟨hentry, hentries⟩ := List.forall_mem_cons.mp names
    have others := ih hentries
    rw [survivors_cons]
    simp only [produced, List.flatMap_cons] at others ⊢
    cases houtcome : entry.outcome with
    | ok produced => simp [others, hentry produced houtcome, Except.isOk, Except.toBool]
    | error e => simp [others, Except.isOk, Except.toBool]

end Report

section Runs

variable {σ : Type} [Host σ] {options : RunOptions} {statements : List Tree} {scope after : σ}
  {report : Report} {entry : Entry}

theorem Entry.exists_error_of_stops (stops : entry.stops options = true) :
    ∃ e, entry.outcome = .error e := by
  unfold Entry.stops at stops
  cases houtcome : entry.outcome with
  | ok produced => simp [houtcome] at stops
  | error e => exact ⟨e, rfl⟩

theorem Entry.stops_of_overflow {depth limit : Nat}
    (overflow : entry.outcome = .error (.stackOverflow depth limit)) :
    entry.stops options = true := by
  simp [Entry.stops, overflow, EvalError.isResourceExceeded]

theorem names_of_entryOf {statement : Tree} {produced : Produced}
    (h : (entryOf options statement scope).outcome = .ok produced) :
    produced.names = statement.outputs := by
  unfold entryOf Update.outcome at h
  cases hprocess : process options.maxDepth statement scope with
  | error e after => simp [hprocess] at h
  | ok given after =>
    obtain ⟨planned, hplan, _, rfl⟩ := process_eq_ok.mp hprocess
    simp only [hprocess, Except.ok.injEq] at h
    rw [← h]
    exact (planned_of_plan hplan).names

namespace Runs

theorem names_eq (h : Runs options statements scope report after) (hentry : entry ∈ report.entries)
    {produced : Produced} (succeeded : entry.outcome = .ok produced) :
    produced.names = entry.statement.outputs := by
  obtain ⟨-, met, heq⟩ := h.exists_entryOf hentry
  rw [heq] at succeeded
  exact names_of_entryOf succeeded

theorem length_of_stops (h : Runs options statements scope report after) {i : Nat}
    (hentry : report.entries[i]? = some entry) (stops : entry.stops options = true) :
    i + 1 = report.entries.length := by
  induction h generalizing i with
  | done => cases hentry
  | stopped =>
    have hlt := (List.getElem?_eq_some_iff.mp hentry).1
    simp only [List.length_singleton] at hlt ⊢
    omega
  | next statement scope goes _ ih =>
    cases i with
    | zero =>
      cases hentry
      rw [goes] at stops
      cases stops
    | succ i => simpa using ih hentry

theorem exists_last_of_stoppedEarly (h : Runs options statements scope report after)
    (early : report.stoppedEarly = true) :
    ∃ earlier last, report.entries = earlier ++ [last] ∧ last.stops options = true := by
  induction h with
  | done => cases early
  | stopped statement _ scope stops => exact ⟨[], _, rfl, stops⟩
  | next statement scope _ _ ih =>
    obtain ⟨earlier, last, hsplit, stops⟩ := ih early
    exact ⟨entryOf options statement scope :: earlier, last,
      congrArg (entryOf options statement scope :: ·) hsplit, stops⟩

theorem isSuccess_iff (h : Runs options statements scope report after) :
    report.isSuccess = true ↔ ∀ entry ∈ report.entries, entry.outcome.isOk = true := by
  simp only [Report.isSuccess, Bool.and_eq_true, Bool.not_eq_true', List.all_eq_true,
    and_iff_right_iff_imp]
  intro hall
  refine Bool.eq_false_iff.mpr fun early => ?_
  obtain ⟨earlier, last, hsplit, stops⟩ := h.exists_last_of_stoppedEarly early
  obtain ⟨e, hfail⟩ := Entry.exists_error_of_stops stops
  have hok := hall last (by simp [hsplit])
  rw [hfail] at hok
  cases hok

theorem reached_of_isSuccess (h : Runs options statements scope report after)
    (success : report.isSuccess = true) : report.entries.map Entry.statement = statements := by
  obtain ⟨unreached, hsplit, hearly⟩ := h.reached
  have hlate : report.stoppedEarly = false := by
    simp only [Report.isSuccess, Bool.and_eq_true, Bool.not_eq_true'] at success
    exact success.1
  have hnone : unreached = [] := by
    by_contra hsome
    rw [hearly.mpr hsome] at hlate
    cases hlate
  rw [hsplit, hnone, List.append_nil]

end Runs

end Runs

/-- The report of a run tells one story. It is a success exactly if it has no failures and exactly if
the result is everything produced, and then there is an entry for each statement. Otherwise the result
is the first failure, as a lack of resources exactly if levels ran out. Statements are left out only
after a failure, levels run out at most once and in the last entry, and the produced names are the
outputs of the statements that succeeded. -/
theorem report_tells_one_story {σ : Type} [Host σ] (script : Script) (options : RunOptions)
    (scope : σ) :
    let report := (script.runWith options scope).1
    (report.isSuccess = true ↔ report.failures = []) ∧
    (report.isSuccess = true ↔ ∃ all, report.result = .ok all) ∧
    (∀ all, report.result = .ok all → report.entries.map Entry.statement = script.statements ∧
      report.entries.map Entry.outcome = all.map .ok) ∧
    (report.isSuccess = false → ∃ entry e, report.FailsFirst entry e ∧
      report.failures.head? = some (entry.statement, e) ∧
      report.result = .error (.ofEval e) ∧
      ((∃ depth limit, e = .stackOverflow depth limit) ↔
        report.result = .error (.resourceExceeded e.message)) ∧
      ((∀ depth limit, e ≠ .stackOverflow depth limit) ↔
        report.result = .error (.runtime e.message))) ∧
    (∃ unreached, script.statements = report.entries.map Entry.statement ++ unreached ∧
      (report.stoppedEarly = true ↔ unreached ≠ [])) ∧
    (report.stoppedEarly = true → ∃ earlier last e, report.entries = earlier ++ [last] ∧
      last.outcome = .error e) ∧
    (∀ i entry depth limit, report.entries[i]? = some entry →
      entry.outcome = .error (.stackOverflow depth limit) → i + 1 = report.entries.length) ∧
    report.produced = report.survivors.flatMap fun entry => entry.statement.outputs := by
  intro report
  have hruns : Runs options script.statements scope report (script.runWith options scope).2 :=
    runs_runStatements options script.statements scope
  have hsuccess := hruns.isSuccess_iff
  refine ⟨hsuccess.trans Report.failures_eq_nil_iff.symm,
    hsuccess.trans Report.exists_result_iff.symm, fun all h => ⟨?_, Report.result_eq_ok_iff.mp h⟩,
    fun failed => ?_, hruns.reached, fun early => ?_,
    fun i entry depth limit hentry overflow =>
      hruns.length_of_stops hentry (Entry.stops_of_overflow overflow),
    Report.produced_eq fun entry hentry _ => hruns.names_eq hentry⟩
  · exact hruns.reached_of_isSuccess (hsuccess.mpr (Report.exists_result_iff.mp ⟨all, h⟩))
  · rcases report.exists_failsFirst_or with hall | ⟨entry, e, first⟩
    · rw [hsuccess.mpr hall] at failed
      cases failed
    · have hresult := Report.result_of_failsFirst first
      refine ⟨entry, e, first, Report.head?_failures first, hresult, ?_, ?_⟩
      · rw [hresult, Except.error.injEq, EngineError.ofEval_eq_resourceExceeded_iff,
          EvalError.isResourceExceeded_iff]
        simp
      · rw [hresult, Except.error.injEq, EngineError.ofEval_eq_runtime_iff,
          Bool.eq_false_iff, ne_eq, EvalError.isResourceExceeded_iff]
        simp
  · obtain ⟨earlier, last, hentries, stops⟩ := hruns.exists_last_of_stoppedEarly early
    obtain ⟨e, hfail⟩ := Entry.exists_error_of_stops stops
    exact ⟨earlier, last, e, hentries, hfail⟩

/-- The second of three statements runs out of levels: the third is not reached, and what the first
has written is all that is produced. -/
theorem report_tells_one_story_outrun :
    let report := ((Script.mk [bFromA, halfTooDeep, cFromB] .default).runWith ⟨2, false⟩
      twoPoints).1
    (report.isSuccess = false ∧ report.stoppedEarly = true ∧
      report.failures = [(halfTooDeep, .stackOverflow 2 2)]) ∧
    (∀ all, report.result ≠ .ok all) ∧
    report.result = .error (.resourceExceeded (EvalError.stackOverflow 2 2).message) ∧
    report.produced = ["B"] := by
  intro report
  have failed : report.isSuccess = false := by with_unfolding_all rfl
  have early : report.stoppedEarly = true := by with_unfolding_all rfl
  have failures : report.failures = [(halfTooDeep, .stackOverflow 2 2)] := by
    with_unfolding_all rfl
  have outputs : (report.survivors.flatMap fun entry => entry.statement.outputs) = ["B"] := by
    with_unfolding_all rfl
  obtain ⟨-, hresult, -, hfirst, -, -, -, hproduced⟩ :=
    report_tells_one_story (Script.mk [bFromA, halfTooDeep, cFromB] .default) ⟨2, false⟩ twoPoints
  obtain ⟨_, e, _, hhead, _, hresource, _⟩ := hfirst failed
  refine ⟨⟨failed, early, failures⟩, fun all hall => ?_, ?_, hproduced.trans outputs⟩
  · exact Bool.eq_false_iff.mp failed (hresult.mpr ⟨all, hall⟩)
  · have hsame : some (halfTooDeep, EvalError.stackOverflow 2 2) = some (_, e) :=
      (congrArg List.head? failures).symm.trans hhead
    have he : EvalError.stackOverflow 2 2 = e := (Prod.mk.inj (Option.some.inj hsame)).2
    subst he
    exact hresource.mp ⟨2, 2, rfl⟩

end Script

end FieldScript
