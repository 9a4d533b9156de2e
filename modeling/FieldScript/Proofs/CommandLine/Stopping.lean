import FieldScript.Proofs.CommandLine.Feeding
import FieldScript.Proofs.Script.Stopping

/-! Stopping on errors and lines on standard input. Every line is a run of its own, and with the
flag a run ends with its first failure. The flag is no part of the scope that lives on, so the
statements of later lines are run all the same. -/
namespace FieldScript

namespace Script

variable {σ : Type} [Host σ] {options : RunOptions} {statements : List Tree} {scope after : σ}
  {report : Report}

def Entry.failed (entry : Entry) : Bool := !entry.outcome.isOk

def NothingAfterFailure (entries : List Entry) : Prop :=
  entries.Pairwise fun earlier _ => earlier.failed = false

theorem Entry.stops_eq_failed (stop : options.stopOnError = true) (entry : Entry) :
    entry.stops options = entry.failed := by
  unfold Entry.stops Entry.failed
  cases entry.outcome with
  | ok produced => rfl
  | error e => simp [stop, Except.isOk, Except.toBool]

theorem Runs.nothingAfterFailure (h : Runs options statements scope report after)
    (stop : options.stopOnError = true) : NothingAfterFailure report.entries := by
  induction h with
  | done => exact .nil
  | stopped => exact List.pairwise_singleton _ _
  | next statement scope goes _ ih =>
    rw [Entry.stops_eq_failed stop] at goes
    exact .cons (fun _ _ => goes) ih

theorem Runs.entries_eq_nil_iff (h : Runs options statements scope report after) :
    report.entries = [] ↔ statements = [] := by
  cases h <;> simp

end Script

namespace CommandLine

open Script

variable {inv : Invocation} {scope : MemoryScope} {source : String} {lines : List String}

def attempt (engine : Engine) (scope : MemoryScope) (source : String) :
    Except EngineError Report × MemoryScope :=
  match engine.compile source with
  | .error e => (.error e, scope)
  | .ok script => ((script.run scope).map .ok id)

def attempts (inv : Invocation) (scope : MemoryScope) :
    List String → List (Except EngineError Report × MemoryScope)
  | [] => []
  | source :: rest =>
    let tried := attempt inv.engine scope source
    tried :: attempts inv tried.2 rest

def entriesOf (outcome : Except EngineError Report) : List Entry :=
  match outcome with
  | .error _ => []
  | .ok report => report.entries

def entriesRun (inv : Invocation) (scope : MemoryScope) (lines : List String) : List Entry :=
  (attempts inv scope lines).flatMap fun tried => entriesOf tried.1

/-- The text has nothing to run: it is refused, or it has no statements. -/
def Idle (engine : Engine) (source : String) : Prop :=
  ∀ script, engine.compile source = .ok script → script.statements = []

def saidOf (outcome : Except EngineError Report) (after : MemoryScope) : List Said :=
  match outcome with
  | .error e => [.err (Render.text e)]
  | .ok report => reportText report after

def shown (inv : Invocation) (source : String) : List Said :=
  if inv.debugParse then
    match Parse.script source Parse.defaultMaxDepth with
    | .error _ => []
    | .ok statements => [.out (dumpText statements)]
  else []

theorem interpret_eq (engine : Engine) (scope : MemoryScope) (source : String) :
    interpret engine scope source =
      (saidOf (attempt engine scope source).1 (attempt engine scope source).2,
        (attempt engine scope source).2) := by
  unfold interpret attempt
  cases engine.compile source <;> rfl

theorem feed_eq (inv : Invocation) (scope : MemoryScope) (source : String) :
    feed inv scope source =
      (shown inv source ++ saidOf (attempt inv.engine scope source).1
          (attempt inv.engine scope source).2,
        (attempt inv.engine scope source).2) := by
  unfold feed shown
  cases inv.debugParse with
  | false => exact interpret_eq inv.engine scope source
  | true =>
    simp only [if_true, interpretShown]
    cases hread : Parse.script source Parse.defaultMaxDepth with
    | ok statements => simp [interpret_eq]
    | error e =>
      have hcompile : inv.engine.compile source = .error (.ofParse e) := by
        have hread' : Parse.script source inv.engine.parseMaxDepth = .error e := hread
        rw [Engine.compile, Engine.compileWith_eq, hread']
      simp [attempt, hcompile, saidOf]

theorem feedAll_eq (inv : Invocation) (scope : MemoryScope) (lines : List String) :
    (feedAll inv scope lines).1 = (lines.zip (attempts inv scope lines)).flatMap
      fun (source, tried) => shown inv source ++ saidOf tried.1 tried.2 := by
  induction lines generalizing scope with
  | nil => rfl
  | cons source rest ih =>
    rw [feedAll, feed_eq]
    exact congrArg _ (ih _)

theorem nothingAfterFailure_attempt (stop : inv.stopOnError = true) (scope : MemoryScope)
    (source : String) :
    NothingAfterFailure (entriesOf (attempt inv.engine scope source).1) := by
  unfold attempt
  cases hcompile : inv.engine.compile source with
  | error e => exact .nil
  | ok script =>
    have hoptions : script.options = inv.engine.runOptions :=
      (Engine.compileWith_eq_ok.mp hcompile).2
    exact (runs_runStatements script.options script.statements scope).nothingAfterFailure
      (hoptions ▸ stop)

theorem entriesOf_attempt_eq_nil_iff :
    entriesOf (attempt inv.engine scope source).1 = [] ↔ Idle inv.engine source := by
  unfold attempt Idle
  cases inv.engine.compile source with
  | error e => simp [entriesOf]
  | ok script =>
    have ran : Runs script.options script.statements scope (script.run scope).1
        (script.run scope).2 := runs_runStatements script.options script.statements scope
    simpa [entriesOf] using ran.entries_eq_nil_iff

theorem entriesRun_cons (inv : Invocation) (scope : MemoryScope) (source : String)
    (rest : List String) :
    entriesRun inv scope (source :: rest) = entriesOf (attempt inv.engine scope source).1 ++
      entriesRun inv (feed inv scope source).2 rest := by
  rw [feed_eq]
  rfl

theorem entriesRun_eq_nil_iff :
    entriesRun inv scope lines = [] ↔ ∀ line ∈ lines, Idle inv.engine line := by
  induction lines generalizing scope with
  | nil => simp [entriesRun, attempts]
  | cons line rest ih =>
    rw [entriesRun_cons, List.append_eq_nil_iff, entriesOf_attempt_eq_nil_iff, ih,
      List.forall_mem_cons]

theorem forall_not_failed_iff {entries later : List Entry} :
    (∀ entry ∈ entries, ∀ next ∈ later, entry.failed = false) ↔
      ((∃ entry ∈ entries, entry.failed = true) → later = []) := by
  constructor
  · rintro h ⟨entry, hentry, hfailed⟩
    refine List.eq_nil_iff_forall_not_mem.mpr fun next hnext => ?_
    rw [h entry hentry next hnext] at hfailed
    cases hfailed
  · intro h entry hentry next hnext
    by_contra hfailed
    rw [h ⟨entry, hentry, by simpa using hfailed⟩] at hnext
    cases hnext

theorem nothingAfterFailure_entriesRun (stop : inv.stopOnError = true) :
    NothingAfterFailure (entriesRun inv scope lines) ↔
      ∀ before line after, lines = before ++ line :: after →
        (∃ entry ∈ entriesOf (attempt inv.engine (feedAll inv scope before).2 line).1,
          entry.failed = true) →
        ∀ later ∈ after, Idle inv.engine later := by
  induction lines generalizing scope with
  | nil => simp [entriesRun, attempts, NothingAfterFailure]
  | cons first rest ih =>
    rw [entriesRun_cons, NothingAfterFailure, List.pairwise_append, forall_not_failed_iff,
      entriesRun_eq_nil_iff]
    constructor
    · rintro ⟨-, hrest, hfirst⟩ before line after hsplit hfailed
      cases before with
      | nil =>
        obtain ⟨rfl, rfl⟩ := List.cons.inj hsplit
        exact hfirst hfailed
      | cons head before =>
        obtain ⟨rfl, rfl⟩ := List.cons.inj hsplit
        exact ih.mp hrest before line after rfl hfailed
    · intro h
      refine ⟨nothingAfterFailure_attempt stop scope first, ih.mpr ?_, h [] first rest rfl⟩
      intro before line after hsplit
      exact h (first :: before) line after (congrArg (first :: ·) hsplit)

/-- Stopping on errors, for lines on standard input. All that is said comes from one attempt for each
line. None of them goes on after a failure; but of the whole input nothing is run after a failure
only if no line that comes later has anything to run. -/
theorem run_stops_iff (stop : inv.stopOnError = true) (runs : inv.listFunctions = false)
    (noFile : inv.file = none) (noScript : inv.script = none)
    (built : buildScope inv = .ok scope) (input : String) :
    run inv none input = ⟨0, ((inputLines input).zip (attempts inv scope (inputLines input))).flatMap
      fun (source, tried) => shown inv source ++ saidOf tried.1 tried.2⟩ ∧
    (∀ scope line, NothingAfterFailure (entriesOf (attempt inv.engine scope line).1)) ∧
    (NothingAfterFailure (entriesRun inv scope (inputLines input)) ↔
      ∀ before line after, inputLines input = before ++ line :: after →
        (∃ entry ∈ entriesOf (attempt inv.engine (feedAll inv scope before).2 line).1,
          entry.failed = true) →
        ∀ later ∈ after, Idle inv.engine later) := by
  refine ⟨?_, nothingAfterFailure_attempt stop, nothingAfterFailure_entriesRun stop⟩
  rw [run_input runs noFile noScript built, feedAll_eq]

def stoppingPair : Invocation := { onePair with stopOnError := true }

/-- `B` cannot be read, which stops the first line; the second one writes `Y` all the same. -/
theorem stoppingPair_goes_on :
    let lines := inputLines "X = B\nY = A\n"
    (stoppingPair.stopOnError = true ∧ stoppingPair.listFunctions = false ∧
      stoppingPair.file = none ∧ stoppingPair.script = none ∧
      buildScope stoppingPair = .ok Statement.twoPoints) ∧
    ¬ NothingAfterFailure (entriesRun stoppingPair Statement.twoPoints lines) ∧
    errors (run stoppingPair none "X = B\nY = A\n").said =
      ["error: X = B: Field 'B' does not exist in this scope\n"] ∧
    ((feedAll stoppingPair Statement.twoPoints lines).2.store.fieldId? "Y").isSome = true := by
  intro lines
  have built : buildScope stoppingPair = .ok Statement.twoPoints := by with_unfolding_all rfl
  obtain ⟨-, -, hiff⟩ := run_stops_iff rfl rfl rfl rfl built "X = B\nY = A\n"
  have hlines : lines = ["X = B", "Y = A"] := by decide
  have hfailed : ((entriesOf (attempt stoppingPair.engine Statement.twoPoints "X = B").1).any
      Entry.failed) = true := by decide +kernel
  have hcopied : (entriesOf (attempt stoppingPair.engine Statement.twoPoints "Y = A").1).isEmpty =
      false := by decide +kernel
  have hidle : ¬ Idle stoppingPair.engine "Y = A" := by
    intro idle
    have hnone : entriesOf (attempt stoppingPair.engine Statement.twoPoints "Y = A").1 = [] :=
      entriesOf_attempt_eq_nil_iff.mpr idle
    rw [hnone] at hcopied
    cases hcopied
  refine ⟨⟨rfl, rfl, rfl, rfl, built⟩, ?_, ?_, ?_⟩
  · rw [hiff]
    intro h
    have hrest := h [] "X = B" ["Y = A"] hlines (List.any_eq_true.mp hfailed)
    exact hidle (hrest "Y = A" (List.mem_singleton_self _))
  · decide +kernel
  · decide +kernel

end CommandLine

end FieldScript
