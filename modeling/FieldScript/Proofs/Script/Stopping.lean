import FieldScript.Field.Shape
import FieldScript.Proofs.Statement.Effect
import FieldScript.Script

/-! Where a run stops, and runs one after the other. Running out of levels stops every run, any
other failure only a run that is to stop on errors. A run that nothing stops hands its scope on to
whatever statements come next. -/
namespace FieldScript.Script

open Statement

variable {σ : Type} [Host σ] {options : RunOptions} {statement : Tree}
  {statements before rest : List Tree} {scope middle after : σ} {report report' : Report}

def Entry.stops (options : RunOptions) (entry : Entry) : Bool :=
  match entry.outcome with
  | .ok _ => false
  | .error e => e.isResourceExceeded || options.stopOnError

def entryOf (options : RunOptions) (statement : Tree) (scope : σ) : Entry :=
  ⟨statement, (process options.maxDepth statement).outcome scope⟩

def scopeAfter (options : RunOptions) (statement : Tree) (scope : σ) : σ :=
  (process options.maxDepth statement).after scope

/-- A run statement by statement: there is none left, the next one stops the run, or the run goes on
in the scope that it left. -/
inductive Runs (options : RunOptions) : List Tree → σ → Report → σ → Prop where
  | done (scope : σ) : Runs options [] scope ⟨[], false⟩ scope
  | stopped (statement : Tree) (rest : List Tree) (scope : σ)
      (stops : (entryOf options statement scope).stops options = true) :
      Runs options (statement :: rest) scope
        ⟨[entryOf options statement scope], !rest.isEmpty⟩ (scopeAfter options statement scope)
  | next (statement : Tree) {rest : List Tree} (scope : σ) {report : Report} {after : σ}
      (goes : (entryOf options statement scope).stops options = false)
      (others : Runs options rest (scopeAfter options statement scope) report after) :
      Runs options (statement :: rest) scope
        ⟨entryOf options statement scope :: report.entries, report.stoppedEarly⟩ after

theorem runStatements_cons (options : RunOptions) (statement : Tree) (rest : List Tree)
    (scope : σ) :
    runStatements options (statement :: rest) scope =
      if (entryOf options statement scope).stops options then
        (⟨[entryOf options statement scope], !rest.isEmpty⟩, scopeAfter options statement scope)
      else
        let (report, after) := runStatements options rest (scopeAfter options statement scope)
        (⟨entryOf options statement scope :: report.entries, report.stoppedEarly⟩, after) := by
  cases h : process options.maxDepth statement scope <;>
    simp [runStatements, entryOf, scopeAfter, Entry.stops, Update.outcome, Update.after, h]

theorem runs_runStatements (options : RunOptions) (statements : List Tree) (scope : σ) :
    Runs options statements scope (runStatements options statements scope).1
      (runStatements options statements scope).2 := by
  induction statements generalizing scope with
  | nil => exact .done scope
  | cons statement rest ih =>
    rw [runStatements_cons]
    split
    case isTrue stops => exact .stopped statement rest scope stops
    case isFalse goes => exact .next statement scope (by simpa using goes) (ih _)

theorem runs_iff :
    Runs options statements scope report after ↔
      runStatements options statements scope = (report, after) := by
  constructor
  · intro h
    induction h with
    | done => rfl
    | stopped statement rest scope stops => rw [runStatements_cons, if_pos stops]
    | next statement scope goes others ih => rw [runStatements_cons, if_neg (by simp [goes]), ih]
  · intro h
    have hruns := runs_runStatements options statements scope
    rwa [h] at hruns

namespace Runs

theorem exists_entryOf (h : Runs options statements scope report after) {entry : Entry}
    (hentry : entry ∈ report.entries) :
    entry.statement ∈ statements ∧ ∃ met : σ, entry = entryOf options entry.statement met := by
  induction h with
  | done => cases hentry
  | stopped statement _ scope =>
    cases List.mem_singleton.mp hentry
    exact ⟨List.mem_cons_self, scope, rfl⟩
  | next statement scope _ _ ih =>
    rcases List.mem_cons.mp hentry with rfl | hlater
    · exact ⟨List.mem_cons_self, scope, rfl⟩
    · exact (ih hlater).imp_left (List.mem_cons_of_mem statement)

theorem reached (h : Runs options statements scope report after) :
    ∃ unreached, statements = report.entries.map Entry.statement ++ unreached ∧
      (report.stoppedEarly = true ↔ unreached ≠ []) := by
  induction h with
  | done => exact ⟨[], rfl, by simp⟩
  | stopped statement rest => exact ⟨rest, rfl, by simp⟩
  | next statement _ _ _ ih =>
    obtain ⟨unreached, hsplit, hearly⟩ := ih
    exact ⟨unreached, congrArg (statement :: ·) hsplit, hearly⟩

theorem reached_of_goes (h : Runs options statements scope report after)
    (goes : ∀ entry ∈ report.entries, entry.stops options = false) :
    report.entries.map Entry.statement = statements := by
  induction h with
  | done => rfl
  | stopped _ _ _ stops =>
    rw [goes _ (List.mem_singleton_self _)] at stops
    cases stops
  | next statement _ _ _ ih =>
    have others := ih fun entry hentry => goes entry (List.mem_cons_of_mem _ hentry)
    exact congrArg (statement :: ·) others

theorem stoppedEarly_of_goes (h : Runs options statements scope report after)
    (goes : ∀ entry ∈ report.entries, entry.stops options = false) :
    report.stoppedEarly = false := by
  obtain ⟨unreached, hsplit, hearly⟩ := h.reached
  have hnone : unreached = [] := by simpa [h.reached_of_goes goes] using hsplit
  simpa [hnone] using hearly

theorem eq_append_of_stops (h : Runs options statements scope report after) {entry : Entry}
    (hentry : entry ∈ report.entries) (stops : entry.stops options = true) :
    ∃ earlier, report.entries = earlier ++ [entry] := by
  induction h with
  | done => cases hentry
  | stopped => exact ⟨[], by rw [List.mem_singleton.mp hentry, List.nil_append]⟩
  | next statement scope goes _ ih =>
    rcases List.mem_cons.mp hentry with rfl | hlater
    · rw [goes] at stops
      cases stops
    · obtain ⟨earlier, hsplit⟩ := ih hlater
      exact ⟨entryOf options statement scope :: earlier,
        congrArg (entryOf options statement scope :: ·) hsplit⟩

theorem append_of_goes (first : Runs options before scope report middle)
    (second : Runs options rest middle report' after)
    (goes : ∀ entry ∈ report.entries, entry.stops options = false) :
    Runs options (before ++ rest) scope
      ⟨report.entries ++ report'.entries, report'.stoppedEarly⟩ after := by
  induction first with
  | done => exact second
  | stopped _ _ _ stops =>
    rw [goes _ (List.mem_singleton_self _)] at stops
    cases stops
  | next statement scope hfirst _ ih =>
    exact .next statement scope hfirst
      (ih second fun entry hentry => goes entry (List.mem_cons_of_mem _ hentry))

theorem append_of_stops (first : Runs options before scope report middle)
    (stops : ∃ entry ∈ report.entries, entry.stops options = true) (rest : List Tree) :
    Runs options (before ++ rest) scope
      ⟨report.entries, report.stoppedEarly || !rest.isEmpty⟩ middle := by
  induction first with
  | done =>
    obtain ⟨_, hentry, _⟩ := stops
    cases hentry
  | stopped statement others scope hstops =>
    have hempty : (!others.isEmpty || !rest.isEmpty) = !(others ++ rest).isEmpty := by
      cases others <;> simp
    rw [hempty]
    exact .stopped statement (others ++ rest) scope hstops
  | @next statement others scope report after goes _ ih =>
    obtain ⟨entry, hentry, hstops⟩ := stops
    have hlater : entry ∈ report.entries := by
      refine (List.mem_cons.mp hentry).resolve_left ?_
      rintro rfl
      rw [goes] at hstops
      cases hstops
    exact .next statement scope goes (ih ⟨entry, hlater, hstops⟩)

end Runs

/-- A script split in two. If nothing stops the first part, all of it is reached, and the whole is the
first part and then the second one in the scope that the first has left. If something does, the whole
is the first part with that failure last, and it stopped early exactly if there are statements that it
did not reach. -/
theorem runWith_append (before rest : List Tree) (compiled options : RunOptions)
    {scope middle after : σ} {report report' : Report}
    (first : (Script.mk before compiled).runWith options scope = (report, middle))
    (second : (Script.mk rest compiled).runWith options middle = (report', after)) :
    ((∀ entry ∈ report.entries, entry.stops options = false) →
      report.entries.map Entry.statement = before ∧
      (Script.mk (before ++ rest) compiled).runWith options scope =
        (⟨report.entries ++ report'.entries, report'.stoppedEarly⟩, after)) ∧
    ∀ entry ∈ report.entries, entry.stops options = true →
      (∃ earlier, report.entries = earlier ++ [entry]) ∧
      ∃ early unreached,
        (Script.mk (before ++ rest) compiled).runWith options scope =
          (⟨report.entries, early⟩, middle) ∧
        before ++ rest = report.entries.map Entry.statement ++ unreached ∧
        (early = true ↔ unreached ≠ []) := by
  have hfirst := runs_iff.mpr first
  refine ⟨fun goes => ⟨hfirst.reached_of_goes goes, ?_⟩,
    fun entry hentry stops => ⟨hfirst.eq_append_of_stops hentry stops, ?_⟩⟩
  · exact runs_iff.mp (hfirst.append_of_goes (runs_iff.mpr second) goes)
  · have hwhole := hfirst.append_of_stops ⟨entry, hentry, stops⟩ rest
    obtain ⟨unreached, hsplit, hearly⟩ := hwhole.reached
    exact ⟨_, unreached, runs_iff.mp hwhole, hsplit, hearly⟩

def bFromA : Tree := .assign (.variable "B") (.leaf (.variable "A"))

def cFromB : Tree := .assign (.variable "C") (.leaf (.variable "B"))

/-- Two levels are too few for the second statement. A run of two statements reaches them all; a run
of three stops early, whichever way it is split. -/
theorem runWith_outrun :
    let options : RunOptions := ⟨2, false⟩
    let middle := scopeAfter options bFromA twoPoints
    let copied : Entry := ⟨bFromA, .ok (.fields ["B"])⟩
    let outrun : Entry := ⟨halfTooDeep, .error (.stackOverflow 2 2)⟩
    (copied.stops options = false ∧ outrun.stops options = true ∧
      (Script.mk [bFromA] .default).runWith options twoPoints = (⟨[copied], false⟩, middle) ∧
      (Script.mk [halfTooDeep, cFromB] .default).runWith options middle =
        (⟨[outrun], true⟩, middle) ∧
      (Script.mk [bFromA, halfTooDeep] .default).runWith options twoPoints =
        (⟨[copied, outrun], false⟩, middle)) ∧
    (Script.mk [bFromA, halfTooDeep, cFromB] .default).runWith options twoPoints =
      (⟨[copied, outrun], true⟩, middle) ∧
    ∃ early unreached,
      (Script.mk [bFromA, halfTooDeep, cFromB] .default).runWith options twoPoints =
        (⟨[copied, outrun], early⟩, middle) ∧
      [bFromA, halfTooDeep, cFromB] = [bFromA, halfTooDeep] ++ unreached ∧
      (early = true ↔ unreached ≠ []) := by
  intro options middle copied outrun
  have one : (Script.mk [bFromA] .default).runWith options twoPoints =
      (⟨[copied], false⟩, middle) := by
    with_unfolding_all rfl
  have others : (Script.mk [halfTooDeep, cFromB] .default).runWith options middle =
      (⟨[outrun], true⟩, middle) := by
    with_unfolding_all rfl
  have two : (Script.mk [bFromA, halfTooDeep] .default).runWith options twoPoints =
      (⟨[copied, outrun], false⟩, middle) := by
    with_unfolding_all rfl
  refine ⟨⟨rfl, rfl, one, others, two⟩, ?_, ?_⟩
  · have goes : ∀ entry ∈ [copied], entry.stops options = false := by
      intro entry hentry
      rw [List.mem_singleton.mp hentry]
      rfl
    exact ((runWith_append [bFromA] [halfTooDeep, cFromB] .default options one others).1 goes).2
  · exact ((runWith_append [bFromA, halfTooDeep] [cFromB] .default options two rfl).2 outrun
      (List.mem_cons_of_mem _ (List.mem_singleton_self _)) rfl).2

end FieldScript.Script
