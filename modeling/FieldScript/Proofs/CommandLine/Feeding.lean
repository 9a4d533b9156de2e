import FieldScript.CommandLine
import FieldScript.Proofs.Parse.Layout
import FieldScript.Proofs.Parse.Separators
import FieldScript.Proofs.Script.Compiling
import FieldScript.Proofs.Script.Unhosted

/-! Two ways to feed the command: line by line on standard input, or the same lines with separators
between them as one script. Both come to one run of the statements of all lines, which nothing stops:
the scope of the command has no host functions, and a text accepted at the default limit cannot run out
of levels. -/
namespace FieldScript

open Outcome Script Source

namespace CommandLine

theorem splitAll_ne_nil (separator : Char) (cs : List Char) : splitAll separator cs ≠ [] := by
  cases cs with
  | nil => simp [splitAll]
  | cons c cs =>
    unfold splitAll
    split
    · simp
    · split <;> simp

theorem splitAll_append_separator {separator : Char} {cs : List Char} (h : separator ∉ cs)
    (ds : List Char) :
    splitAll separator (cs ++ separator :: ds) = cs :: splitAll separator ds := by
  induction cs with
  | nil => simp [splitAll]
  | cons c cs ih =>
    rw [List.mem_cons, not_or] at h
    rw [List.cons_append, splitAll, if_neg (Ne.symm h.1), ih h.2]

def chomped (line : List Char) : List Char :=
  if line.getLast? = some '\r' then line.dropLast else line

def chomp (line : String) : String := String.ofList (chomped line.toList)

theorem linesOf_cons (line : List Char) {rest : List (List Char)} (h : rest ≠ []) :
    linesOf (line :: rest) = chomped line :: linesOf rest := by
  cases rest with
  | nil => exact absurd rfl h
  | cons next rest => rfl

def piped (lines : List String) : String := String.join (lines.map (· ++ "\n"))

theorem inputLines_piped {lines : List String} (h : ∀ line ∈ lines, '\n' ∉ line.toList) :
    inputLines (piped lines) = lines.map chomp := by
  induction lines with
  | nil => rfl
  | cons line rest ih =>
    obtain ⟨hline, hrest⟩ := List.forall_mem_cons.mp h
    have hpiped : (piped (line :: rest)).toList = line.toList ++ '\n' :: (piped rest).toList := by
      simp [piped]
    have hothers := ih hrest
    unfold inputLines at hothers ⊢
    rw [hpiped, splitAll_append_separator hline, linesOf_cons _ (splitAll_ne_nil _ _),
      List.map_cons, hothers]
    rfl

theorem sameLayout_chomped (line : List Char) : SameLayout line (chomped line) := by
  unfold chomped
  split
  · rename_i hlast
    have hreturn : ∀ c ∈ ['\r'], isBlank c = true := by simp [isBlank]
    have hlayout := sameLayout_append_blanks hreturn line.dropLast
    rwa [List.dropLast_append_getLast? _ hlast] at hlayout
  · have hnone : ∀ c ∈ [], isBlank c = true := by simp
    have hlayout := sameLayout_append_blanks hnone line
    rwa [List.append_nil] at hlayout

theorem sameLayout_chomp (line : String) : SameLayout line.toList (chomp line).toList := by
  rw [chomp, String.toList_ofList]
  exact sameLayout_chomped line.toList

section Chomping

variable {lines : List String} {readings : List (List Tree)} {maxDepth : Nat}

theorem mark_not_mem_chomp (unmarked : ∀ line ∈ lines, '#' ∉ line.toList) :
    ∀ line ∈ lines.map chomp, '#' ∉ line.toList := by
  intro line hline
  obtain ⟨whole, hwhole, rfl⟩ := List.mem_map.mp hline
  exact LaidOutAlike.not_mem ⟨sameLayout_chomp whole, unmarked whole hwhole⟩

theorem mapM_chomp (unmarked : ∀ line ∈ lines, '#' ∉ line.toList)
    (read : lines.mapM (fun line => Parse.script line maxDepth) = .ok readings) :
    (lines.map chomp).mapM (fun line => Parse.script line maxDepth) = .ok readings := by
  induction lines generalizing readings with
  | nil => exact read
  | cons line rest ih =>
    obtain ⟨trees, others, hline, hrest, rfl⟩ := mapM_cons_eq_ok.mp read
    obtain ⟨hmark, hmarks⟩ := List.forall_mem_cons.mp unmarked
    have hchomped := (Parse.script_laidOutAlike (sameLayout_chomp line) hmark).mp hline
    exact mapM_cons_eq_ok.mpr ⟨trees, others, hchomped, ih hmarks hrest, rfl⟩

end Chomping

def errors (said : List Said) : List String :=
  said.filterMap fun
    | .out _ => none
    | .err text => some text

def complaints (opening : String) (said : List Said) : List String :=
  (errors said).filter fun text => opening.toList.isPrefixOf text.toList

@[simp] theorem errors_append (said later : List Said) :
    errors (said ++ later) = errors said ++ errors later :=
  List.filterMap_append

def failureText (failure : Tree × EvalError) : String :=
  "error: " ++ failure.1.text ++ ": " ++ failure.2.message ++ "\n"

theorem errors_producedText (scope : MemoryScope) (name : String) :
    errors (producedText scope name) = [] := by
  unfold producedText
  split
  · rfl
  · split <;> rfl

theorem errors_flatMap {f : String → List Said} (quiet : ∀ name, errors (f name) = [])
    (names : List String) : errors (names.flatMap f) = [] := by
  induction names with
  | nil => rfl
  | cons name rest ih => rw [List.flatMap_cons, errors_append, quiet, ih, List.append_nil]

theorem errors_reportText {report : Report} (reached : report.stoppedEarly = false)
    (scope : MemoryScope) : errors (reportText report scope) = report.failures.map failureText := by
  have hsplit : reportText report scope =
      (report.failures.map fun failure => .err (failureText failure)) ++
        report.produced.flatMap (producedText scope) := by
    unfold reportText
    rw [reached]
    simp [failureText]
  have hfailures : errors (report.failures.map fun failure => .err (failureText failure)) =
      report.failures.map failureText := by
    simp [errors, List.filterMap_map]
  have hproduced := errors_flatMap (errors_producedText scope) report.produced
  rw [hsplit, errors_append, hfailures, hproduced, List.append_nil]

theorem complaints_error {said : List Said} {failures : List (Tree × EvalError)}
    (h : errors said = failures.map failureText) :
    complaints "error: " said = failures.map failureText := by
  unfold complaints
  rw [h, List.filter_eq_self]
  intro text htext
  obtain ⟨failure, _, rfl⟩ := List.mem_map.mp htext
  simp [failureText, String.toList_append]

theorem complaints_stopped {said : List Said} {failures : List (Tree × EvalError)}
    (h : errors said = failures.map failureText) : complaints "stopped after" said = [] := by
  unfold complaints
  rw [h, List.filter_eq_nil_iff]
  intro text htext
  obtain ⟨failure, _, rfl⟩ := List.mem_map.mp htext
  simp [failureText, String.toList_append]

theorem unhosted_of_buildScope {inv : Invocation} {scope : MemoryScope}
    (built : buildScope inv = .ok scope) : scope.Unhosted := by
  refine foldlM_keeps ?_ ⟨MemoryScope.wellFormed_of_no_fields rfl, rfl⟩ built
  intro scope argument after unhosted hstep
  obtain ⟨field, _, hstep⟩ := bind_eq_ok.mp hstep
  split at hstep
  · rename_i added
    cases hstep
    exact unhosted.addField added
  · cases hstep

section Feeding

variable {inv : Invocation} {source : String} {lines : List String} {trees : List Tree}
  {readings : List (List Tree)} {scope after : MemoryScope} {report : Report}

/-- What was fed came to this run: its failures are on standard error, and its scope is left. -/
structure Shows (report : Report) (after : MemoryScope) (fed : List Said × MemoryScope) : Prop where
  failures : errors fed.1 = report.failures.map failureText
  scope : fed.2 = after

theorem shows_interpret {engine : Engine}
    (read : Parse.script source engine.parseMaxDepth = .ok trees)
    (ran : Runs engine.runOptions trees scope report after)
    (reached : report.stoppedEarly = false) :
    Shows report after (interpret engine scope source) := by
  have hcompile : engine.compile source = .ok ⟨trees, engine.runOptions⟩ :=
    Engine.compileWith_eq_ok.mpr ⟨read, rfl⟩
  have hrun : (Script.mk trees engine.runOptions).run scope = (report, after) := runs_iff.mp ran
  simp only [interpret, hcompile, hrun]
  exact ⟨errors_reportText reached after, rfl⟩

theorem shows_feed (read : Parse.script source Parse.defaultMaxDepth = .ok trees)
    (ran : Runs inv.engine.runOptions trees scope report after)
    (reached : report.stoppedEarly = false) : Shows report after (feed inv scope source) := by
  have hbare : Shows report after (interpret inv.engine scope source) :=
    shows_interpret read ran reached
  unfold feed
  split
  · unfold interpretShown
    rw [read]
    exact ⟨hbare.failures, hbare.scope⟩
  · exact hbare

theorem failures_append (first later : Report) :
    Report.failures ⟨first.entries ++ later.entries, later.stoppedEarly⟩ =
      first.failures ++ later.failures :=
  List.filterMap_append

theorem Shows.cons {first later : Report} {middle : MemoryScope}
    (h : Shows first middle (feed inv scope source))
    (others : Shows later after (feedAll inv middle lines)) :
    Shows ⟨first.entries ++ later.entries, later.stoppedEarly⟩ after
      (feedAll inv scope (source :: lines)) := by
  have hcons : feedAll inv scope (source :: lines) =
      ((feed inv scope source).1 ++ (feedAll inv (feed inv scope source).2 lines).1,
        (feedAll inv (feed inv scope source).2 lines).2) := rfl
  rw [hcons, h.scope]
  refine ⟨?_, others.scope⟩
  rw [errors_append, h.failures, others.failures, failures_append, List.map_append]

theorem defaultMaxDepth_lt (inv : Invocation) :
    Parse.defaultMaxDepth < inv.engine.runOptions.maxDepth := by
  simp [Parse.defaultMaxDepth, Invocation.engine, RunOptions.default]

theorem exists_shows_feedAll (goesOn : inv.stopOnError = false) (unhosted : scope.Unhosted)
    (unmarked : ∀ line ∈ lines, '#' ∉ line.toList)
    (read : lines.mapM (fun line => Parse.script line Parse.defaultMaxDepth) = .ok readings) :
    ∃ report after, Runs inv.engine.runOptions readings.flatten scope report after ∧
      report.stoppedEarly = false ∧ Shows report after (feedAll inv scope lines) := by
  induction lines generalizing readings scope with
  | nil =>
    cases read
    exact ⟨⟨[], false⟩, scope, .done scope, rfl, rfl, rfl⟩
  | cons line rest ih =>
    obtain ⟨trees, others, hline, hrest, rfl⟩ := mapM_cons_eq_ok.mp read
    obtain ⟨hmark, hmarks⟩ := List.forall_mem_cons.mp unmarked
    have shallow (tree : Tree) (htree : tree ∈ trees) :
        tree.callDepth < inv.engine.runOptions.maxDepth :=
      Nat.lt_of_le_of_lt (Parse.callDepth_le_of_unmarked hmark hline tree htree)
        (defaultMaxDepth_lt inv)
    have ran := runs_runStatements inv.engine.runOptions trees scope
    obtain ⟨goes, unhosted'⟩ := ran.goes_of_unhosted unhosted goesOn shallow
    have hfed : Shows _ _ (feed inv scope line) := shows_feed hline ran (ran.stoppedEarly_of_goes goes)
    obtain ⟨later, after, hlater, hreached, hothers⟩ := ih unhosted' hmarks hrest
    exact ⟨_, after, ran.append_of_goes hlater goes, hreached, hfed.cons hothers⟩

structure Invocation.ReadsInput (inv : Invocation) : Prop where
  goesOn : inv.stopOnError = false
  runs : inv.listFunctions = false
  noFile : inv.file = none
  noScript : inv.script = none

def Invocation.withScript (inv : Invocation) (script : String) : Invocation :=
  { inv with script := some script }

theorem run_input (runs : inv.listFunctions = false) (noFile : inv.file = none)
    (noScript : inv.script = none) (built : buildScope inv = .ok scope) (input : String) :
    run inv none input = ⟨0, (feedAll inv scope (inputLines input)).1⟩ := by
  simp [run, runs, noFile, noScript, built]

theorem run_script (runs : inv.listFunctions = false) (noFile : inv.file = none)
    (given : inv.script = some source) (built : buildScope inv = .ok scope) (input : String) :
    run inv none input = ⟨0, (feed inv scope source).1⟩ := by
  simp [run, runs, noFile, given, built]

/-- The two ways to feed a script agree. Lines without comments that are accepted one by one leave the
same scope and fail in the same way whether they are piped or given as one script with separators
between them, and neither run stops early. -/
theorem piped_eq_joined {input : String} (reads : inv.ReadsInput)
    (built : buildScope inv = .ok scope) (whole : ∀ line ∈ lines, '\n' ∉ line.toList)
    (given : input = piped lines ∨ inputLines input = lines)
    (unmarked : ∀ line ∈ lines, '#' ∉ line.toList)
    (compiles : ∀ line ∈ lines, ∃ script, inv.engine.compile line = .ok script) :
    ∃ said said' after,
      run inv none input = ⟨0, said⟩ ∧ feedAll inv scope (inputLines input) = (said, after) ∧
      (∀ unread, run (inv.withScript (";".intercalate lines)) none unread = ⟨0, said'⟩) ∧
      feed (inv.withScript (";".intercalate lines)) scope (";".intercalate lines) =
        (said', after) ∧
      complaints "error: " said = complaints "error: " said' ∧
      complaints "stopped after" said = [] ∧ complaints "stopped after" said' = [] := by
  have parses (line : String) (hline : line ∈ lines) :
      ∃ trees, Parse.script line Parse.defaultMaxDepth = .ok trees := by
    obtain ⟨script, hcompile⟩ := compiles line hline
    exact ⟨script.statements, (Engine.compileWith_eq_ok.mp hcompile).1⟩
  obtain ⟨readings, read⟩ := exists_mapM parses
  have hfed : (∀ line ∈ inputLines input, '#' ∉ line.toList) ∧
      (inputLines input).mapM (fun line => Parse.script line Parse.defaultMaxDepth) =
        .ok readings := by
    rcases given with rfl | hinput
    · rw [inputLines_piped whole]
      exact ⟨mark_not_mem_chomp unmarked, mapM_chomp unmarked read⟩
    · rw [hinput]
      exact ⟨unmarked, read⟩
  obtain ⟨report, after, ran, reached, hlines⟩ :=
    exists_shows_feedAll reads.goesOn (unhosted_of_buildScope built) hfed.1 hfed.2
  have hjoined : Shows report after
      (feed (inv.withScript (";".intercalate lines)) scope (";".intercalate lines)) :=
    shows_feed (Parse.script_intercalate unmarked read) ran reached
  refine ⟨_, _, after, run_input reads.runs reads.noFile reads.noScript built input,
    Prod.ext rfl hlines.scope, run_script reads.runs reads.noFile rfl built, Prod.ext rfl hjoined.scope, ?_,
    complaints_stopped hlines.failures, complaints_stopped hjoined.failures⟩
  rw [complaints_error hlines.failures, complaints_error hjoined.failures]

end Feeding

def onePair : Invocation := { Invocation.empty with fields := ["A=1,2"] }

/-- `B` is read before there is one, and again after. -/
def outOfOrder : List String := ["C = B;", "B = A", "", "C = B"]

theorem outOfOrder_agrees :
    ∃ said said' after,
      (onePair.ReadsInput ∧ buildScope onePair = .ok Statement.twoPoints ∧
        (∀ line ∈ outOfOrder, '\n' ∉ line.toList) ∧ (∀ line ∈ outOfOrder, '#' ∉ line.toList) ∧
        ∀ line ∈ outOfOrder, ∃ script, onePair.engine.compile line = .ok script) ∧
      run onePair none "C = B;\nB = A\n\nC = B\n" = ⟨0, said⟩ ∧
      feedAll onePair Statement.twoPoints (inputLines "C = B;\nB = A\n\nC = B\n") =
        (said, after) ∧
      feed (onePair.withScript "C = B;;B = A;;C = B") Statement.twoPoints "C = B;;B = A;;C = B" =
        (said', after) ∧
      complaints "error: " said = ["error: C = B: Field 'B' does not exist in this scope\n"] ∧
      complaints "error: " said' = ["error: C = B: Field 'B' does not exist in this scope\n"] ∧
      complaints "stopped after" said' = [] := by
  have reads : onePair.ReadsInput := ⟨rfl, rfl, rfl, rfl⟩
  have built : buildScope onePair = .ok Statement.twoPoints := by with_unfolding_all rfl
  have whole : ∀ line ∈ outOfOrder, '\n' ∉ line.toList := by decide
  have unmarked : ∀ line ∈ outOfOrder, '#' ∉ line.toList := by decide
  have compiles : ∀ line ∈ outOfOrder, ∃ script, onePair.engine.compile line = .ok script := by
    simp only [outOfOrder, List.forall_mem_cons]
    exact ⟨⟨_, rfl⟩, ⟨_, rfl⟩, ⟨_, rfl⟩, ⟨_, rfl⟩, by simp⟩
  obtain ⟨said, said', after, hrun, hlines, -, hjoined, hsame, -, hreached⟩ :=
    piped_eq_joined reads built whole (.inl rfl) unmarked compiles
  have hsaid : complaints "error: "
      (feedAll onePair Statement.twoPoints (inputLines (piped outOfOrder))).1 =
        ["error: C = B: Field 'B' does not exist in this scope\n"] := by decide +kernel
  rw [hlines] at hsaid
  exact ⟨said, said', after, ⟨reads, built, whole, unmarked, compiles⟩, hrun, hlines, hjoined, hsaid,
    hsame ▸ hsaid, hreached⟩

end CommandLine

end FieldScript
