import FieldScript.Proofs.Parse.Failing
import FieldScript.Proofs.Parse.Rebuilding

/-! Scripts in two stages. The phrases of a statement are built to what the grammar reads as one, so a
script that is read in two stages gives the trees and the errors that it gives in one. -/
namespace FieldScript.Building

open Outcome FieldScript.Parser FieldScript.Phrases FieldScript.Source

variable {source : String} {phrase : Phrase}

def Assigns (source : String) (parts : Leaf × Checked Tree) (phrases : List Phrase) : Prop :=
  ∃ phrase built, phrases = [phrase] ∧ phrase.rule = .assignment ∧
    assignment source phrase = (do return (parts.1, ← built)) ∧ Rebuilds source built parts.2

theorem assignment_eq {target result : Phrase} (h : phrase.inside = [target, result]) :
    assignment source phrase = (do return (.variable target.text, ← value source result)) := by
  simp only [assignment, h, next_cons, pure_bind]
  cases hvalue : value source result with
  | error e => rfl
  | ok tree =>
    have hassign : Tree.buildAssign (.variable target.text) tree =
        .ok (.assign (.variable target.text) tree) := by
      simp [Tree.buildAssign, Leaf.isVariable, isStatement_value hvalue]
    simp only [bind, Except.bind, hassign]

section Statements

variable {inner : Parser (Checked Tree)} {inner' : Parser (List Phrase)}
  (h : Mirrors source.toList (fun part phrases _ => Values source part phrases) inner inner')

include h

theorem mirrors_assignment :
    Mirrors source.toList (fun parts phrases _ => Assigns source parts phrases)
      (Grammar.assignment inner) (Phrases.assignment inner') := by
  have hparts : Mirrors source.toList (fun parts inside _ => ∃ target result,
      inside = [target, result] ∧ parts.1 = .variable target.text ∧
        Rebuilds source (value source result) parts.2)
      (do
        let target ← Grammar.nameText
        skip
        symbol "="
        skip
        let value ← inner
        return (Leaf.variable target, value))
      (do
        let target ← name
        skip
        symbol "="
        skip
        let value ← inner'
        return target ++ value) := by
    refine mirrors_nameText.bind fun _ _ _ htarget => mirrors_skip.bind fun _ _ _ _ =>
      (mirrors_symbol "=").bind fun _ _ _ _ => mirrors_skip.bind fun _ _ _ _ =>
        h.map fun _ _ _ hvalue => ?_
    obtain ⟨target, rfl, _, rfl, _⟩ := htarget
    obtain ⟨result, rfl, hresult⟩ := hvalue
    exact ⟨target, result, rfl, rfl, hresult⟩
  refine (mirrors_phrase hparts).mono fun parts _ _ hphrase => ?_
  obtain ⟨phrase, rfl, hmarks, target, result, hinside, htarget, hresult⟩ := hphrase
  refine ⟨phrase, value source result, rfl, hmarks.rule, ?_, hresult⟩
  rw [assignment_eq hinside, htarget]

theorem mirrors_elseBranch :
    Mirrors source.toList (fun parts phrases _ => ∃ word branch, phrases = word :: branch ∧
      word.rule = .elseWord ∧ Assigns source parts branch)
      (Grammar.elseBranch inner) (elseBranch inner') := by
  refine mirrors_skip.bind fun _ _ _ _ => (mirrors_keyword _ _).bind fun _ _ _ hword =>
    mirrors_skip.bind fun _ _ _ _ => (mirrors_assignment h).map_right fun _ branch _ hbranch => ?_
  obtain ⟨word, rfl, hrule⟩ := hword
  exact ⟨word, branch, rfl, hrule, hbranch⟩

omit h in
theorem gather_word {found : Gathered} (h : phrase.rule ∈ [.ifWord, .thenWord, .elseWord]) :
    gather source found phrase = .ok found := by
  simp only [List.mem_cons, List.not_mem_nil, or_false] at h
  rcases h with h | h | h <;> simp only [gather, h] <;> rfl

omit h in
theorem gather_tests {found : Gathered} (h : phrase.rule = .tests) :
    gather source found phrase =
      (do return { found with test := some (← tests source phrase) }) := by
  simp only [gather, h]

omit h in
theorem gather_assignment {found : Gathered} (h : phrase.rule = .assignment) :
    gather source found phrase =
      (do return { found with branches := found.branches ++ [← assignment source phrase] }) := by
  simp only [gather, h]

omit h in
theorem gather_conditional {ifWord test thenWord branch : Phrase} {others : List Phrase}
    (hif : ifWord.rule = .ifWord) (htest : test.rule = .tests) (hthen : thenWord.rule = .thenWord)
    (hbranch : branch.rule = .assignment) :
    (ifWord :: test :: thenWord :: branch :: others).foldlM (gather source) ⟨none, []⟩ = (do
      let chain ← tests source test
      let first ← assignment source branch
      others.foldlM (gather source) ⟨some chain, [first]⟩) := by
  have hwords (found : Gathered) : gather source found ifWord = pure found ∧
      gather source found thenWord = pure found :=
    ⟨gather_word (by simp [hif]), gather_word (by simp [hthen])⟩
  simp only [List.foldlM_cons, (hwords _).1, (hwords _).2, gather_tests htest,
    gather_assignment hbranch, bind_assoc, pure_bind, List.nil_append]

omit h in
theorem conditional_guarded {ifWord test thenWord branch : Phrase}
    (h : phrase.inside = [ifWord, test, thenWord, branch]) (hif : ifWord.rule = .ifWord)
    (htest : test.rule = .tests) (hthen : thenWord.rule = .thenWord)
    (hbranch : branch.rule = .assignment) : conditional source phrase = (do
      let chain ← tests source test
      let first ← assignment source branch
      pure (.guarded chain first.1 first.2)) := by
  unfold conditional
  simp only [h, gather_conditional hif htest hthen hbranch, List.foldlM_nil, bind_assoc, pure_bind]

omit h in
theorem conditional_branched {ifWord test thenWord branch elseWord branch' : Phrase}
    (h : phrase.inside = [ifWord, test, thenWord, branch, elseWord, branch'])
    (hif : ifWord.rule = .ifWord) (htest : test.rule = .tests)
    (hthen : thenWord.rule = .thenWord) (hbranch : branch.rule = .assignment)
    (helse : elseWord.rule = .elseWord) (hbranch' : branch'.rule = .assignment) :
    conditional source phrase = (do
      let chain ← tests source test
      let first ← assignment source branch
      let other ← assignment source branch'
      pure (.branched chain first.1 first.2 other.1 other.2)) := by
  have hword (found : Gathered) : gather source found elseWord = pure found :=
    gather_word (by simp [helse])
  unfold conditional
  simp only [h, gather_conditional hif htest hthen hbranch, List.foldlM_cons, List.foldlM_nil,
    hword, gather_assignment hbranch', bind_assoc, pure_bind, List.singleton_append]

theorem mirrors_conditional :
    Mirrors source.toList
      (fun part phrases _ => Forms source [.conditional] (conditional source) part phrases)
      (Grammar.conditional inner) (Phrases.conditional inner') := by
  have hother := (mirrors_elseBranch h).optional
    (S := fun other phrases _ => (other = none ∧ phrases = none) ∨ ∃ parts word branch,
      other = some parts ∧ phrases = some (word :: branch) ∧ word.rule = .elseWord ∧
        Assigns source parts branch)
    (.inl ⟨rfl, rfl⟩) fun parts _ _ ⟨word, branch, hphrases, hrule, hbranch⟩ =>
      .inr ⟨parts, word, branch, rfl, congrArg some hphrases, hrule, hbranch⟩
  rw [Grammar.conditional_eq]
  refine mirrors_forms ((mirrors_keyword _ _).bind fun _ _ _ hif => mirrors_skip.bind fun _ _ _ _ =>
    (mirrors_symbol "(").bind fun _ _ _ _ => mirrors_skip.bind fun _ _ _ _ =>
      mirrors_tests.bind fun test _ _ htest => mirrors_skip.bind fun _ _ _ _ =>
        (mirrors_symbol ")").bind fun _ _ _ _ => mirrors_skip.bind fun _ _ _ _ =>
          (mirrors_keyword _ _).bind fun _ _ _ hthen => mirrors_skip.bind fun _ _ _ _ =>
            (mirrors_assignment h).bind fun first _ _ hfirst =>
              hother.map fun other others _ hothers phrase _ hinside => ?_)
  obtain ⟨ifWord, rfl, hif⟩ := hif
  obtain ⟨testPhrase, rfl, htestRule, htest⟩ := htest
  obtain ⟨thenWord, rfl, hthen⟩ := hthen
  obtain ⟨branch, built, rfl, hbranch, hassign, hresult⟩ := hfirst
  have htests := List.mem_singleton.mp htestRule
  rcases hothers with ⟨rfl, rfl⟩ | ⟨parts, elseWord, phrases, rfl, rfl, helse, hsecond⟩
  · rw [conditional_guarded hinside hif htests hthen hbranch, hassign]
    simp only [Grammar.branches, bind_assoc, pure_bind]
    exact htest.bind fun _ _ => hresult.bind fun _ _ => .pure _
  · obtain ⟨branch', built', rfl, hbranch', hassign', hresult'⟩ := hsecond
    rw [conditional_branched hinside hif htests hthen hbranch helse hbranch', hassign, hassign']
    simp only [Grammar.branches, bind_assoc, pure_bind]
    exact htest.bind fun _ _ => hresult.bind fun _ _ => hresult'.bind fun _ _ => .pure _

omit h in
theorem statement_assignment {inner : Phrase} (h : phrase.inside = [inner])
    (hrule : inner.rule = .assignment) : statement source phrase = (do
      let parts ← assignment source inner
      pure (.assign parts.1 parts.2)) := by
  simp only [statement, h, next_cons, hrule, pure_bind]

omit h in
theorem statement_conditional {inner : Phrase} (h : phrase.inside = [inner])
    (hrule : inner.rule = .conditional) :
    statement source phrase = conditional source inner := by
  simp only [statement, h, next_cons, hrule, pure_bind]

theorem mirrors_statement :
    Mirrors source.toList
      (fun part phrases _ => Forms source [.statement] (statement source) part phrases)
      (Grammar.statement inner) (Phrases.statement inner') := by
  -- A conditional first: its first word is also a name, as that of an assignment is.
  refine mirrors_forms (((mirrors_conditional h).mono ?_).orElse
    ((mirrors_assignment h).map_left ?_))
  · rintro part _ _ ⟨phrase, rfl, hrule, hpart⟩ whole _ hinside
    rw [statement_conditional hinside (List.mem_singleton.mp hrule)]
    exact hpart
  · rintro parts _ _ ⟨phrase, built, rfl, hrule, hassign, hresult⟩ whole _ hinside
    rw [statement_assignment hinside hrule, hassign]
    simp only [bind_assoc, pure_bind]
    exact hresult.map

def Lists (source : String) (parts : List (Checked Tree)) (phrases : List Phrase) : Prop :=
  Rebuilds source (statements source phrases) (parts.mapM id)

omit h in
theorem lists_cons {part : Checked Tree} {parts : List (Checked Tree)}
    {first phrases : List Phrase} (h : Forms source [.statement] (statement source) part first)
    (h' : Lists source parts phrases) : Lists source (part :: parts) (first ++ phrases) := by
  obtain ⟨phrase, rfl, hrule, hphrase⟩ := h
  have hkept : (phrase :: phrases).filter (fun phrase => phrase.rule = .statement) =
      phrase :: phrases.filter fun phrase => phrase.rule = .statement :=
    List.filter_cons_of_pos (by simpa using hrule)
  rw [Lists, List.singleton_append, statements, hkept]
  exact hphrase.mapM_cons h'

omit h in
theorem lists_append_other {parts : List (Checked Tree)} {phrases : List Phrase}
    (h : Lists source parts phrases) (hrule : phrase.rule ≠ .statement) :
    Lists source parts (phrases ++ [phrase]) := by
  have hkept : (phrases ++ [phrase]).filter (fun phrase => phrase.rule = .statement) =
      phrases.filter fun phrase => phrase.rule = .statement := by
    simp [List.filter_append, hrule]
  rw [Lists, statements, hkept]
  exact h

omit h in
theorem mirrors_semicolon :
    Mirrors source.toList (fun _ _ _ => True) Grammar.semicolon Grammar.semicolon :=
  mirrors_skip.bind fun _ _ _ _ => (mirrors_symbol ";").mono fun _ _ _ _ => trivial

omit h in
theorem mirrors_semicolons :
    Mirrors source.toList (fun _ _ _ => True) Grammar.semicolon.many Grammar.semicolon.many :=
  mirrors_semicolon.many trivial fun _ _ _ _ _ _ _ _ => trivial

theorem mirrors_statements :
    Mirrors source.toList (fun parts phrases _ => Lists source parts phrases)
      (Grammar.statements inner) (Phrases.statements inner') := by
  have hseparators : Mirrors source.toList (fun _ _ _ => True) Grammar.semicolon.oneOrMore
      Grammar.semicolon.oneOrMore :=
    mirrors_semicolon.oneOrMore trivial fun _ _ _ _ _ _ _ _ => trivial
  have hnext : Mirrors source.toList
      (fun part phrases _ => Forms source [.statement] (statement source) part phrases)
      (Grammar.nextStatement inner) (nextStatement inner') :=
    hseparators.bind fun _ _ _ _ => mirrors_skip.bind fun _ _ _ _ => mirrors_statement h
  have hrest := hnext.many (S := fun parts rows _ => Lists source parts rows.flatten) (.pure _)
    fun _ _ _ _ _ _ => lists_cons
  exact mirrors_skip.bind fun _ _ _ _ => (mirrors_statement h).bind fun _ _ _ hfirst =>
    hrest.bind fun _ _ _ hrows => mirrors_semicolons.map fun _ _ _ _ => lists_cons hfirst hrows

theorem mirrors_script :
    Mirrors source.toList (fun parts phrases _ => ∃ whole, phrases = [whole] ∧
      Lists source parts whole.inside) (Grammar.script inner) (Phrases.script inner') := by
  have hread := (mirrors_statements h).optional
    (S := fun parts phrases _ => Lists source (parts.getD []) (phrases.getD []))
    (.pure _) fun _ _ _ hrow => hrow
  have hend : Mirrors source.toList
      (fun _ phrases _ => ∃ phrase, phrases = [phrase] ∧ phrase.rule = .endOfInput)
      Grammar.endOfInput endOfInput := by
    refine (mirrors_atom (mirrors_token (Q := fun _ => True) fun {cs piece rest} hend => ?_)).mono
      fun _ _ _ ⟨phrase, hphrase, hmarks, _⟩ => ⟨phrase, hphrase, hmarks.rule⟩
    unfold end? at hend
    split at hend
    · rename_i hempty
      cases hend
      exact ⟨(List.isEmpty_iff.mp hempty).symm, trivial⟩
    · cases hend
  rw [Grammar.script_eq]
  refine (mirrors_phrase (R := fun parts inside _ => Lists source parts inside)
    (mirrors_semicolons.bind fun _ _ _ _ => hread.bind fun _ _ _ hrow =>
      mirrors_skip.bind fun _ _ _ _ => hend.map fun _ _ _ hended => ?_)).mono
        fun _ _ _ ⟨whole, hwhole, _, hlists⟩ => ⟨whole, hwhole, hlists⟩
  obtain ⟨phrase, rfl, hrule⟩ := hended
  exact lists_append_other hrow (by simp [hrule])

end Statements

theorem checkNesting_eq {limit depth : Nat} (pos : Nat) (cs : List Char) (h : depth ≤ limit) :
    checkNesting source limit pos depth cs =
      match tooDeepFrom limit pos depth cs with
      | none => .ok ()
      | some span => .error ⟨.tooDeep (limit + 1) limit, source, span⟩ := by
  induction cs generalizing pos depth with
  | nil => rfl
  | cons c cs ih =>
    unfold checkNesting tooDeepFrom
    by_cases hopen : c = '('
    · subst hopen
      -- Up to here the depth has not passed the limit, so it passes it by one.
      by_cases hlimit : limit < depth + 1
      · obtain rfl : depth = limit := by omega
        simp only [if_true, hlimit]
      · simp only [if_true, hlimit, if_false]
        exact ih (pos + 1) (by omega)
    · by_cases hclose : c = ')'
      · subst hclose
        simp only [hopen, if_true, if_false]
        exact ih (pos + 1) (by omega)
      · simp only [hopen, hclose, if_false]
        exact ih (pos + c.utf8Size) h

theorem checkNesting_source (source : String) (maxDepth : Nat) :
    checkNesting source maxDepth 0 0 source.toList =
      match tooDeep maxDepth source.toList with
      | none => .ok ()
      | some span => .error ⟨.tooDeep (maxDepth + 1) maxDepth, source, span⟩ :=
  checkNesting_eq 0 source.toList (Nat.zero_le maxDepth)

/-- What the first stage leaves of a source, beside what the grammar reads of it. -/
theorem phrases_cases (source : String) :
    (∃ parts rest whole, (Parse.reader source.toList).parse source.toList = some (parts, rest) ∧
      phrases source = .ok [whole] ∧ Lists source parts whole.inside) ∨
    ((Parse.reader source.toList).parse source.toList = none ∧ phrases source = .error (.ofParse
      (Parse.syntaxError source
        ((Parse.reader source.toList).run source.toList (.start source.toList.length)).2))) := by
  have hmirrors : Mirrors source.toList (fun parts phrases _ => ∃ whole, phrases = [whole] ∧
      Lists source parts whole.inside) (Parse.reader source.toList) (reader source.toList) :=
    mirrors_script (mirrors_value (Parse.levels source.toList))
  have hparse := (Parse.reader source.toList).fst_run source.toList (.start source.toList.length)
  unfold phrases
  rcases (hmirrors source.toList (.start source.toList.length) (List.suffix_refl _)).forms with
    ⟨record, hparts, hphrases⟩ | ⟨parts, _, _, rest, record, hparts, hphrases, _, hread⟩
  · rw [hparts] at hparse ⊢
    rw [hphrases]
    exact .inr ⟨hparse.symm, rfl⟩
  · obtain ⟨whole, rfl, hlists⟩ := hread
    rw [hparts] at hparse
    rw [hphrases]
    exact .inl ⟨parts, rest, whole, hparse.symm, rfl, hlists⟩

/-- In two stages a script is read as in one. -/
theorem script_eq (source : String) (maxDepth : Nat) :
    script source maxDepth = (Parse.script source maxDepth).mapError .ofParse := by
  unfold script
  rw [checkNesting_source]
  cases hdeep : tooDeep maxDepth source.toList with
  | some span =>
    rw [Parse.script_of_tooDeep hdeep]
    rfl
  | none =>
    rcases phrases_cases source with
      ⟨parts, rest, whole, hparse, hphrases, hlists⟩ | ⟨hparse, hphrases⟩
    · rw [Parse.script_of_parse hdeep hparse, hphrases]
      exact hlists.same
    · rw [Parse.script_of_unread ⟨hdeep, hparse⟩, hphrases]
      rfl

end FieldScript.Building
