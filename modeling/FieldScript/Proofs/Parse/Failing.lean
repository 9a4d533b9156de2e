import FieldScript.Proofs.Parse.WellFormed

/-! The ways in which a text fails to be a script. Its parentheses nest too deep, the grammar does not
read it, with a parenthesis open or not, or there is a fault in what the grammar read. -/
namespace FieldScript.Parse

open Outcome Source

variable {source : String} {maxDepth : Nat} {e : ParseError}

def reader (source : List Char) : Parser (List (Checked Tree)) :=
  Grammar.script (Grammar.value (levels source))

def stuck (source : List Char) : List Char :=
  stuckAt source ((reader source).run source (.start source.length)).2

structure Unread (source : String) (maxDepth : Nat) : Prop where
  shallow : tooDeep maxDepth source.toList = none
  unread : (reader source.toList).parse source.toList = none

inductive Fails (source : String) (maxDepth : Nat) : ParseError → Prop
  | deep {span : Span} (deep : tooDeep maxDepth source.toList = some span) :
      Fails source maxDepth ⟨.tooDeep (maxDepth + 1) maxDepth, source, span⟩
  | unclosed {opened : Span} (unread : Unread source maxDepth)
      (unclosed : unclosedParen source.toList = some opened) :
      Fails source maxDepth ⟨.unclosedParen opened, source,
        extentSpan source.toList ⟨stuck source.toList, stuck source.toList⟩⟩
  | unexpected {rules : List Rule} {found : Option Char} (unread : Unread source maxDepth)
      (closed : unclosedParen source.toList = none) :
      Fails source maxDepth ⟨.unexpected rules found, source,
        extentSpan source.toList ⟨stuck source.toList, stuck source.toList⟩⟩
  | faulty {parts : List (Checked Tree)} {rest : List Char} {fault : Fault}
      (shallow : tooDeep maxDepth source.toList = none)
      (read : (reader source.toList).parse source.toList = some (parts, rest))
      (faulty : parts.mapM id = .error fault) : Fails source maxDepth (ofFault source fault)

theorem script_of_tooDeep {span : Span} (deep : tooDeep maxDepth source.toList = some span) :
    script source maxDepth = .error ⟨.tooDeep (maxDepth + 1) maxDepth, source, span⟩ := by
  have hread : read (fun n => Grammar.script (Grammar.value n)) source maxDepth =
      .error ⟨.tooDeep (maxDepth + 1) maxDepth, source, span⟩ := by
    simp only [read, deep]
  rw [script, hread]
  rfl

theorem script_of_unread (h : Unread source maxDepth) : script source maxDepth =
    .error (syntaxError source
      ((reader source.toList).run source.toList (.start source.toList.length)).2) := by
  obtain ⟨shallow, unread⟩ := h
  have hread : read (fun n => Grammar.script (Grammar.value n)) source maxDepth =
      .error (syntaxError source
        ((reader source.toList).run source.toList (.start source.toList.length)).2) := by
    rw [reader] at unread ⊢
    simp only [read, shallow, unread]
  rw [script, hread]
  rfl

theorem script_of_parse {parts : List (Checked Tree)} {rest : List Char}
    (shallow : tooDeep maxDepth source.toList = none)
    (parsed : (reader source.toList).parse source.toList = some (parts, rest)) :
    script source maxDepth = checked source (parts.mapM id) := by
  have hread : read (fun n => Grammar.script (Grammar.value n)) source maxDepth = .ok parts := by
    rw [reader] at parsed
    simp only [read, shallow, parsed]
  rw [script, hread]
  rfl

theorem fails_of_script (h : script source maxDepth = .error e) : Fails source maxDepth e := by
  cases hdeep : tooDeep maxDepth source.toList with
  | some span =>
    rw [script_of_tooDeep hdeep] at h
    cases h
    exact .deep hdeep
  | none =>
    cases hparse : (reader source.toList).parse source.toList with
    | none =>
      rw [script_of_unread ⟨hdeep, hparse⟩, syntaxError] at h
      cases hopen : unclosedParen source.toList with
      | some opened =>
        simp only [hopen] at h
        cases h
        exact .unclosed ⟨hdeep, hparse⟩ hopen
      | none =>
        simp only [hopen] at h
        cases h
        exact .unexpected ⟨hdeep, hparse⟩ hopen
    | some result =>
      rw [script_of_parse hdeep hparse] at h
      cases hparts : result.1.mapM id with
      | ok trees =>
        rw [hparts] at h
        cases h
      | error fault =>
        rw [hparts] at h
        cases h
        exact .faulty hdeep hparse hparts

end FieldScript.Parse
