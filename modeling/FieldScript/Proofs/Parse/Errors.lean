import FieldScript.Proofs.Binary64.Reading
import FieldScript.Proofs.Parse.Stages
import FieldScript.Proofs.Source.Innermost

/-! What an error of a parse points at. Whichever of the three readers of the source raised it, its spans
lie in the source and cover what it is about. A script read in two stages has the same errors, so of
the refusals of the builder only that of a built-in's arguments is ever seen. -/
namespace FieldScript.Parse

open Source

variable {source : String} {maxDepth : Nat} {e : ParseError}

/-- A call from its word, that of an operator, to its last parenthesis. Its arguments are sound values,
but not such as the operator can use. -/
def RefusedCall (cause : EvalError) (text : List Char) : Prop :=
  ∃ (op : Builtin) (levels : Nat) (parts : List (Checked Tree)) (args : List Tree)
    (between after : List Char), text = op.keyword.toList ++ (between ++ [')']) ∧
      (Grammar.callParts (Grammar.argument levels)).parse (text ++ after) =
        some ((op.keyword, parts), after) ∧
      parts.mapM id = .ok args ∧ op.checkArgs args = .error cause

/-- What stands under the span of an error, and under that of the parenthesis it speaks of. -/
def PointsAt (source : List Char) (maxDepth : Nat) : BuildFault → List Char → Prop
  | .unexpected _ _, text => text = []
  | .unclosedParen opened, text => text = [] ∧ opened.Covers source ['(']
  | .invalidNumber label, text => text = label.toList ∧ IsNumber label ∧
      (Binary64.ofText? label = some .infinity ∨ Binary64.ofText? label = some .negInfinity)
  | .tooDeep depth limit, text => depth = maxDepth + 1 ∧ limit = maxDepth ∧ text = ['(']
  | .invalidStatement message, text => ∃ cause, message = cause.message ∧ RefusedCall cause text
  | .other _, _ => False

theorem covers_stuck (source : List Char) :
    (extentSpan source ⟨stuck source, stuck source⟩).Covers source [] :=
  covers_extentSpan (List.drop_suffix _ source) (List.nil_append _)

theorem pointsAt_of_faultAt {fault : Fault} (h : FaultAt source.toList fault) :
    ∃ text, (ofFault source fault).span.Covers source.toList text ∧
      PointsAt source.toList maxDepth (.ofParse (ofFault source fault).fault) text := by
  cases h with
  | @number label extent place number beyond =>
    exact ⟨label.toList, covers_extentSpan place.within place.read, rfl, number,
      Binary64.ofText?_infinite number beyond⟩
  | @call op levels parts args between cause extent place read sound refused =>
    rw [← place.read] at read
    exact ⟨_, covers_extentSpan place.within place.read, cause, rfl, op, levels, parts, args,
      between, extent.after, rfl, read, sound, refused⟩

theorem faultAt_of_faulty {parts : List (Checked Tree)} {rest : List Char} {fault : Fault}
    (read : (reader source.toList).parse source.toList = some (parts, rest))
    (faulty : parts.mapM id = .error fault) : FaultAt source.toList fault := by
  rcases Building.phrases_cases source with ⟨parts', rest', whole, hread, _, hlists⟩ | ⟨hnone, _⟩
  · rw [read] at hread
    cases hread
    exact hlists.located fault faulty
  · rw [read] at hnone
    cases hnone

theorem covers_of_fails (h : Fails source maxDepth e) :
    e.source = source ∧ ∃ text, e.span.Covers source.toList text ∧
      (e.fault.related ≠ [] → text = []) := by
  cases h with
  | deep deep => exact ⟨rfl, ['('], covers_of_tooDeep deep, fun h => absurd rfl h⟩
  | unclosed => exact ⟨rfl, [], covers_stuck _, fun _ => rfl⟩
  | unexpected => exact ⟨rfl, [], covers_stuck _, fun _ => rfl⟩
  | @faulty _ _ fault _ read faulty =>
    obtain ⟨text, hcovers, -⟩ :=
      @pointsAt_of_faultAt source maxDepth fault (faultAt_of_faulty read faulty)
    have hfault : (ofFault source fault).source = source ∧
        (ofFault source fault).fault.related = [] := by
      cases fault <;> exact ⟨rfl, rfl⟩
    exact ⟨hfault.1, text, hcovers, fun h => absurd hfault.2 h⟩

/-- An error of a script carries the source, its span covers what it is about, and reading in two
stages ends with the same error. -/
theorem script_error_points (h : script source maxDepth = .error e) :
    Building.script source maxDepth = .error (.ofParse e) ∧ e.source = source ∧
      ∃ text, e.span.Covers source.toList text ∧
        PointsAt source.toList maxDepth (.ofParse e.fault) text := by
  refine ⟨by rw [Building.script_eq, h]; rfl, ?_⟩
  cases fails_of_script h with
  | deep deep => exact ⟨rfl, ['('], covers_of_tooDeep deep, rfl, rfl, rfl⟩
  | unclosed unread unclosed =>
    exact ⟨rfl, [], covers_stuck _, rfl, covers_of_unclosedParen unclosed⟩
  | unexpected unread closed => exact ⟨rfl, [], covers_stuck _, rfl⟩
  | @faulty parts rest fault shallow read faulty =>
    refine ⟨by cases fault <;> rfl, pointsAt_of_faultAt ?_⟩
    rcases Building.phrases_cases source with ⟨parts', rest', whole, hread, _, hlists⟩ | ⟨hnone, _⟩
    · rw [read] at hread
      cases hread
      exact hlists.located fault faulty
    · rw [read] at hnone
      cases hnone

/-- An operator that wants two arguments and is given one, behind a comment of longer characters. -/
theorem script_error_points_min :
    ∃ e, (script "# é\nB = min(A)" defaultMaxDepth = .error e ∧ e.span = ⟨9, 15⟩ ∧ e.fault =
        .invalidCall (.badArguments "min" (.count "min(x1, x2, ...)" 1))) ∧
      Building.script "# é\nB = min(A)" defaultMaxDepth = .error (.ofParse e) ∧
      e.source = "# é\nB = min(A)" ∧ ∃ text, e.span.Covers "# é\nB = min(A)".toList text ∧
        PointsAt "# é\nB = min(A)".toList defaultMaxDepth (.ofParse e.fault) text :=
  ⟨_, ⟨rfl, rfl, rfl⟩, script_error_points rfl⟩

end FieldScript.Parse
