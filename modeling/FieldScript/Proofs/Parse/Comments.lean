import FieldScript.Proofs.Grammar.Indistinct
import FieldScript.Proofs.Parse.WellFormed
import FieldScript.Proofs.Source.Comments

/-! What a comment can change. The grammar reads the same statements with the comments as without
them, but the nesting of a source is measured before comments are known, so a parenthesis in a
comment can have a script refused, or let in one that nests too deep. -/
namespace FieldScript.Parse

open Source FieldScript.Parser

def uncommented (source : String) : String := String.ofList (withoutComments source.toList)

variable {trees : List Tree}

theorem indistinct_withoutComments :
    Grammar.IndistinctThroughout fun cs ds => ds = withoutComments cs where
  alike := goOnAlike_withoutComments.mono fun _ => isGap_of_isSkipped
  blanks h := h ▸ splitBlanks_withoutCommentsFrom false _
  still := by
    rintro cs _ rfl hstill
    exact (splitBlanks_withoutCommentsFrom false cs).trans (congrArg withoutComments hstill)
  unmarked h := h ▸ mark_not_mem_withoutComments _
  separated := goOnAlike_withoutComments

theorem spells_withoutComments (cs : List Char) :
    Spells (withoutComments cs) trees ↔ Spells cs trees :=
  (indistinct_withoutComments.spelled_alike rfl (count_withoutCommentsFrom_le '(' false cs)
    (Nat.le_refl _)).symm

/-- Only the limit on nesting tells a source from the source without its comments: it counts the
parentheses in comments too. Where these hold no closing one, dropping them keeps what is accepted;
where they hold no opening one, putting them back does. -/
theorem script_uncommented (source : String) (maxDepth : Nat) (trees : List Tree) :
    (script source maxDepth = .ok trees ↔
      nesting source.toList ≤ maxDepth ∧ ∃ limit, script (uncommented source) limit = .ok trees) ∧
    (CommentsLack ')' source.toList → script source maxDepth = .ok trees →
      script (uncommented source) maxDepth = .ok trees) ∧
    (CommentsLack '(' source.toList → script (uncommented source) maxDepth = .ok trees →
      script source maxDepth = .ok trees) := by
  have hbare (limit : Nat) : script (uncommented source) limit = .ok trees ↔
      nesting (withoutComments source.toList) ≤ limit ∧ Spells source.toList trees := by
    rw [script_eq_ok, uncommented, String.toList_ofList, spells_withoutComments]
  refine ⟨?_, fun hlack haccepted => ?_, fun hlack haccepted => ?_⟩
  · rw [script_eq_ok]
    constructor
    · rintro ⟨hdepth, hspells⟩
      exact ⟨hdepth, _, (hbare _).mpr ⟨Nat.le_refl _, hspells⟩⟩
    · rintro ⟨hdepth, limit, haccepted⟩
      exact ⟨hdepth, ((hbare limit).mp haccepted).2⟩
  · obtain ⟨hdepth, hspells⟩ := script_eq_ok.mp haccepted
    exact (hbare maxDepth).mpr ⟨Nat.le_trans (nesting_withoutComments_le hlack) hdepth, hspells⟩
  · obtain ⟨hdepth, hspells⟩ := (hbare maxDepth).mp haccepted
    exact script_eq_ok.mpr ⟨Nat.le_trans (nesting_le_withoutComments hlack) hdepth, hspells⟩

/-- The same remark in parentheses has the statement refused. -/
theorem remark_accepted :
    script "A = B # or C" 0 = .ok [.assign (.variable "A") (.leaf (.variable "B"))] ∧
      ∀ trees, script "A = B # (or C)" 0 ≠ .ok trees := by
  constructor
  · have hlack : CommentsLack '(' "A = B # or C".toList := by decide +kernel
    exact (script_uncommented "A = B # or C" 0 _).2.2 hlack (by rfl)
  · intro trees haccepted
    have hdepth := ((script_uncommented "A = B # (or C)" 0 trees).1.mp haccepted).1
    exact absurd hdepth (by decide +kernel)

end FieldScript.Parse
