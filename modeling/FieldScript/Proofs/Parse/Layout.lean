import FieldScript.Proofs.Grammar.Indistinct
import FieldScript.Proofs.Parse.WellFormed
import FieldScript.Proofs.Source.Layout

/-! Layout does not matter: a source without comments parses to the same statements however long its
runs of blanks are and whatever blanks they are made of. -/
namespace FieldScript.Parse

open Source

theorem indistinct_laidOutAlike : Grammar.IndistinctThroughout LaidOutAlike where
  alike := goOnAlike_laidOutAlike.mono fun _ => isGap_of_isSkipped
  blanks h := h.splitBlanks
  still h := h.still
  unmarked h := h.not_mem
  separated := goOnAlike_laidOutAlike

theorem spells_laidOutAlike {cs ds : List Char} {trees : List Tree} (h : LaidOutAlike cs ds) :
    Spells cs trees ↔ Spells ds trees :=
  indistinct_laidOutAlike.spelled_alike h (Nat.le_of_eq (h.1.count_eq (by decide)).symm)
    (Nat.le_refl _)

theorem script_laidOutAlike {source source' : String} {maxDepth : Nat} {trees : List Tree}
    (h : SameLayout source.toList source'.toList) (uncommented : '#' ∉ source.toList) :
    script source maxDepth = .ok trees ↔ script source' maxDepth = .ok trees := by
  have hnesting : nesting source.toList = nesting source'.toList := h.deepestFrom_eq 0
  rw [script_eq_ok, script_eq_ok, hnesting, spells_laidOutAlike ⟨h, uncommented⟩]

/-- The text with its runs of blanks replaced, the first by `fill 0`, the second by `fill 1` and so
on. -/
def relaid (fill : Nat → List Char) (source : String) : String :=
  String.ofList (refilled fill source.toList)

/-- A source without comments is accepted with the same statements, whatever its runs of blanks are
replaced by. -/
theorem script_relaid (source : String) (fill : Nat → List Char) (maxDepth : Nat)
    (trees : List Tree) (runs : ∀ n, IsRun (fill n)) (uncommented : '#' ∉ source.toList) :
    script (relaid fill source) maxDepth = .ok trees ↔ script source maxDepth = .ok trees := by
  have hlayout : SameLayout source.toList (relaid fill source).toList := by
    rw [relaid, String.toList_ofList]
    exact sameLayout_refilled runs source.toList
  exact (script_laidOutAlike hlayout uncommented).symm

theorem statements_relaid :
    relaid (fun n => if n = 1 then [' ', '\t'] else ['\n']) "A  = 1.50; B = A" =
        "A\n= \t1.50;\nB\n=\nA" ∧
      script "A\n= \t1.50;\nB\n=\nA" 0 =
        .ok [.assign (.variable "A") (.leaf (.number "1.50" ⟨0x3FF8000000000000⟩)),
          .assign (.variable "B") (.leaf (.variable "A"))] := by
  have htext : relaid (fun n => if n = 1 then [' ', '\t'] else ['\n']) "A  = 1.50; B = A" =
      "A\n= \t1.50;\nB\n=\nA" := by rfl
  have hruns : ∀ n, IsRun (if n = 1 then [' ', '\t'] else ['\n']) := by
    intro n
    split
    · exact ⟨by decide, by simp [isBlank]⟩
    · exact ⟨by decide, by simp [isBlank]⟩
  refine ⟨htext, ?_⟩
  rw [← htext]
  exact (script_relaid "A  = 1.50; B = A" _ 0 _ hruns (by decide)).mpr (by rfl)

end FieldScript.Parse
