import FieldScript.Proofs.Parse.Comments
import FieldScript.Proofs.Tree.Calls

/-! What the limit on nesting is worth. The parentheses outside of comments nest exactly as deep as
the calls and tests of the script, but the limit is checked on a text with its comments, where a
closing parenthesis in a comment hides an open one. -/
namespace FieldScript

namespace Source

theorem nesting_eq_zero_iff {cs : List Char} : nesting cs = 0 ↔ '(' ∉ cs := by
  unfold nesting
  induction cs with
  | nil => simp [deepestFrom]
  | cons c cs ih =>
    rw [deepestFrom, List.mem_cons, not_or, ← ih]
    by_cases hopen : c = '('
    · have hle := le_deepestFrom (0 + 1) cs
      simp only [hopen, if_true, not_true_eq_false, false_and, iff_false]
      omega
    · by_cases hclose : c = ')'
      · simp [hclose]
      · simp [hopen, hclose, eq_comm]

end Source

namespace Parse

open Source FieldScript.Parser FieldScript.Tree

variable {source : String} {maxDepth : Nat} {trees : List Tree}

theorem rest_of_script {value : Parser (Checked Tree)} {cs rest : List Char}
    {parts : List (Checked Tree)} (h : (Grammar.script value).parse cs = some (parts, rest)) :
    rest = [] := by
  rw [Grammar.script_eq, parse_named] at h
  obtain ⟨_, _, _, h⟩ := bind_eq_some.mp h
  obtain ⟨_, _, _, h⟩ := bind_eq_some.mp h
  obtain ⟨_, _, _, h⟩ := bind_eq_some.mp h
  obtain ⟨_, after, hend, h⟩ := bind_eq_some.mp h
  cases h
  obtain ⟨_, _, hread, h⟩ := bind_eq_some.mp hend
  cases h
  have hempty : end? _ = some (_, rest) := hread
  unfold end? at hempty
  split at hempty
  · cases hempty
    rfl
  · cases hempty

theorem shows_of_script {levels : Nat} {cs rest : List Char} {parts : List (Checked Tree)}
    (unmarked : '#' ∉ cs)
    (h : (Grammar.script (Grammar.value levels)).parse cs = some (parts, rest)) :
    Grammar.Shows (deepest parenDepth) (parts.mapM id) cs := by
  obtain ⟨piece, hpiece, htaken⟩ := Grammar.takes_script (Grammar.takes_value _) _ _ _ unmarked h
  rw [rest_of_script h, List.append_nil] at hpiece
  rw [← hpiece]
  exact htaken

theorem nests_of_spells {cs : List Char} (unmarked : '#' ∉ cs) (h : Spells cs trees) :
    Nests (deepest parenDepth trees) cs := by
  obtain ⟨parts, rest, hread, htrees⟩ := h
  obtain ⟨height, hnests, hmeasure⟩ := shows_of_script unmarked hread
  rwa [hmeasure trees htrees] at hnests

theorem deepest_eq_nesting {cs : List Char} (h : Spells cs trees) :
    deepest parenDepth trees = nesting (withoutComments cs) := by
  have hbare := (spells_withoutComments cs).mpr h
  exact (nests_of_spells (mark_not_mem_withoutComments cs) hbare).nesting_eq.symm

theorem callDepth_le_of_unmarked (unmarked : '#' ∉ source.toList)
    (parsed : script source maxDepth = .ok trees) : ∀ tree ∈ trees, tree.callDepth ≤ maxDepth := by
  obtain ⟨hlimit, hspells⟩ := script_eq_ok.mp parsed
  rw [(nests_of_spells unmarked hspells).nesting_eq, deepest_le_iff] at hlimit
  exact fun tree htree => Nat.le_trans tree.callDepth_le_parenDepth (hlimit tree htree)

theorem callDepth_le_iff (parsed : script source maxDepth = .ok trees) :
    (∀ tree ∈ trees, tree.callDepth ≤ maxDepth) ↔
      nesting (withoutComments source.toList) ≤ maxDepth := by
  obtain ⟨hlimit, hspells⟩ := script_eq_ok.mp parsed
  have hdeepest := deepest_eq_nesting hspells
  rw [← hdeepest, deepest_le_iff]
  constructor
  · intro hcalls tree htree
    cases maxDepth with
    | zero =>
      have hnone : '(' ∉ source.toList := nesting_eq_zero_iff.mp (Nat.le_zero.mp hlimit)
      have hbare : '(' ∉ withoutComments source.toList := by
        have hcount := count_withoutCommentsFrom_le '(' false source.toList
        rw [List.count_eq_zero.mpr hnone] at hcount
        exact List.count_eq_zero.mp (Nat.le_zero.mp hcount)
      rw [nesting_eq_zero_iff.mpr hbare] at hdeepest
      exact deepest_le_iff.mp (Nat.le_of_eq hdeepest) tree htree
    | succ limit =>
      exact Nat.le_trans tree.parenDepth_le (Nat.max_le.mpr ⟨Nat.succ_pos limit, hcalls tree htree⟩)
  · exact fun hparens tree htree => Nat.le_trans tree.callDepth_le_parenDepth (hparens tree htree)

end Parse

end FieldScript
