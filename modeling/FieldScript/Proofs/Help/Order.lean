import FieldScript.Help
import Mathlib.Data.List.Nodup

/-! The order of help entries is a total order whose ties are equal entries: names that differ
only in case, and equal names with different descriptions, still have a first and a second. So
sorted help without repetition is strictly increasing, and the entries in it settle it. -/
namespace FieldScript.HelpEntry

variable {a b c : HelpEntry} {entries : List HelpEntry}

instance : Std.TransCmp compare :=
  inferInstanceAs <| Std.TransCmp <|
    compareLex (compareOn fun entry => entry.name.toList.map Char.toLower)
      (compareLex (compareOn name) (compareOn description))

theorem compare_eq_iff : a.compare b = .eq ↔ a = b := by
  simp only [compare, Ordering.then_eq_eq, Std.LawfulEqCmp.compare_eq_iff_eq]
  constructor
  · rintro ⟨-, hname, hdescription⟩
    exact congr (congrArg mk hname) hdescription
  · rintro rfl
    exact ⟨rfl, rfl, rfl⟩

theorem le_iff : a.le b = true ↔ a.compare b = .lt ∨ a = b := by
  rw [← compare_eq_iff, le]
  cases a.compare b <;> decide

theorem le_total : (a.le b || b.le a) = true := by
  simp only [le, Std.OrientedCmp.eq_swap (a := b) (b := a)]
  cases a.compare b <;> decide

theorem le_trans (hab : a.le b = true) (hbc : b.le c = true) : a.le c = true := by
  simp only [le, bne_iff_ne, Ordering.ne_gt_iff_isLE] at *
  exact Std.TransCmp.isLE_trans hab hbc

def Increasing (entries : List HelpEntry) : Prop := entries.Pairwise (compare · · = .lt)

theorem Increasing.nodup (increasing : Increasing entries) : entries.Nodup :=
  increasing.imp fun {a b} hab heq => by
    rw [compare_eq_iff.mpr heq] at hab
    cases hab

theorem increasing_sort (distinct : entries.Nodup) : Increasing (sort entries) := by
  have hsorted : (sort entries).Pairwise (fun a b => a.le b = true) := by
    apply List.pairwise_mergeSort
    · exact fun _ _ _ => le_trans
    · exact fun _ _ => le_total
  have hnodup : (sort entries).Nodup := (List.mergeSort_perm entries le).nodup_iff.mpr distinct
  refine (hsorted.and hnodup).imp fun {a b} ⟨hle, hne⟩ => ?_
  exact (le_iff.mp hle).resolve_right hne

end FieldScript.HelpEntry
