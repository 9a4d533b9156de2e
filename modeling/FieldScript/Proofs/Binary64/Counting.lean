import FieldScript.Binary64
import Mathlib.Algebra.Order.Floor.Semifield
import Mathlib.Data.Rat.Floor

/-! The number that a finite value stands for, and the count that a length is cut down to: its whole
part, as far as 64 bits reach. -/
namespace FieldScript.Binary64

variable {x : Binary64}

def toRat (x : Binary64) : ℚ :=
  (if x.negative then -1 else 1) * (x.significand * 2 ^ x.unit / 2 ^ 1074)

/-- The bits of the one are those of a positive number, so only positive numbers reach it. -/
theorem of_one_le (h : 1 ≤ x) : x.isNaN = false ∧ x.negative = false := by
  obtain ⟨_, hnan, hrank⟩ := h
  refine ⟨hnan, ?_⟩
  have hone : (1 : Binary64).rank = 0x3FF0000000000000 := by decide
  unfold rank at hrank hone
  rw [hone] at hrank
  split at hrank
  · omega
  · simpa using ‹¬x.negative = true›

theorem toRat_of_nonneg (h : x.negative = false) :
    x.toRat = ((x.significand * 2 ^ x.unit : ℕ) : ℚ) / ((2 ^ 1074 : ℕ) : ℚ) := by
  rw [toRat, if_neg (by simp [h]), one_mul, Nat.cast_mul, Nat.cast_pow, Nat.cast_pow,
    Nat.cast_ofNat]

theorem toRat_eq_natCast (h : x.negative = false) {n : ℕ}
    (scaled : x.significand * 2 ^ x.unit = 2 ^ 1074 * n) : x.toRat = n := by
  rw [toRat_of_nonneg h, scaled, Nat.cast_mul, mul_div_cancel_left₀ _ (by positivity)]

theorem floor_toRat (h : x.negative = false) :
    ⌊x.toRat⌋₊ = x.significand <<< x.unit >>> 1074 := by
  rw [toRat_of_nonneg h, Nat.floor_div_eq_div, Nat.shiftRight_eq_div_pow, Nat.shiftLeft_eq]

theorem truncate_of_one_le (h : 1 ≤ x) :
    x.truncate = if x.isFinite then Nat.min ⌊x.toRat⌋₊ largestCount else largestCount := by
  obtain ⟨hnan, hsign⟩ := of_one_le h
  unfold truncate
  rw [floor_toRat hsign, if_neg (by simp [hnan, hsign])]

theorem truncate_of_eq_natCast (h : 1 ≤ x) (finite : x.isFinite = true) {n : ℕ}
    (whole : x.toRat = n) : x.truncate = Nat.min n largestCount := by
  rw [truncate_of_one_le h, if_pos finite, whole, Nat.floor_natCast]

theorem truncate_le (x : Binary64) : x.truncate ≤ largestCount := by
  unfold truncate
  split
  · exact Nat.zero_le _
  · split
    · exact Nat.min_le_right _ _
    · exact Nat.le_refl _

end FieldScript.Binary64
