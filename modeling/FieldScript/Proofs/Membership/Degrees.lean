import FieldScript.Proofs.Membership.Checked
import FieldScript.Proofs.Membership.Trapezoid
import Mathlib.Algebra.Order.Field.Basic
import Mathlib.Order.Interval.Set.Defs
import Mathlib.Tactic.Linarith
import Mathlib.Tactic.Ring

/-! Degrees of membership over exact numbers, with the corners of a shape in any order. A side is only
climbed strictly between its ends, so the width that is divided by is positive where it is reached. All
values are degrees, from 0 to 1, and an S-shape never falls. -/
namespace FieldScript.Membership

open Checked (number)

variable {x s t a b : ℚ}

theorem trapezoid_checked (x a b c d : ℚ) :
    trapezoid (number x) (number a) (number b) (number c) (number d) =
      number (trapezoid x a b c d) := by
  simp only [trapezoid, Checked.number_le, Checked.number_lt, Checked.number_sub,
    Checked.number_ofNat]
  split_ifs with houtside hplateau hrising
  · rfl
  · rfl
  · have hl : a < x := not_le.mp fun h => houtside (.inl h)
    exact Checked.number_div (sub_ne_zero.mpr (hl.trans hrising).ne')
  · have hr : x < d := not_le.mp fun h => houtside (.inr h)
    have hc : c < x := not_le.mp fun h => hplateau ⟨not_lt.mp hrising, h⟩
    exact Checked.number_div (sub_ne_zero.mpr (hc.trans hr).ne')

theorem sShape_checked (x a b : ℚ) :
    sShape (number x) (number a) (number b) = number (sShape x a b) := by
  simp only [sShape, Checked.number_le, Checked.number_sub, Checked.number_add,
    Checked.number_ofNat, Checked.number_div two_ne_zero]
  by_cases hl : x ≤ a
  · simp only [if_pos hl]
  · by_cases hr : b ≤ x
    · simp only [if_neg hl, if_pos hr]
    · have hwidth : b - a ≠ 0 := sub_ne_zero.mpr ((not_le.mp hl).trans (not_le.mp hr)).ne'
      simp only [if_neg hl, if_neg hr, Checked.number_div hwidth, Checked.number_mul,
        Checked.number_sub, apply_ite number]

theorem progress_mem_Icc (hl : a ≤ x) (hr : x ≤ b) (h : a < b) :
    (x - a) / (b - a) ∈ Set.Icc 0 1 :=
  have hwidth : 0 < b - a := sub_pos.mpr h
  ⟨div_nonneg (sub_nonneg.mpr hl) hwidth.le,
    (div_le_one hwidth).mpr (sub_le_sub_right hr a)⟩

theorem trapezoid_mem_Icc (x a b c d : ℚ) : trapezoid x a b c d ∈ Set.Icc 0 1 := by
  rw [trapezoid]
  split_ifs with houtside hplateau hrising
  · exact ⟨le_rfl, zero_le_one⟩
  · exact ⟨zero_le_one, le_rfl⟩
  · have hl : a < x := not_le.mp fun h => houtside (.inl h)
    exact progress_mem_Icc hl.le hrising.le (hl.trans hrising)
  · have hr : x < d := not_le.mp fun h => houtside (.inr h)
    have hc : c < x := not_le.mp fun h => hplateau ⟨not_lt.mp hrising, h⟩
    have hrest : (d - x) / (d - c) = 1 - (x - c) / (d - c) := by
      rw [eq_sub_iff_add_eq, ← add_div, sub_add_sub_cancel,
        div_self (sub_ne_zero.mpr (hc.trans hr).ne')]
    obtain ⟨hlow, hhigh⟩ := progress_mem_Icc hc.le hr.le (hc.trans hr)
    rw [hrest]
    exact ⟨sub_nonneg.mpr hhigh, sub_le_self 1 hlow⟩

def curve (t : ℚ) : ℚ :=
  if t ≤ 1 / 2 then 2 * t * t else 1 - 2 * (t - 1) * (t - 1)

theorem curve_zero : curve 0 = 0 := by
  norm_num [curve]

theorem curve_one : curve 1 = 1 := by
  norm_num [curve]

theorem curve_le_half (h₀ : 0 ≤ t) (h : t ≤ 1 / 2) : curve t ≤ 1 / 2 := by
  rw [curve, if_pos h]
  calc 2 * t * t ≤ 2 * (1 / 2) * (1 / 2) := by gcongr
    _ = 1 / 2 := by norm_num

theorem half_le_curve (h : 1 / 2 < t) (h₁ : t ≤ 1) : 1 / 2 ≤ curve t := by
  have hrest : 1 - t ≤ 1 / 2 := by linarith
  have hrest₀ : 0 ≤ 1 - t := sub_nonneg.mpr h₁
  rw [curve, if_neg h.not_ge]
  calc (1 / 2 : ℚ) = 1 - 2 * (1 / 2) * (1 / 2) := by norm_num
    _ ≤ 1 - 2 * (1 - t) * (1 - t) := by gcongr
    _ = 1 - 2 * (t - 1) * (t - 1) := by ring

theorem curve_le_curve (h₀ : 0 ≤ s) (h : s ≤ t) (h₁ : t ≤ 1) : curve s ≤ curve t := by
  by_cases ht : t ≤ 1 / 2
  · have ht₀ : 0 ≤ t := h₀.trans h
    rw [curve, curve, if_pos (h.trans ht), if_pos ht]
    gcongr
  · by_cases hs : s ≤ 1 / 2
    · exact (curve_le_half h₀ hs).trans (half_le_curve (not_le.mp ht) h₁)
    · have hrest₀ : 0 ≤ 1 - t := sub_nonneg.mpr h₁
      have hrests : 0 ≤ 1 - s := sub_nonneg.mpr (h.trans h₁)
      rw [curve, curve, if_neg hs, if_neg ht]
      calc 1 - 2 * (s - 1) * (s - 1) = 1 - 2 * (1 - s) * (1 - s) := by ring
        _ ≤ 1 - 2 * (1 - t) * (1 - t) := by gcongr
        _ = 1 - 2 * (t - 1) * (t - 1) := by ring

theorem curve_mem_Icc (h : t ∈ Set.Icc 0 1) : curve t ∈ Set.Icc 0 1 :=
  ⟨curve_zero ▸ curve_le_curve le_rfl h.1 h.2, curve_one ▸ curve_le_curve h.1 h.2 le_rfl⟩

theorem sShape_left (h : x ≤ a) : sShape x a b = 0 :=
  if_pos h

theorem sShape_right (hl : a < x) (h : b ≤ x) : sShape x a b = 1 := by
  rw [sShape, if_neg hl.not_ge, if_pos h]

/-- Between its ends an S-shape is the curve at the way that has been made; at the midpoint that is
one half. -/
theorem sShape_between (hl : a < x) (hr : x < b) :
    sShape x a b = curve ((x - a) / (b - a)) := by
  have hwidth : 0 < b - a := sub_pos.mpr (hl.trans hr)
  have hmiddle : x ≤ (a + b) / 2 ↔ (x - a) / (b - a) ≤ 1 / 2 := by
    rw [div_le_iff₀ hwidth, le_div_iff₀ two_pos]
    constructor <;> intro h <;> linarith
  have hrest : (x - b) / (b - a) = (x - a) / (b - a) - 1 := by
    rw [div_sub_one hwidth.ne', sub_sub_sub_cancel_right]
  rw [sShape, if_neg hl.not_ge, if_neg hr.not_ge, hrest]
  simp only [curve, hmiddle]

theorem sShape_mem_Icc (x a b : ℚ) : sShape x a b ∈ Set.Icc 0 1 := by
  obtain hl | hl := le_or_gt x a
  · rw [sShape_left hl]
    exact ⟨le_rfl, zero_le_one⟩
  · obtain hr | hr := le_or_gt b x
    · rw [sShape_right hl hr]
      exact ⟨zero_le_one, le_rfl⟩
    · rw [sShape_between hl hr]
      exact curve_mem_Icc (progress_mem_Icc hl.le hr.le (hl.trans hr))

theorem sShape_monotone (a b : ℚ) : Monotone (sShape · a b) := by
  intro x y hxy
  simp only
  obtain hl | hl := le_or_gt x a
  · rw [sShape_left hl]
    exact (sShape_mem_Icc y a b).1
  · have hly : a < y := hl.trans_le hxy
    obtain hr | hr := le_or_gt b y
    · rw [sShape_right hly hr]
      exact (sShape_mem_Icc x a b).2
    · have hwidth : a < b := hly.trans hr
      rw [sShape_between hl (hxy.trans_lt hr), sShape_between hly hr]
      apply curve_le_curve
      · exact (progress_mem_Icc hl.le (hxy.trans hr.le) hwidth).1
      · exact div_le_div_of_nonneg_right (sub_le_sub_right hxy a) (sub_pos.mpr hwidth).le
      · exact (progress_mem_Icc hly.le hr.le hwidth).2

/-- With corners in any order both shapes give a number, that number is a degree of membership, and an
S-shape never falls. -/
theorem trapezoid_sShape_degrees :
    (∀ x a b c d : ℚ,
      trapezoid (number x) (number a) (number b) (number c) (number d) =
          number (trapezoid x a b c d) ∧
        trapezoid x a b c d ∈ Set.Icc 0 1) ∧
    (∀ x a b : ℚ,
      sShape (number x) (number a) (number b) = number (sShape x a b) ∧
        sShape x a b ∈ Set.Icc 0 1) ∧
    ∀ a b : ℚ, Monotone (sShape · a b) :=
  ⟨fun x a b c d => ⟨trapezoid_checked x a b c d, trapezoid_mem_Icc x a b c d⟩,
    fun x a b => ⟨sShape_checked x a b, sShape_mem_Icc x a b⟩, sShape_monotone⟩

end FieldScript.Membership
