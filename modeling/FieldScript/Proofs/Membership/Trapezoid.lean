import FieldScript.Operators
import Mathlib.Algebra.Field.Rat
import Mathlib.Algebra.Order.Ring.Rat
import Mathlib.Tactic.NormNum

/-! The trapezoid over exact numbers. Its shape is the documented one wherever both of its sides slope;
a side that stands upright takes the value 0 in its foot, where the plateau has begun already. -/
namespace FieldScript.Membership

variable {x a b c d y : ℚ}

/-- The value of a trapezoid with sorted corners: 0 outside `[a, d]`, 1 on `[b, c]`, linear in
between. -/
structure TrapezoidShape (x a b c d y : ℚ) : Prop where
  outside : x < a ∨ d < x → y = 0
  plateau : b ≤ x → x ≤ c → y = 1
  rising : a ≤ x → x < b → y = (x - a) / (b - a)
  falling : c < x → x ≤ d → y = (d - x) / (d - c)

/-- The foot of a side that stands upright. -/
def UprightFoot (x a b c d : ℚ) : Prop :=
  x = a ∧ a = b ∨ x = d ∧ c = d

theorem trapezoid_outside (h : x ≤ a ∨ d ≤ x) : trapezoid x a b c d = 0 :=
  if_pos h

theorem trapezoid_plateau (hl : a < x) (hr : x < d) (hb : b ≤ x) (hc : x ≤ c) :
    trapezoid x a b c d = 1 := by
  rw [trapezoid, if_neg (not_or.mpr ⟨hl.not_ge, hr.not_ge⟩), if_pos ⟨hb, hc⟩]

theorem trapezoid_rising (hl : a < x) (hr : x < d) (hb : x < b) :
    trapezoid x a b c d = (x - a) / (b - a) := by
  rw [trapezoid, if_neg (not_or.mpr ⟨hl.not_ge, hr.not_ge⟩), if_neg fun h => hb.not_ge h.1,
    if_pos hb]

theorem trapezoid_falling (hl : a < x) (hr : x < d) (hb : b ≤ x) (hc : c < x) :
    trapezoid x a b c d = (d - x) / (d - c) := by
  rw [trapezoid, if_neg (not_or.mpr ⟨hl.not_ge, hr.not_ge⟩), if_neg fun h => hc.not_ge h.2,
    if_neg hb.not_gt]

theorem trapezoid_uprightFoot (h : UprightFoot x a b c d) : trapezoid x a b c d = 0 := by
  obtain ⟨rfl, -⟩ | ⟨rfl, -⟩ := h
  · exact trapezoid_outside (.inl le_rfl)
  · exact trapezoid_outside (.inr le_rfl)

theorem UprightFoot.on_plateau (hab : a ≤ b) (hbc : b ≤ c) (hcd : c ≤ d)
    (h : UprightFoot x a b c d) : b ≤ x ∧ x ≤ c := by
  obtain ⟨rfl, rfl⟩ | ⟨rfl, rfl⟩ := h
  · exact ⟨le_rfl, hbc⟩
  · exact ⟨hbc, le_rfl⟩

theorem trapezoidShape_of_not_uprightFoot (hab : a ≤ b) (hbc : b ≤ c) (hcd : c ≤ d)
    (h : ¬UprightFoot x a b c d) : TrapezoidShape x a b c d (trapezoid x a b c d) := by
  refine ⟨fun hout => ?outside, fun hb hc => ?plateau, fun ha hb => ?rising, fun hc hd => ?falling⟩
  case outside => exact trapezoid_outside (hout.imp le_of_lt le_of_lt)
  case plateau =>
    -- at `a` the plateau begins only if the rising side is upright, at `d` likewise
    have hl : a < x := (hab.trans hb).lt_of_ne fun heq =>
      h (.inl ⟨heq.symm, hab.antisymm (hb.trans_eq heq.symm)⟩)
    have hr : x < d := (hc.trans hcd).lt_of_ne fun heq =>
      h (.inr ⟨heq, hcd.antisymm (heq.symm.trans_le hc)⟩)
    exact trapezoid_plateau hl hr hb hc
  case rising =>
    obtain rfl | hl := ha.eq_or_lt
    · rw [trapezoid_outside (.inl le_rfl), sub_self, zero_div]
    · exact trapezoid_rising hl (hb.trans_le (hbc.trans hcd)) hb
  case falling =>
    obtain rfl | hr := hd.eq_or_lt
    · rw [trapezoid_outside (.inr le_rfl), sub_self, zero_div]
    · exact trapezoid_falling ((hab.trans hbc).trans_lt hc) hr (hbc.trans hc.le) hc

theorem trapezoidShape_one (hab : a ≤ b) (hcd : c ≤ d) (hb : b ≤ x) (hc : x ≤ c) :
    TrapezoidShape x a b c d 1 where
  outside hout := absurd hout (not_or.mpr ⟨(hab.trans hb).not_gt, (hc.trans hcd).not_gt⟩)
  plateau _ _ := rfl
  rising _ hlt := absurd hlt hb.not_gt
  falling hlt _ := absurd hlt hc.not_gt

/-- A trapezoid has its documented value everywhere but in the foot of an upright side, where it is 0
and the documented value 1. -/
theorem trapezoid_shape_iff (hab : a ≤ b) (hbc : b ≤ c) (hcd : c ≤ d) :
    (TrapezoidShape x a b c d (trapezoid x a b c d) ↔ ¬UprightFoot x a b c d) ∧
      (UprightFoot x a b c d → trapezoid x a b c d = 0 ∧ TrapezoidShape x a b c d 1) := by
  refine ⟨⟨fun shape foot => ?_, trapezoidShape_of_not_uprightFoot hab hbc hcd⟩, fun foot => ?_⟩
  · obtain ⟨hb, hc⟩ := foot.on_plateau hab hbc hcd
    have hone := shape.plateau hb hc
    rw [trapezoid_uprightFoot foot] at hone
    exact zero_ne_one hone
  · obtain ⟨hb, hc⟩ := foot.on_plateau hab hbc hcd
    exact ⟨trapezoid_uprightFoot foot, trapezoidShape_one hab hcd hb hc⟩

/-- The machine's numbers give the same 0 in the foot. -/
theorem trapezoid_upright_at_one :
    ¬TrapezoidShape 1 1 1 2 3 (trapezoid 1 1 1 2 3) ∧ TrapezoidShape 1 1 1 2 3 1 ∧
      Builtin.trapezoid.pointwise [1, 1, 1, 2, .ofNat 3] = .ok (some 0) := by
  have foot : UprightFoot 1 1 1 2 3 := .inl ⟨rfl, rfl⟩
  obtain ⟨shape, upright⟩ := trapezoid_shape_iff (x := 1) (a := 1) (b := 1) (c := 2) (d := 3)
    le_rfl (by norm_num) (by norm_num)
  exact ⟨fun h => shape.mp h foot, (upright foot).2, rfl⟩

end FieldScript.Membership
