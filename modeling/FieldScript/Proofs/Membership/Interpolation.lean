import FieldScript.Proofs.Membership.Checked
import Mathlib.Algebra.Order.Field.Basic
import Mathlib.Order.Interval.Set.Defs
import Mathlib.Tactic.Ring
import Mathlib.Tactic.NormNum

/-! Interpolation over exact numbers. It divides by nothing but differences of positions that differ,
it stays between the values of its points, and through points in increasing order it is the line
between two neighbours. -/
namespace FieldScript.Membership

variable {x y low high : ℚ} {p q first : ℚ × ℚ} {rest : List (ℚ × ℚ)}

open Checked (number point)

theorem segment?_checked (x : ℚ) (p q : ℚ × ℚ) :
    segment? (number x) (point p) (point q) = (segment? x p q).map number := by
  simp only [segment?, point, Checked.number_le, Checked.number_lt]
  by_cases hx : p.1 ≤ x ∧ x ≤ q.1
  · rw [if_pos hx, if_pos hx]
    by_cases h : p.1 < q.1
    · simp only [if_pos h, Checked.number_sub, Checked.number_mul,
        Checked.number_div (sub_ne_zero.mpr h.ne'), Checked.number_add, Option.map_some]
    · rw [if_neg h, if_neg h, Option.map_some]
  · rw [if_neg hx, if_neg hx, Option.map_none]

theorem alongSegments_checked (x : ℚ) (p : ℚ × ℚ) (rest : List (ℚ × ℚ)) :
    alongSegments (number x) (point p) (rest.map point) = number (alongSegments x p rest) := by
  induction rest generalizing p with
  | nil => rfl
  | cons q rest ih =>
    rw [List.map_cons, alongSegments, alongSegments, segment?_checked, ih]
    cases segment? x p q <;> rfl

theorem interpolate_checked (x : ℚ) (first : ℚ × ℚ) (rest : List (ℚ × ℚ)) :
    interpolate (number x) (point first) (rest.map point) = number (interpolate x first rest) := by
  simp only [interpolate, List.getLastD_map, alongSegments_checked]
  simp only [point, Checked.number_le, apply_ite number]

def line (x : ℚ) (p q : ℚ × ℚ) : ℚ :=
  p.2 + (x - p.1) * (q.2 - p.2) / (q.1 - p.1)

@[simp] theorem line_left (p q : ℚ × ℚ) : line p.1 p q = p.2 := by
  simp [line]

theorem line_right (h : p.1 < q.1) : line q.1 p q = q.2 := by
  have hne : q.1 - p.1 ≠ 0 := sub_ne_zero.mpr h.ne'
  rw [line, mul_div_cancel_left₀ _ hne, add_sub_cancel]

theorem line_mem_Icc (h : p.1 < q.1) (hx : x ∈ Set.Icc p.1 q.1) (hp : p.2 ∈ Set.Icc low high)
    (hq : q.2 ∈ Set.Icc low high) : line x p q ∈ Set.Icc low high := by
  have hd : 0 < q.1 - p.1 := sub_pos.mpr h
  obtain ⟨t, ht⟩ : ∃ t, t = (x - p.1) / (q.1 - p.1) := ⟨_, rfl⟩
  have ht₀ : 0 ≤ t := ht ▸ div_nonneg (sub_nonneg.mpr hx.1) hd.le
  have ht₁ : 0 ≤ 1 - t := by
    rw [ht, sub_nonneg, div_le_one hd]
    exact sub_le_sub_right hx.2 _
  have mean : line x p q = (1 - t) * p.2 + t * q.2 := by
    rw [line, ht]
    ring
  rw [mean]
  constructor
  · calc low = (1 - t) * low + t * low := by ring
      _ ≤ (1 - t) * p.2 + t * q.2 := by gcongr; exacts [hp.1, hq.1]
  · calc (1 - t) * p.2 + t * q.2 ≤ (1 - t) * high + t * high := by gcongr; exacts [hp.2, hq.2]
      _ = high := by ring

theorem segment?_eq_some : segment? x p q = some y ↔
    (p.1 ≤ x ∧ x ≤ q.1) ∧ (if p.1 < q.1 then line x p q else q.2) = y := by
  simp only [segment?, ← apply_ite some, line, Option.ite_none_right_eq_some, Option.some.injEq]

theorem segment?_mem_Icc (hp : p.2 ∈ Set.Icc low high) (hq : q.2 ∈ Set.Icc low high)
    (h : segment? x p q = some y) : y ∈ Set.Icc low high := by
  obtain ⟨hx, rfl⟩ := segment?_eq_some.mp h
  split
  case isTrue hlt => exact line_mem_Icc hlt hx hp hq
  case isFalse => exact hq

theorem alongSegments_mem_Icc (h : ∀ p ∈ first :: rest, p.2 ∈ Set.Icc low high) :
    alongSegments x first rest ∈ Set.Icc low high := by
  induction rest generalizing first with
  | nil => exact h first List.mem_cons_self
  | cons q rest ih =>
    obtain ⟨hfirst, hrest⟩ := List.forall_mem_cons.mp h
    rw [alongSegments]
    split
    case h_1 y hy => exact segment?_mem_Icc hfirst (hrest q List.mem_cons_self) hy
    case h_2 => exact ih hrest

theorem interpolate_mem_Icc (h : ∀ p ∈ first :: rest, p.2 ∈ Set.Icc low high) :
    interpolate x first rest ∈ Set.Icc low high := by
  simp only [interpolate]
  split_ifs
  · exact h first List.mem_cons_self
  · exact h _ List.getLastD_mem_cons
  · exact alongSegments_mem_Icc h

def Increasing (points : List (ℚ × ℚ)) : Prop :=
  points.Pairwise (·.1 < ·.1)

theorem Increasing.tail (h : Increasing (p :: rest)) : Increasing rest :=
  List.Pairwise.of_cons h

theorem Increasing.head_lt (h : Increasing (p :: q :: rest)) : p.1 < q.1 :=
  List.rel_of_pairwise_cons h List.mem_cons_self

theorem Increasing.head_le (h : Increasing (first :: rest)) (hp : p ∈ first :: rest) :
    first.1 ≤ p.1 := by
  obtain rfl | hp := List.mem_cons.mp hp
  · exact le_rfl
  · exact (List.rel_of_pairwise_cons h hp).le

theorem Increasing.le_last (h : Increasing (first :: rest)) (hp : p ∈ first :: rest) :
    p.1 ≤ (rest.getLastD first).1 := by
  induction rest generalizing first p with
  | nil => rw [List.mem_singleton.mp hp]; exact le_rfl
  | cons q rest ih =>
    rw [List.getLastD_cons]
    obtain rfl | hp := List.mem_cons.mp hp
    · exact h.head_lt.le.trans (ih h.tail List.mem_cons_self)
    · exact ih h.tail hp

theorem segment?_of_mem (h : p.1 < q.1) (hl : p.1 ≤ x) (hr : x ≤ q.1) :
    segment? x p q = some (line x p q) :=
  segment?_eq_some.mpr ⟨⟨hl, hr⟩, if_pos h⟩

theorem alongSegments_first (h : Increasing (first :: rest)) :
    alongSegments first.1 first rest = first.2 := by
  cases rest with
  | nil => rfl
  | cons q rest =>
    rw [alongSegments, segment?_of_mem h.head_lt le_rfl h.head_lt.le]
    exact line_left first q

/-- From the second point on the first segment says nothing: where it still has a value, it is the
value at the second point, with which the next segment starts. -/
theorem alongSegments_cons (h : Increasing (p :: q :: rest)) (hx : q.1 ≤ x) :
    alongSegments x p (q :: rest) = alongSegments x q rest := by
  obtain rfl | hlt := hx.eq_or_lt
  · rw [alongSegments, segment?_of_mem h.head_lt h.head_lt.le le_rfl, alongSegments_first h.tail]
    exact line_right h.head_lt
  · have hnone : segment? x p q = none := if_neg fun hseg => hlt.not_ge hseg.2
    rw [alongSegments, hnone]

theorem alongSegments_knot (h : Increasing (first :: rest)) (hp : p ∈ first :: rest) :
    alongSegments p.1 first rest = p.2 := by
  induction rest generalizing first with
  | nil => rw [List.mem_singleton.mp hp, alongSegments]
  | cons q rest ih =>
    obtain rfl | hp := List.mem_cons.mp hp
    · exact alongSegments_first h
    · rw [alongSegments_cons h (h.tail.head_le hp)]
      exact ih h.tail hp

theorem alongSegments_between (h : Increasing (first :: rest)) {i : Nat}
    (hp : (first :: rest)[i]? = some p) (hq : (first :: rest)[i + 1]? = some q)
    (hl : p.1 ≤ x) (hr : x ≤ q.1) : alongSegments x first rest = line x p q := by
  induction rest generalizing first i with
  | nil => simp at hq
  | cons next rest ih =>
    cases i with
    | zero =>
      obtain rfl : first = p := by simpa using hp
      obtain rfl : next = q := by simpa using hq
      rw [alongSegments, segment?_of_mem h.head_lt hl hr]
    | succ i =>
      have hnext : next.1 ≤ x := (h.tail.head_le (List.mem_of_getElem? hp)).trans hl
      rw [alongSegments_cons h hnext]
      exact ih h.tail hp hq

theorem interpolate_eq_alongSegments (h : Increasing (first :: rest)) (hl : first.1 ≤ x)
    (hr : x ≤ (rest.getLastD first).1) : interpolate x first rest = alongSegments x first rest := by
  simp only [interpolate]
  split_ifs with hfirst hlast
  · rw [le_antisymm hfirst hl, alongSegments_first h]
  · rw [le_antisymm hr hlast, alongSegments_knot h List.getLastD_mem_cons]
  · rfl

theorem interpolate_knot (h : Increasing (first :: rest)) (hp : p ∈ first :: rest) :
    interpolate p.1 first rest = p.2 := by
  rw [interpolate_eq_alongSegments h (h.head_le hp) (h.le_last hp), alongSegments_knot h hp]

theorem interpolate_of_last_le (h : Increasing (first :: rest))
    (hx : (rest.getLastD first).1 ≤ x) :
    interpolate x first rest = (rest.getLastD first).2 := by
  obtain heq | hlt := hx.eq_or_lt
  · rw [← heq, interpolate_knot h List.getLastD_mem_cons]
  · have hfirst : ¬x ≤ first.1 := ((h.le_last List.mem_cons_self).trans_lt hlt).not_ge
    simp only [interpolate]
    rw [if_neg hfirst, if_pos hx]

theorem interpolate_between (h : Increasing (first :: rest)) {i : Nat}
    (hp : (first :: rest)[i]? = some p) (hq : (first :: rest)[i + 1]? = some q)
    (hl : p.1 ≤ x) (hr : x ≤ q.1) : interpolate x first rest = line x p q := by
  have hfirst : first.1 ≤ x := (h.head_le (List.mem_of_getElem? hp)).trans hl
  have hlast : x ≤ (rest.getLastD first).1 := hr.trans (h.le_last (List.mem_of_getElem? hq))
  rw [interpolate_eq_alongSegments h hfirst hlast]
  exact alongSegments_between h hp hq hl hr

/-- A function that is constant up to the first point and from the last one on, and runs along the
line between neighbours; at a point the lines on its two sides agree. -/
structure Interpolates (f : ℚ → ℚ) (first : ℚ × ℚ) (rest : List (ℚ × ℚ)) : Prop where
  before : ∀ x ≤ first.1, f x = first.2
  after : ∀ x ≥ (rest.getLastD first).1, f x = (rest.getLastD first).2
  between : ∀ i p q, (first :: rest)[i]? = some p → (first :: rest)[i + 1]? = some q →
    ∀ x, p.1 ≤ x → x ≤ q.1 → f x = line x p q
  knot : ∀ p ∈ first :: rest, f p.1 = p.2

/-- Of any points the value is a number between the smallest and the largest of theirs, and through
points in increasing order it is their clamped piecewise-linear function. -/
theorem interpolate_clamped_piecewise_linear (first : ℚ × ℚ) (rest : List (ℚ × ℚ)) :
    (∀ x, interpolate (number x) (point first) (rest.map point) =
        number (interpolate x first rest) ∧
      (first.2 :: rest.map Prod.snd).min (List.cons_ne_nil _ _) ≤ interpolate x first rest ∧
      interpolate x first rest ≤ (first.2 :: rest.map Prod.snd).max (List.cons_ne_nil _ _)) ∧
    (Increasing (first :: rest) → Interpolates (interpolate · first rest) first rest) := by
  refine ⟨fun x => ?bounded, fun h => ?increasing⟩
  case bounded =>
    have bounds : ∀ p ∈ first :: rest, p.2 ∈ Set.Icc
        ((first.2 :: rest.map Prod.snd).min (List.cons_ne_nil _ _))
        ((first.2 :: rest.map Prod.snd).max (List.cons_ne_nil _ _)) := fun p hp =>
      have hvalue : p.2 ∈ first.2 :: rest.map Prod.snd := List.mem_map_of_mem (f := Prod.snd) hp
      ⟨List.min_le_of_mem hvalue, List.le_max_of_mem hvalue⟩
    exact ⟨interpolate_checked x first rest, interpolate_mem_Icc bounds⟩
  case increasing =>
    exact {
      before := fun x hx => if_pos hx
      after := fun x hx => interpolate_of_last_le h hx
      between := fun i p q hp hq x hl hr => interpolate_between h hp hq hl hr
      knot := fun p hp => interpolate_knot h hp }

theorem interpolate_clamped_piecewise_linear_three :
    Increasing [(0, 0), (10, 1), (20, 1 / 2)] ∧
      interpolate 15 (0, 0) [(10, 1), (20, 1 / 2)] = (3 / 4 : ℚ) := by
  have hinc : Increasing [(0, 0), (10, 1), (20, 1 / 2)] := by norm_num [Increasing]
  have spec := (interpolate_clamped_piecewise_linear (0, 0) [(10, 1), (20, 1 / 2)]).2 hinc
  have value := spec.between 1 (10, 1) (20, 1 / 2) rfl rfl 15 (by norm_num) (by norm_num)
  exact ⟨hinc, value.trans (by norm_num [line])⟩

end FieldScript.Membership
