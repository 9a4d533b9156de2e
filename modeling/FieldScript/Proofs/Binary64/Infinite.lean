import FieldScript.Binary64

/-! Infinities and NaNs under arithmetic. An operand that is no finite number is never lost again: a
NaN is the result, an infinity makes an infinity or a NaN of it. The operands of a product or a
quotient are asked for on the left only, which is where a statistic has them. -/
namespace FieldScript.Binary64

open Float.Model (UnpackedFloat)

variable {a b x : Binary64} {xs : List Binary64}

def Unbounded : UnpackedFloat → Prop
  | .infinity _ | .notANumber => True
  | .zero _ | .finite .. => False

def unpacked (x : Binary64) : UnpackedFloat := x.toFloat.toModel.unpack

theorem eq_infinity (h : x.isFinite = false) (number : x.isNaN = false) :
    x = infinity ∨ x = negInfinity := by
  have hmagnitude : x.bits.toNat % signBit = infiniteMagnitude := by
    have hlow := of_decide_eq_false h
    have hhigh := of_decide_eq_false number
    unfold magnitude at hlow hhigh
    omega
  have hbound := x.bits.toNat_lt
  have hbits : x.bits.toNat = 0x7FF0000000000000 ∨ x.bits.toNat = 0xFFF0000000000000 := by
    simp only [signBit, infiniteMagnitude] at hmagnitude
    omega
  rcases hbits with hpositive | hnegative
  · exact .inl (congrArg mk (UInt64.toNat_inj.mp hpositive))
  · exact .inr (congrArg mk (UInt64.toNat_inj.mp hnegative))

theorem unpacked_of_infinite (h : x.isFinite = false) (number : x.isNaN = false) :
    ∃ sign, x.unpacked = .infinity sign := by
  rcases eq_infinity h number with rfl | rfl
  · exact ⟨.positive, by with_unfolding_all rfl⟩
  · exact ⟨.negative, by with_unfolding_all rfl⟩

theorem isFinite_settle {u : UnpackedFloat} (h : Unbounded u) :
    (settle (ofFloat (.ofModel (.pack u)))).isFinite = false := by
  cases u with
  | infinity sign => cases sign <;> decide
  | notANumber => decide
  | zero sign => exact h.elim
  | finite sign mantissa exponent positive => exact h.elim

/-- Quieting sets a bit of the fraction, so the magnitude does not fall. -/
theorem isFinite_quiet (h : a.isNaN = true) : a.quiet.isFinite = false := by
  have hgrows : a.magnitude ≤ a.quiet.magnitude := by
    have hsign : signBit = 2 ^ 63 := by decide
    rw [magnitude, magnitude, quiet, UInt64.toNat_or, hsign, Nat.or_mod_two_pow]
    exact Nat.left_le_or
  simp only [isNaN, decide_eq_true_eq] at h
  simp only [isFinite, decide_eq_false_iff_not]
  omega

section Operations

variable {f : Float → Float → Float} {g : UnpackedFloat → UnpackedFloat → UnpackedFloat}

theorem isFinite_lift₂
    (unfolds : ∀ a b, f a b = .ofModel (.pack (g a.toModel.unpack b.toModel.unpack)))
    (unbounded : a.isNaN = false → b.isNaN = false → Unbounded (g a.unpacked b.unpacked)) :
    (lift₂ f a b).isFinite = false := by
  unfold lift₂
  split
  · exact isFinite_quiet ‹_›
  · split
    · exact isFinite_quiet ‹_›
    · rename_i left right
      rw [unfolds]
      exact isFinite_settle (unbounded (by simpa using left) (by simpa using right))

theorem isFinite_lift₂_left
    (unfolds : ∀ a b, f a b = .ofModel (.pack (g a.toModel.unpack b.toModel.unpack)))
    (absorbs : ∀ sign v, Unbounded (g (.infinity sign) v)) (h : a.isFinite = false) :
    (lift₂ f a b).isFinite = false := by
  refine isFinite_lift₂ unfolds fun number _ => ?_
  obtain ⟨sign, hsign⟩ := unpacked_of_infinite h number
  rw [hsign]
  exact absorbs sign _

theorem isFinite_lift₂_right
    (unfolds : ∀ a b, f a b = .ofModel (.pack (g a.toModel.unpack b.toModel.unpack)))
    (absorbs : ∀ sign u, Unbounded (g u (.infinity sign))) (h : b.isFinite = false) :
    (lift₂ f a b).isFinite = false := by
  refine isFinite_lift₂ unfolds fun _ number => ?_
  obtain ⟨sign, hsign⟩ := unpacked_of_infinite h number
  rw [hsign]
  exact absorbs sign _

end Operations

theorem isFinite_add_left (h : a.isFinite = false) : (a + b).isFinite = false := by
  refine isFinite_lift₂_left (fun _ _ => rfl) (fun sign v => ?_) h
  cases v with
  | infinity other => cases sign <;> cases other <;> trivial
  | _ => trivial

theorem isFinite_add_right (h : b.isFinite = false) : (a + b).isFinite = false := by
  refine isFinite_lift₂_right (fun _ _ => rfl) (fun sign u => ?_) h
  cases u with
  | infinity other => cases sign <;> cases other <;> trivial
  | _ => trivial

theorem isFinite_sub_right (h : b.isFinite = false) : (a - b).isFinite = false := by
  refine isFinite_lift₂_right (fun _ _ => rfl) (fun sign u => ?_) h
  cases u with
  | infinity other => cases sign <;> cases other <;> trivial
  | _ => trivial

theorem isFinite_mul_left (h : a.isFinite = false) : (a * b).isFinite = false := by
  refine isFinite_lift₂_left (fun _ _ => rfl) (fun sign v => ?_) h
  cases v <;> trivial

theorem isFinite_div_left (h : a.isFinite = false) : (a / b).isFinite = false := by
  refine isFinite_lift₂_left (fun _ _ => rfl) (fun sign v => ?_) h
  cases v <;> trivial

theorem isFinite_sqrt (h : a.isFinite = false) : a.sqrt.isFinite = false := by
  unfold sqrt lift
  split
  · exact isFinite_quiet ‹_›
  · rename_i number
    obtain ⟨sign, hsign⟩ := unpacked_of_infinite h (by simpa using number)
    have hunfold : Float.sqrt a.toFloat = .ofModel (.pack (.sqrt .binary64 a.unpacked)) := rfl
    rw [hunfold, hsign]
    refine isFinite_settle ?_
    cases sign <;> trivial

theorem isFinite_sum_start {start : Binary64} (h : start.isFinite = false) :
    (sum start xs).isFinite = false := by
  induction xs generalizing start with
  | nil => exact h
  | cons x rest ih => exact ih (isFinite_add_left h)

theorem isFinite_sum {start : Binary64} (mem : x ∈ xs) (h : x.isFinite = false) :
    (sum start xs).isFinite = false := by
  induction xs generalizing start with
  | nil => cases mem
  | cons first rest ih =>
    rcases List.mem_cons.mp mem with rfl | hrest
    · have hnext : (start + x).isFinite = false := isFinite_add_right h
      show (sum (start + x) rest).isFinite = false
      exact isFinite_sum_start hnext
    · exact ih hrest

end FieldScript.Binary64
