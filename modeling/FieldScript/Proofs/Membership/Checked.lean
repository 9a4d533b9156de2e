import FieldScript.Membership
import Mathlib.Algebra.Field.Rat
import Mathlib.Algebra.Order.Ring.Rat

/-! Exact numbers that notice a division by zero. A quotient by zero has no value, and nothing made of
it has one; so where a membership function of checked numbers gives a number, it has divided by
nothing but numbers other than zero. -/
namespace FieldScript.Membership

inductive Checked where
  | number (value : ℚ)
  | undefined
  deriving DecidableEq

namespace Checked

def lift₂ (f : ℚ → ℚ → Checked) : Checked → Checked → Checked
  | number a, number b => f a b
  | _, _ => undefined

instance : Add Checked := ⟨lift₂ fun a b => number (a + b)⟩
instance : Sub Checked := ⟨lift₂ fun a b => number (a - b)⟩
instance : Mul Checked := ⟨lift₂ fun a b => number (a * b)⟩
instance : Div Checked := ⟨lift₂ fun a b => if b = 0 then undefined else number (a / b)⟩
instance {n : Nat} [OfNat ℚ n] : OfNat Checked n := ⟨number (OfNat.ofNat n)⟩

def ordered (r : ℚ → ℚ → Prop) : Checked → Checked → Prop
  | number a, number b => r a b
  | _, _ => False

instance (r : ℚ → ℚ → Prop) [DecidableRel r] : DecidableRel (ordered r)
  | number a, number b => inferInstanceAs (Decidable (r a b))
  | number _, undefined | undefined, _ => inferInstanceAs (Decidable False)

instance : LT Checked := ⟨ordered (· < ·)⟩
instance : LE Checked := ⟨ordered (· ≤ ·)⟩
instance : DecidableLT Checked := inferInstanceAs (DecidableRel (ordered (· < ·)))
instance : DecidableLE Checked := inferInstanceAs (DecidableRel (ordered (· ≤ ·)))

variable {a b : ℚ}

@[simp] theorem number_lt : number a < number b ↔ a < b := Iff.rfl

@[simp] theorem number_le : number a ≤ number b ↔ a ≤ b := Iff.rfl

@[simp] theorem number_ofNat (n : Nat) [OfNat ℚ n] :
    (OfNat.ofNat n : Checked) = number (OfNat.ofNat n) := rfl

@[simp] theorem number_add : number a + number b = number (a + b) := rfl

@[simp] theorem number_sub : number a - number b = number (a - b) := rfl

@[simp] theorem number_mul : number a * number b = number (a * b) := rfl

theorem number_div (h : b ≠ 0) : number a / number b = number (a / b) := if_neg h

def point (p : ℚ × ℚ) : Checked × Checked := (number p.1, number p.2)

end Checked

end FieldScript.Membership
