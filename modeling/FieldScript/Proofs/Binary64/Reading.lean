import FieldScript.Binary64.Read
import FieldScript.Proofs.Binary64.Infinite
import FieldScript.Proofs.Source.Pieces

/-! Numbers read from their text. A number of the grammar always has a value, and none of the steps to
it, from whole numbers over powers of ten to rounding, ends in a NaN. So a value that is not finite
is one of the two infinities. -/
namespace FieldScript.Binary64

open Float.Model (UnpackedFloat Format)
open Float.Model.UnpackedFloat

variable {x : Binary64} {b : BitVec Format.binary64.numBits} {u v : UnpackedFloat}

theorem dite_ne {c : Prop} [Decidable c] {t : c → UnpackedFloat} {e : ¬c → UnpackedFloat}
    (h : ∀ hc, t hc ≠ u) (h' : ∀ hc, e hc ≠ u) : dite c t e ≠ u := by
  by_cases hc : c
  · rw [dif_pos hc]
    exact h hc
  · rw [dif_neg hc]
    exact h' hc

theorem ite_ne {c : Prop} [Decidable c] {t e : UnpackedFloat} (h : c → t ≠ u) (h' : ¬c → e ≠ u) :
    (if c then t else e) ≠ u := dite_ne h h'

/-- With all bits of the exponent set there is no fraction. -/
def Numeric (b : BitVec Format.binary64.numBits) : Prop :=
  unpackExponent b = -1#_ → unpackMantissa b = 0#_

theorem numeric_pack (h : u ≠ .notANumber) : Numeric (pack Format.binary64 u) := by
  unfold Numeric
  fun_cases pack with
  | case1 => exact absurd rfl h
  | case2 sign => simp [packedInfinity]
  | case3 sign => simp [packedZero]
  | case4 => simp [packedInfinity]
  | case5 sign m e positive mantissaBits biased small =>
    intro hexponent
    rw [unpackExponent_packComponents, ← BitVec.toNat_inj] at hexponent
    have hbiased : biased < 2047 := by simpa using small
    have hfull : biased % 2048 = 2047 := hexponent
    omega
  | case6 =>
    intro hexponent
    rw [unpackExponent_packComponents] at hexponent
    exact absurd hexponent (by decide)

theorem unpack_ne_notANumber (h : Numeric b) : unpack Format.binary64 b ≠ .notANumber := by
  unfold unpack
  dsimp only
  refine ite_ne (fun hexponent => ?_) fun _ => ite_ne (fun _ => dite_ne (fun _ => ?_) fun _ => ?_)
    fun _ => ?_
  · rw [if_pos (h hexponent)]
    rintro ⟨⟩
  all_goals rintro ⟨⟩

theorem isNaN_of_numeric (h : Numeric x.bits.toBitVec) : x.isNaN = false := by
  have hexponent : (@unpackExponent Format.binary64 x.bits.toBitVec).toNat =
      x.bits.toNat / 2 ^ 52 % 2 ^ 11 := by
    simp [unpackExponent, Nat.shiftRight_eq_div_pow]
  have hmantissa : (@unpackMantissa Format.binary64 x.bits.toBitVec).toNat =
      x.bits.toNat % 2 ^ 52 := by
    simp [unpackMantissa]
  unfold isNaN
  rw [decide_eq_false_iff_not]
  intro habove
  simp only [magnitude, signBit, infiniteMagnitude] at habove
  have hfraction := h <| BitVec.eq_of_toNat_eq <| hexponent.trans (by
    change _ = 2047
    omega)
  rw [hfraction] at hmantissa
  have hnone : x.bits.toNat % 2 ^ 52 = 0 := hmantissa.symm
  omega

theorem isNaN_pack (h : u ≠ .notANumber) : (ofFloat (.ofModel (.pack u))).isNaN = false :=
  isNaN_of_numeric (numeric_pack h)

theorem unpack_pack_ne (h : u ≠ .notANumber) :
    (Float.Model.pack u).unpack ≠ .notANumber :=
  unpack_ne_notANumber (numeric_pack h)

theorem roundWithAccuracy_ne (sign : Sign) (m : Nat) (e : Int) (accuracy : Accuracy) :
    roundWithAccuracy Format.binary64 sign m e accuracy ≠ .notANumber := by
  unfold roundWithAccuracy
  dsimp only
  refine dite_ne (fun _ => ?_) fun _ => ?_ <;> rintro ⟨⟩

def HasPlace : UnpackedFloat → Bool
  | .finite .. => true
  | _ => false

theorem mul_ne (h : u ≠ .notANumber) (place : HasPlace v = true) :
    mul Format.binary64 u v ≠ .notANumber := by
  cases v with
  | finite =>
    cases u with
    | notANumber => exact absurd rfl h
    | finite => exact roundWithAccuracy_ne _ _ _ _
    | _ => rintro ⟨⟩
  | _ => cases place

theorem div_ne (h : u ≠ .notANumber) (place : HasPlace v = true) :
    div Format.binary64 u v ≠ .notANumber := by
  cases v with
  | finite =>
    cases u with
    | notANumber => exact absurd rfl h
    | finite => exact roundWithAccuracy_ne _ _ _ _
    | _ => rintro ⟨⟩
  | _ => cases place

theorem ofUInt64_ne (n : UInt64) : ofUInt64 Format.binary64 n ≠ .notANumber := by
  unfold ofUInt64 UnpackedFloat.ofNat ofInt UnpackedFloat.normalize
  split
  · exact roundWithAccuracy_ne _ _ _ _
  · rintro ⟨⟩
  · exact roundWithAccuracy_ne _ _ _ _

theorem ofScientific_ne (m : Nat) (e : Int) : ofScientific Format.binary64 m e ≠ .notANumber := by
  unfold ofScientific
  refine dite_ne (fun _ => ?_) fun _ => ite_ne (fun _ => ?_) fun _ => ite_ne (fun _ => ?_)
    fun _ => ite_ne (fun _ => mul_ne ?_ rfl) fun _ => div_ne ?_ rfl
  all_goals rintro ⟨⟩

theorem hasPlace_powersOfTen :
    (Float.exactlyRepresentablePowersOfTen.all fun power => HasPlace power.toModel.unpack) = true := by
  decide +kernel

theorem isNaN_ofScientific (m : Nat) (s : Bool) (e : Nat) :
    (ofFloat (Float.ofScientific m s e)).isNaN = false := by
  unfold Float.ofScientific
  dsimp only
  split
  · rename_i hfast
    have hnumber := unpack_pack_ne (ofUInt64_ne m.toUInt64)
    have hplace := Array.all_eq_true.mp hasPlace_powersOfTen e (Nat.lt_succ_of_le hfast.2)
    cases s with
    | true => exact isNaN_pack (div_ne hnumber hplace)
    | false => exact isNaN_pack (mul_ne hnumber hplace)
  · exact isNaN_pack (ofScientific_ne _ _)

theorem isNaN_ofDecimal (m : Nat) (e : Int) : (ofDecimal m e).isNaN = false := by
  unfold ofDecimal
  dsimp only
  split
  · decide
  · split
    · decide
    · split
      · exact isNaN_ofScientific m false _
      · exact isNaN_ofScientific m true _

theorem isNaN_neg (x : Binary64) : x.neg.isNaN = x.isNaN := by
  have hsign : signBit = 2 ^ 63 := by decide
  have hmagnitude : x.neg.magnitude = x.magnitude := by
    rw [magnitude, magnitude, neg, UInt64.toNat_xor, hsign, Nat.xor_mod_two_pow]
    simp
  rw [isNaN, isNaN, hmagnitude]

section Texts

variable {piece rest : List Char}

theorem splitMantissa_append (h : Source.Mantissa piece)
    (hrest : ∀ c ∈ rest.head?, c.isDigit = false ∧ c ≠ '.') :
    ∃ mantissa, splitMantissa (piece ++ rest) = some (mantissa, rest) := by
  have hdigit (c : Char) (hc : c ∈ rest.head?) : c.isDigit = false := (hrest c hc).1
  unfold splitMantissa
  cases h with
  | whole nonempty digit =>
    obtain ⟨htake, hdrop⟩ := Prod.mk.inj (Source.span_run digit hdigit)
    rw [htake, hdrop]
    obtain ⟨d, digits, rfl⟩ := List.exists_cons_of_ne_nil nonempty
    cases rest with
    | nil => exact ⟨_, rfl⟩
    | cons c rest => simp [(hrest c rfl).2]
  | @pointed whole fraction nonempty digit digit' =>
    have hpoint : ∀ c ∈ ('.' :: (fraction ++ rest)).head?, c.isDigit = false := by simp
    obtain ⟨htake, hdrop⟩ := Prod.mk.inj (Source.span_run digit hpoint)
    obtain ⟨htake', hdrop'⟩ := Prod.mk.inj (Source.span_run digit' hdigit)
    rw [List.append_assoc, List.cons_append, htake, hdrop]
    simp only [htake', hdrop']
    have hsome : (whole.isEmpty && fraction.isEmpty) = false := by
      simpa [Decidable.or_iff_not_imp_left] using nonempty
    rw [hsome]
    exact ⟨_, rfl⟩

theorem splitSign_other {c : Char} (h : c ∉ ['+', '-']) (cs : List Char) :
    splitSign (c :: cs) = (false, c :: cs) := by
  simp only [List.mem_cons, List.not_mem_nil, or_false, not_or] at h
  unfold splitSign
  split
  · rename_i heq
    exact absurd (List.cons.inj heq).1 h.2
  · rename_i heq
    exact absurd (List.cons.inj heq).1 h.1
  · rfl

theorem readExponent_power (h : Source.Power piece) : ∃ e, readExponent piece = some e := by
  cases h with
  | absent => exact ⟨0, rfl⟩
  | @given mark sign digits marked signed nonempty digit =>
    have hmark : mark = 'e' ∨ mark = 'E' := by simpa using marked
    have hdigits : (digits.isEmpty || !digits.all Char.isDigit) = false := by
      simpa [nonempty] using digit
    have hsplit : ∃ minus, splitSign (sign ++ digits) = (minus, digits) := by
      rcases signed with rfl | ⟨c, hc, rfl⟩
      · obtain ⟨d, digits, rfl⟩ := List.exists_cons_of_ne_nil nonempty
        have hd := Source.not_mem_of_isDigit (digit d List.mem_cons_self)
        exact ⟨false, splitSign_other hd digits⟩
      · simp only [List.mem_cons, List.not_mem_nil, or_false] at hc
        rcases hc with rfl | rfl <;> exact ⟨_, rfl⟩
    obtain ⟨minus, hminus⟩ := hsplit
    rw [readExponent, if_pos hmark, hminus]
    simp only [hdigits, Bool.false_eq_true, if_false]
    exact ⟨_, rfl⟩

theorem mantissa_head (h : Source.Mantissa piece) :
    ∃ c cs, piece = c :: cs ∧ (c.isDigit = true ∨ c = '.') := by
  cases h with
  | whole nonempty digit =>
    obtain ⟨d, digits, rfl⟩ := List.exists_cons_of_ne_nil nonempty
    exact ⟨d, digits, rfl, .inl (digit d List.mem_cons_self)⟩
  | @pointed whole fraction _ digit _ =>
    cases whole with
    | nil => exact ⟨'.', fraction, rfl, .inr rfl⟩
    | cons d whole => exact ⟨d, _, rfl, .inl (digit d List.mem_cons_self)⟩

theorem toLower_of_isDigit {c : Char} (h : c.isDigit = true) : c.toLower = c := by
  have hlow : ¬ (c.val ≥ 'A'.val ∧ c.val ≤ 'Z'.val) := by
    simp only [Char.isDigit, Bool.and_eq_true, decide_eq_true_eq, ge_iff_le,
      UInt32.le_iff_toNat_le] at h ⊢
    have hnine : '9'.val.toNat < 'A'.val.toNat := by decide
    omega
  exact dif_neg hlow

theorem readMagnitude?_number {mantissa power : List Char} (h : Source.Mantissa mantissa)
    (h' : Source.Power power) :
    ∃ m e, readMagnitude? (mantissa ++ power) = some (ofDecimal m e) := by
  obtain ⟨c, cs, hcons, hc⟩ := mantissa_head h
  have hlower : c.toLower ≠ 'i' ∧ c.toLower ≠ 'n' := by
    rcases hc with hdigit | rfl
    · rw [toLower_of_isDigit hdigit]
      constructor <;> rintro rfl <;> cases hdigit
    · decide
  have hhead : ((mantissa ++ power).map Char.toLower).head? = some c.toLower := by
    rw [hcons]
    rfl
  obtain ⟨split, hsplit⟩ := splitMantissa_append h h'.head_clear
  obtain ⟨e, he⟩ := readExponent_power h'
  unfold readMagnitude?
  split
  · rename_i heq
    rw [heq] at hhead
    exact absurd (Option.some.inj hhead).symm hlower.1
  · rename_i heq
    rw [heq] at hhead
    exact absurd (Option.some.inj hhead).symm hlower.1
  · rename_i heq
    rw [heq] at hhead
    exact absurd (Option.some.inj hhead).symm hlower.2
  · rw [hsplit]
    simp only [Option.bind_eq_bind, Option.bind_some, he]
    exact ⟨_, _, rfl⟩

theorem ofText?_number {label : String} (h : Source.IsNumber label) :
    ∃ x, ofText? label = some x ∧ x.isNaN = false := by
  simp only [Source.IsNumber, Source.number?, Option.bind_eq_bind, Option.bind_eq_some_iff,
    Prod.exists, Option.some.injEq, Prod.mk.injEq] at h
  obtain ⟨mantissa, more, hdigits, hlabel, -⟩ := h
  have hmantissa := Source.mantissa_of_mantissa? hdigits
  obtain ⟨m, e, hread⟩ := readMagnitude?_number hmantissa (Source.power_of_splitExponent more)
  have hnumber := isNaN_ofDecimal m e
  unfold ofText? ofChars?
  rw [← hlabel, List.append_assoc]
  rcases Source.splitOne_fst ['-'] label.toList with hnone | ⟨c, hc, hone⟩
  · obtain ⟨d, cs, hcons, hd⟩ := mantissa_head hmantissa
    have hsign : d ∉ ['+', '-'] := by
      rcases hd with hdigit | rfl
      · exact Source.not_mem_of_isDigit hdigit
      · decide
    rw [hnone, List.nil_append]
    rw [hcons, List.cons_append] at hread ⊢
    rw [splitSign_other hsign]
    exact ⟨ofDecimal m e, by simp [hread], hnumber⟩
  · obtain rfl := List.mem_singleton.mp hc
    rw [hone, List.singleton_append]
    exact ⟨(ofDecimal m e).neg, by simp [splitSign, hread], by rw [isNaN_neg, hnumber]⟩

theorem ofText?_infinite {label : String} (h : Source.IsNumber label)
    (beyond : ∀ x, ofText? label = some x → x.isFinite = false) :
    ofText? label = some infinity ∨ ofText? label = some negInfinity := by
  obtain ⟨x, hx, number⟩ := ofText?_number h
  rcases eq_infinity (beyond x hx) number with rfl | rfl
  · exact .inl hx
  · exact .inr hx

end Texts

end FieldScript.Binary64
