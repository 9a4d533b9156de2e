import Mathlib.Data.List.TakeWhile
import FieldScript.Source.Lexeme

/-! Readers of lexemes against text that goes on. A word or a number that a reader takes whole is
also taken off a longer text, unless the next character could belong to it. -/
namespace FieldScript.Source

/-- No word or number goes on with this text. -/
def Apart : List Char → Prop
  | [] => True
  | c :: _ => isNameChar c = false ∧ c ∉ ['.', '+', '-']

variable {cs rest : List Char}

theorem isNameChar_of_isDigit {c : Char} (h : c.isDigit = true) : isNameChar c = true := by
  simp [isNameChar, Char.isAlphanum, h]

theorem span_append {test : Char → Bool} (h : ∀ c ∈ rest.head?, test c = false) :
    ((cs ++ rest).takeWhile test, (cs ++ rest).dropWhile test) =
      (cs.takeWhile test, cs.dropWhile test ++ rest) := by
  induction cs with
  | nil =>
    cases rest with
    | nil => rfl
    | cons c rest => simp [h c rfl]
  | cons c cs ih =>
    obtain ⟨htake, hdrop⟩ := Prod.mk.inj ih
    by_cases hc : test c = true
    · simp [hc, htake, hdrop]
    · simp [hc]

theorem splitWord_append (h : Apart rest) :
    splitWord (cs ++ rest) = ((splitWord cs).1, (splitWord cs).2 ++ rest) := by
  refine span_append ?_
  cases rest with
  | nil => simp
  | cons c rest => simpa using h.1

theorem splitDigits_append (h : Apart rest) :
    splitDigits (cs ++ rest) = ((splitDigits cs).1, (splitDigits cs).2 ++ rest) := by
  refine span_append ?_
  cases rest with
  | nil => simp
  | cons c rest =>
    intro d hd
    cases hd
    cases hdigit : c.isDigit with
    | true => exact absurd (isNameChar_of_isDigit hdigit) (by simp [h.1])
    | false => rfl

theorem splitOne_append {accepted : List Char} (h : ∀ c ∈ rest.head?, c ∉ accepted) :
    splitOne accepted (cs ++ rest) =
      ((splitOne accepted cs).1, (splitOne accepted cs).2 ++ rest) := by
  cases cs with
  | nil =>
    cases rest with
    | nil => rfl
    | cons c rest => simp [splitOne, h c rfl]
  | cons c cs =>
    simp only [List.cons_append, splitOne]
    split <;> rfl

def IsName (name : String) : Prop := name? name.toList = some (name.toList, [])

theorem IsName.split {name : String} (h : IsName name) :
    splitWord name.toList = (name.toList, []) ∧ isName name.toList = true := by
  cases hsplit : splitWord name.toList with
  | mk word left =>
    simp only [IsName, name?, hsplit, Option.ite_none_right_eq_some, Option.some.injEq,
      Prod.mk.injEq] at h
    obtain ⟨hword, rfl, rfl⟩ := h
    exact ⟨rfl, hword⟩

theorem splitWord_name {name : String} (h : IsName name) (hrest : Apart rest) :
    splitWord (name.toList ++ rest) = (name.toList, rest) := by
  rw [splitWord_append hrest, h.split.1, List.nil_append]

theorem name?_append {name : String} (h : IsName name) (hrest : Apart rest) :
    name? (name.toList ++ rest) = some (name.toList, rest) := by
  simp only [name?, splitWord_name h hrest, h.split.2, if_true]

theorem splitWord_eq_self {word : List Char} :
    splitWord word = (word, []) ↔ ∀ c ∈ word, isNameChar c = true := by
  simp only [splitWord, Prod.mk.injEq, List.takeWhile_eq_self_iff, List.dropWhile_eq_nil_iff,
    and_self]

/-- Letters, digits and underscores, with no digit in front, that are no reserved word. -/
theorem isName_iff {name : String} : IsName name ↔
    (∃ c cs, name.toList = c :: cs ∧ isNameStart c = true) ∧
      (∀ c ∈ name.toList, isNameChar c = true) ∧ name ∉ reserved := by
  constructor
  · intro h
    obtain ⟨hsplit, hname⟩ := h.split
    cases hlist : name.toList with
    | nil => simp [isName, hlist] at hname
    | cons c cs =>
      simp only [hlist, isName, Bool.and_eq_true, Bool.not_eq_true'] at hname
      rw [← hlist, String.ofList_toList] at hname
      rw [← hlist]
      exact ⟨⟨c, cs, hlist, hname.1⟩, splitWord_eq_self.mp hsplit, by simpa using hname.2⟩
  · rintro ⟨⟨c, cs, hlist, hstart⟩, hchars, hfree⟩
    have hname : isName name.toList = true := by
      have hword : isName name.toList =
          (isNameStart c && !reserved.contains (String.ofList name.toList)) := by
        rw [hlist]
        rfl
      rw [hword, String.ofList_toList]
      simpa [hstart] using hfree
    simp only [IsName, name?, splitWord_eq_self.mpr hchars, hname, if_true]

theorem exactly?_name {name word : String} (h : IsName name) (hrest : Apart rest)
    (hword : word ∈ reserved) : exactly? word (name.toList ++ rest) = none := by
  have hne : name.toList ≠ word.toList := by
    intro heq
    exact (isName_iff.mp h).2.2 (String.toList_injective heq ▸ hword)
  simp only [exactly?, splitWord_name h hrest, hne, if_false]

theorem IsName.head {name : String} (h : IsName name) :
    ∃ c cs, name.toList = c :: cs ∧ isNameStart c = true :=
  (isName_iff.mp h).1

def IsNumber (label : String) : Prop := number? label.toList = some (label.toList, [])

theorem Apart.not_point (h : Apart rest) : ∀ c ∈ rest.head?, c ≠ '.' := by
  cases rest with
  | nil => simp
  | cons c rest =>
    intro d hd hpoint
    cases hd
    exact h.2 (by simp [hpoint])

theorem Apart.not_sign (h : Apart rest) : ∀ c ∈ rest.head?, c ∉ ['+', '-'] := by
  cases rest with
  | nil => simp
  | cons c rest =>
    intro d hd hsign
    cases hd
    exact h.2 (List.mem_cons_of_mem '.' hsign)

theorem Apart.not_mark (h : Apart rest) : ∀ c ∈ rest.head?, c ∉ ['e', 'E'] := by
  cases rest with
  | nil => simp
  | cons c rest =>
    intro d hd hmark
    cases hd
    have hname := h.1
    simp only [List.mem_cons, List.not_mem_nil, or_false] at hmark
    rcases hmark with rfl | rfl
    · exact absurd hname (by decide)
    · exact absurd hname (by decide)

theorem mantissa?_append {piece left : List Char} (h : mantissa? cs = some (piece, left))
    (hrest : Apart rest) : mantissa? (cs ++ rest) = some (piece, left ++ rest) := by
  unfold mantissa? at h ⊢
  rw [splitDigits_append hrest]
  generalize splitDigits cs = digits at h ⊢
  rcases digits with ⟨_ | ⟨d, whole⟩, _ | ⟨c, more⟩⟩
  · cases h
  · by_cases hc : c = '.'
    · subst hc
      simp only [List.cons_append, splitDigits_append hrest] at h ⊢
      generalize splitDigits more = fraction at h ⊢
      rcases fraction with ⟨_ | ⟨f, fraction⟩, more⟩
      · cases h
      · cases h
        rfl
    · simp [hc] at h
  · cases h
    cases rest with
    | nil => rfl
    | cons c rest => simp [hrest.not_point c rfl]
  · by_cases hc : c = '.'
    · subst hc
      simp only [List.cons_append, splitDigits_append hrest] at h ⊢
      cases h
      rfl
    · simp only [List.cons_append]
      simp [hc] at h ⊢
      simp [← h.1, ← h.2]

theorem splitExponent_append (hrest : Apart rest) :
    splitExponent (cs ++ rest) = ((splitExponent cs).1, (splitExponent cs).2 ++ rest) := by
  unfold splitExponent
  rw [splitOne_append hrest.not_mark]
  rcases splitOne ['e', 'E'] cs with ⟨_ | ⟨mark, marks⟩, more⟩
  · rfl
  · simp only [splitOne_append hrest.not_sign, splitDigits_append hrest]
    rcases splitDigits (splitOne ['+', '-'] more).2 with ⟨_ | ⟨d, power⟩, more⟩
    · rfl
    · rfl

theorem number?_append {label : String} (h : IsNumber label) (hrest : Apart rest) :
    number? (label.toList ++ rest) = some (label.toList, rest) := by
  have hminus : ∀ c ∈ rest.head?, c ∉ ['-'] := by
    intro c hc hmem
    exact hrest.not_sign c hc (List.mem_cons_of_mem '+' hmem)
  simp only [IsNumber, number?, Option.bind_eq_bind, Option.bind_eq_some_iff, Prod.exists] at h
  obtain ⟨mantissa, more, hmantissa, h⟩ := h
  simp only [Option.some.injEq, Prod.mk.injEq] at h
  obtain ⟨hpiece, hmore⟩ := h
  simp only [number?, splitOne_append hminus, mantissa?_append hmantissa hrest,
    splitExponent_append hrest, Option.bind_eq_bind, Option.bind_some, hpiece, hmore,
    List.nil_append]

theorem le_toNat_of_isAlpha {c : Char} (h : c.isAlpha = true) : 65 ≤ c.toNat := by
  have hcases : c.isUpper = true ∨ c.isLower = true := (Bool.or_eq_true _ _).mp h
  rcases hcases with hupper | hlower
  · have hrange : 'A'.val ≤ c.val ∧ c.val ≤ 'Z'.val := of_decide_eq_true hupper
    exact UInt32.le_iff_toNat_le.mp hrange.1
  · have hrange : 'a'.val ≤ c.val := of_decide_eq_true ((Bool.and_eq_true _ _).mp hlower).1
    exact Nat.le_trans (by decide) (UInt32.le_iff_toNat_le.mp hrange)

theorem isDigit_of_isNameStart {c : Char} (h : isNameStart c = true) : c.isDigit = false := by
  cases hdigit : c.isDigit with
  | false => rfl
  | true =>
    have hhigh : c.toNat ≤ 57 := (Char.isDigit_iff_toNat.mp hdigit).2
    simp only [isNameStart, Bool.or_eq_true, beq_iff_eq] at h
    rcases h with hletter | rfl
    · have hlow := le_toNat_of_isAlpha hletter
      omega
    · cases hdigit

theorem number?_eq_none {c : Char} (h : isNameStart c = true) : number? (c :: cs) = none := by
  have hdigit := isDigit_of_isNameStart h
  have hminus : c ≠ '-' := by
    rintro rfl
    exact absurd h (by decide)
  have hpoint : c ≠ '.' := by
    rintro rfl
    exact absurd h (by decide)
  have hmantissa : mantissa? (c :: cs) = none := by
    simp [mantissa?, splitDigits, hdigit, hpoint]
  simp [number?, splitOne, hminus, hmantissa]

theorem name?_eq_none {c : Char} (h : isNameStart c = false) : name? (c :: cs) = none := by
  by_cases hc : isNameChar c = true
  · simp [name?, splitWord, hc, isName, h]
  · simp [name?, splitWord, hc, isName]

theorem number?_name {name : String} (h : IsName name) : number? (name.toList ++ rest) = none := by
  obtain ⟨c, cs, hname, hstart⟩ := h.head
  rw [hname]
  exact number?_eq_none hstart

theorem name?_number {label : String} (h : IsNumber label) :
    name? (label.toList ++ rest) = none := by
  cases hlabel : label.toList with
  | nil =>
    rw [IsNumber, hlabel] at h
    cases h
  | cons c cs =>
    refine name?_eq_none ?_
    cases hstart : isNameStart c with
    | false => rfl
    | true =>
      rw [IsNumber, hlabel, number?_eq_none hstart] at h
      cases h

end FieldScript.Source
