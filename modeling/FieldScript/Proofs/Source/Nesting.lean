import FieldScript.Source.Parens

/-! How deep the parentheses of a text nest, and that a text is refused for it exactly when it
nests deeper than the limit. A piece whose parentheses match nests equally deep wherever it
stands, so the nesting of a text can be put together from that of its pieces. -/
namespace FieldScript.Source

/-- The most parentheses open at once when `depth` are open already. A closing one without an open
one is ignored. -/
def deepestFrom (depth : Nat) : List Char → Nat
  | [] => depth
  | c :: cs =>
    if c = '(' then deepestFrom (depth + 1) cs
    else if c = ')' then max depth (deepestFrom (depth - 1) cs)
    else deepestFrom depth cs

def nesting (source : List Char) : Nat := deepestFrom 0 source

theorem le_deepestFrom (depth : Nat) (cs : List Char) : depth ≤ deepestFrom depth cs := by
  induction cs generalizing depth with
  | nil => exact Nat.le_refl depth
  | cons c cs ih =>
    unfold deepestFrom
    split
    · have := ih (depth + 1)
      omega
    · split
      · omega
      · exact ih depth

theorem tooDeepFrom_eq_none {limit depth : Nat} (pos : Nat) (cs : List Char)
    (h : depth ≤ limit) : tooDeepFrom limit pos depth cs = none ↔ deepestFrom depth cs ≤ limit := by
  induction cs generalizing pos depth with
  | nil => simp [tooDeepFrom, deepestFrom, h]
  | cons c cs ih =>
    unfold tooDeepFrom deepestFrom
    by_cases hopen : c = '('
    · rw [if_pos hopen, if_pos hopen]
      by_cases hlimit : limit < depth + 1
      · have hle := le_deepestFrom (depth + 1) cs
        rw [if_pos hlimit]
        simp only [reduceCtorEq, false_iff]
        omega
      · rw [if_neg hlimit]
        exact ih (pos + 1) (by omega)
    · rw [if_neg hopen, if_neg hopen]
      by_cases hclose : c = ')'
      · rw [if_pos hclose, if_pos hclose, ih (pos + 1) (by omega)]
        omega
      · rw [if_neg hclose, if_neg hclose]
        exact ih (pos + c.utf8Size) h

theorem tooDeep_eq_none {limit : Nat} {source : List Char} :
    tooDeep limit source = none ↔ nesting source ≤ limit :=
  tooDeepFrom_eq_none 0 source (Nat.zero_le limit)

/-- The parentheses of a piece match, and at most `height` of them are open at once. -/
def Nests (height : Nat) (piece : List Char) : Prop :=
  ∀ depth rest, deepestFrom depth (piece ++ rest) = max (depth + height) (deepestFrom depth rest)

variable {m n : Nat} {x y : List Char}

theorem Nests.append (h : Nests m x) (h' : Nests n y) : Nests (max m n) (x ++ y) := by
  intro depth rest
  rw [List.append_assoc, h, h']
  omega

theorem Nests.enclosed (h : Nests n x) : Nests (n + 1) ('(' :: (x ++ [')'])) := by
  intro depth rest
  have hopen : deepestFrom depth ('(' :: (x ++ [')']) ++ rest) =
      deepestFrom (depth + 1) (x ++ ')' :: rest) := by
    simp [deepestFrom]
  have hclose : deepestFrom (depth + 1) (')' :: rest) = max (depth + 1) (deepestFrom depth rest) := by
    simp [deepestFrom]
  rw [hopen, h, hclose]
  omega

theorem nests_nil : Nests 0 [] := by
  intro depth rest
  have hle := le_deepestFrom depth rest
  rw [List.nil_append]
  omega

theorem nests_of_not_mem (h : '(' ∉ x) (h' : ')' ∉ x) : Nests 0 x := by
  induction x with
  | nil => exact nests_nil
  | cons c x ih =>
    rw [List.mem_cons, not_or] at h h'
    intro depth rest
    rw [List.cons_append, deepestFrom, if_neg (Ne.symm h.1), if_neg (Ne.symm h'.1)]
    exact ih h.2 h'.2 depth rest

theorem Nests.nesting_eq (h : Nests n x) : nesting x = n := by
  have hwhole := h 0 []
  simpa [nesting, deepestFrom] using hwhole

end FieldScript.Source
