import FieldScript.Proofs.Source.Nesting

/-! Parentheses counted and parentheses matched. Reading a text, a closing parenthesis without an
open one is ignored, so the number left open is what the counts say exactly if no place has more
closing than opening ones before it. That is so in a piece whose parentheses match. -/
namespace FieldScript.Source

variable {n depth : Nat} {c : Char} {cs x y : List Char}

def depthAfter (depth : Nat) : List Char → Nat
  | [] => depth
  | c :: cs =>
    if c = '(' then depthAfter (depth + 1) cs
    else if c = ')' then depthAfter (depth - 1) cs
    else depthAfter depth cs

theorem length_openParensFrom (pos : Nat) (stack : List Nat) (cs : List Char) :
    (openParensFrom pos stack cs).length = depthAfter stack.length cs := by
  induction cs generalizing pos stack with
  | nil => rfl
  | cons c cs ih =>
    simp only [openParensFrom, depthAfter, ih]
    split
    · rfl
    · split
      · rw [List.length_tail]
      · rfl

theorem isSome_unclosedParen_iff : (unclosedParen cs).isSome = true ↔ 0 < depthAfter 0 cs := by
  have hlength := length_openParensFrom 0 [] cs
  rw [List.length_nil] at hlength
  rw [unclosedParen, Option.isSome_map, List.isSome_head?, ← hlength, List.length_pos_iff]

theorem count_le_depthAfter (depth : Nat) (cs : List Char) :
    depth + cs.count '(' ≤ depthAfter depth cs + cs.count ')' := by
  induction cs generalizing depth with
  | nil => simp [depthAfter]
  | cons c cs ih =>
    unfold depthAfter
    by_cases hopen : c = '('
    · have := ih (depth + 1)
      simp only [hopen, if_true, List.count_cons_self, List.count_cons_of_ne, ne_eq, Char.reduceEq,
        not_false_eq_true]
      omega
    · by_cases hclose : c = ')'
      · have := ih (depth - 1)
        simp only [hclose, if_true, Char.reduceEq, if_false, List.count_cons_self,
          List.count_cons_of_ne, ne_eq, not_false_eq_true]
        omega
      · rw [if_neg hopen, if_neg hclose, List.count_cons_of_ne hopen, List.count_cons_of_ne hclose]
        exact ih depth

/-- At no place are there more closing parentheses before it than are open to be closed. -/
def Opened (depth : Nat) (cs : List Char) : Prop :=
  ∀ before, before <+: cs → before.count ')' ≤ depth + before.count '('

theorem opened_cons : Opened depth (c :: cs) ↔
    ∀ before, before <+: cs → (c :: before).count ')' ≤ depth + (c :: before).count '(' := by
  constructor
  · exact fun h before hbefore => h (c :: before) (List.cons_prefix_cons.mpr ⟨rfl, hbefore⟩)
  · intro h before hbefore
    rcases List.prefix_cons_iff.mp hbefore with rfl | ⟨rest, rfl, hrest⟩
    · simp
    · exact h rest hrest

theorem opened_cons_open : Opened depth ('(' :: cs) ↔ Opened (depth + 1) cs := by
  rw [opened_cons, Opened]
  refine forall₂_congr fun before _ => ?_
  rw [List.count_cons_self, List.count_cons_of_ne (by decide)]
  omega

theorem opened_cons_close : Opened depth (')' :: cs) ↔ 0 < depth ∧ Opened (depth - 1) cs := by
  have hstep (before : List Char) : (')' :: before).count ')' ≤ depth + (')' :: before).count '(' ↔
      before.count ')' + 1 ≤ depth + before.count '(' := by
    rw [List.count_cons_self, List.count_cons_of_ne (by decide)]
  rw [opened_cons]
  simp only [hstep, Opened]
  constructor
  · intro h
    have hpos : 1 ≤ depth := by simpa using h [] List.nil_prefix
    exact ⟨hpos, fun before hbefore => by have := h before hbefore; omega⟩
  · rintro ⟨hpos, h⟩ before hbefore
    have := h before hbefore
    omega

theorem opened_cons_other (hopen : c ≠ '(') (hclose : c ≠ ')') :
    Opened depth (c :: cs) ↔ Opened depth cs := by
  rw [opened_cons, Opened]
  refine forall₂_congr fun before _ => ?_
  rw [List.count_cons_of_ne hopen, List.count_cons_of_ne hclose]

/-- The counts say how many are left open exactly if no closing parenthesis was ignored. -/
theorem depthAfter_eq_iff : depthAfter depth cs + cs.count ')' = depth + cs.count '(' ↔
    Opened depth cs := by
  induction cs generalizing depth with
  | nil => simp [depthAfter, Opened]
  | cons c cs ih =>
    by_cases hopen : c = '('
    · subst hopen
      rw [opened_cons_open, ← ih, depthAfter, if_pos rfl, List.count_cons_self,
        List.count_cons_of_ne (by decide)]
      omega
    · by_cases hclose : c = ')'
      · subst hclose
        have hle := count_le_depthAfter (depth - 1) cs
        rw [opened_cons_close, ← ih, depthAfter, if_neg hopen, if_pos rfl, List.count_cons_self,
          List.count_cons_of_ne hopen]
        omega
      · rw [opened_cons_other hopen hclose, ← ih, depthAfter, if_neg hopen, if_neg hclose,
          List.count_cons_of_ne hopen, List.count_cons_of_ne hclose]

theorem Opened.of_cut (h : Opened depth cs) (hx : x <+: cs) : Opened depth x :=
  fun before hbefore => h before (hbefore.trans hx)

theorem deepestFrom_append (depth : Nat) (x y : List Char) :
    deepestFrom depth (x ++ y) =
      max (deepestFrom depth x) (deepestFrom (depthAfter depth x) y) := by
  induction x generalizing depth with
  | nil => exact (Nat.max_eq_right (le_deepestFrom depth y)).symm
  | cons c x ih =>
    simp only [List.cons_append, deepestFrom, depthAfter]
    split
    · exact ih (depth + 1)
    · split
      · rw [ih, Nat.max_assoc]
      · exact ih depth

theorem nesting_le_of_cut (h : x <+: y) : nesting x ≤ nesting y := by
  obtain ⟨rest, rfl⟩ := h
  rw [nesting, nesting, deepestFrom_append]
  exact Nat.le_max_left _ _

theorem deepestFrom_replicate (depth more : Nat) :
    deepestFrom depth (List.replicate more '(') = depth + more := by
  induction more generalizing depth with
  | zero => rfl
  | succ more ih =>
    rw [List.replicate_succ, deepestFrom, if_pos rfl, ih]
    omega

theorem Nests.depthAfter_eq (h : Nests n x) (depth : Nat) : depthAfter depth x = depth := by
  have hfollowed := h depth (List.replicate (n + deepestFrom depth x + 1) '(')
  rw [deepestFrom_append, deepestFrom_replicate, deepestFrom_replicate] at hfollowed
  omega

/-- As many parentheses are closed as opened, and none is closed before it is opened. -/
structure Balanced (cs : List Char) : Prop where
  closed : cs.count ')' = cs.count '('
  opened : Opened 0 cs

theorem Nests.balanced (h : Nests n x) : Balanced x := by
  have hclosed : x.count ')' = x.count '(' := by
    -- With enough open before the piece, no closing parenthesis of it is ignored.
    have hopened : Opened (x.count ')') x := fun before hbefore =>
      Nat.le_add_right_of_le (hbefore.sublist.count_le ')')
    have heq := depthAfter_eq_iff.mpr hopened
    rw [h.depthAfter_eq] at heq
    omega
  refine ⟨hclosed, depthAfter_eq_iff.mp ?_⟩
  rw [h.depthAfter_eq, hclosed]

end FieldScript.Source
