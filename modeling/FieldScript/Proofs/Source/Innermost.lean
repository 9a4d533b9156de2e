import FieldScript.Proofs.Source.Balance
import FieldScript.Proofs.Source.Spans

/-! Which open parenthesis of a text is reported. A text is of one of two kinds. Either a
parenthesis opens in it behind which all others match: that is the innermost one left open, whatever
stands before it. Or it closes all that it opens, and perhaps some more: it leaves none open. -/
namespace FieldScript.Source

variable {depth place : Nat} {span : Span} {c : Char} {cs : List Char}

/-- The text closes `depth` parentheses that are open before it and all of its own, and no others. -/
structure Closes (depth : Nat) (cs : List Char) : Prop where
  closed : cs.count ')' = depth + cs.count '('
  opened : Opened depth cs

theorem closes_iff : Closes depth cs ↔ cs.count ')' = depth + cs.count '(' ∧ Opened depth cs :=
  ⟨fun h => ⟨h.closed, h.opened⟩, fun h => ⟨h.1, h.2⟩⟩

theorem balanced_iff_closes : Balanced cs ↔ Closes 0 cs := by
  rw [closes_iff, Nat.zero_add]
  exact ⟨fun h => ⟨h.closed, h.opened⟩, fun h => ⟨h.1, h.2⟩⟩

theorem closes_nil : Closes depth [] ↔ depth = 0 := by
  simp [closes_iff, Opened, eq_comm]

theorem closes_cons_open : Closes depth ('(' :: cs) ↔ Closes (depth + 1) cs := by
  rw [closes_iff, closes_iff, opened_cons_open, List.count_cons_self,
    List.count_cons_of_ne (by decide)]
  exact and_congr_left fun _ => by omega

theorem closes_cons_close : Closes (depth + 1) (')' :: cs) ↔ Closes depth cs := by
  rw [closes_iff, closes_iff, opened_cons_close, and_iff_right (Nat.succ_pos depth),
    Nat.add_sub_cancel, List.count_cons_self, List.count_cons_of_ne (by decide)]
  exact and_congr_left fun _ => by omega

theorem closes_cons_other (hopen : c ≠ '(') (hclose : c ≠ ')') :
    Closes depth (c :: cs) ↔ Closes depth cs := by
  rw [closes_iff, opened_cons_other hopen hclose, List.count_cons_of_ne hopen,
    List.count_cons_of_ne hclose, ← closes_iff]

theorem openParensFrom_append (pos : Nat) (stack : List Nat) (x y : List Char) :
    openParensFrom pos stack (x ++ y) =
      openParensFrom (pos + byteLength x) (openParensFrom pos stack x) y := by
  induction x generalizing pos stack with
  | nil => rfl
  | cons c x ih =>
    rw [List.cons_append, openParensFrom, ih, byteLength_cons, Nat.add_assoc]
    rfl

theorem Closes.openParensFrom_eq (h : Closes depth cs) (pos : Nat) (stack : List Nat) :
    openParensFrom pos stack cs = stack.drop depth := by
  induction cs generalizing depth pos stack with
  | nil =>
    rw [closes_nil.mp h]
    rfl
  | cons c cs ih =>
    unfold openParensFrom
    by_cases hopen : c = '('
    · subst hopen
      exact ih (closes_cons_open.mp h) _ (pos :: stack)
    · rw [if_neg hopen]
      by_cases hclose : c = ')'
      · subst hclose
        obtain ⟨rest, rfl⟩ := Nat.exists_eq_add_one.mpr (opened_cons_close.mp h.opened).1
        rw [if_pos rfl, ih (closes_cons_close.mp h), List.drop_tail]
      · rw [if_neg hclose]
        exact ih ((closes_cons_other hopen hclose).mp h) _ stack

/-- A parenthesis opens at this byte position, and behind it they all match. Nothing is asked of the
text before it: it may leave some open, or close more than it opens. -/
def InnermostOpen (place : Nat) (cs : List Char) : Prop :=
  ∃ before after, cs = before ++ '(' :: after ∧ place = byteLength before ∧ Balanced after

theorem InnermostOpen.opensAt (h : InnermostOpen place cs) : OpensAt 0 place cs := by
  obtain ⟨before, after, hcut, hplace, -⟩ := h
  exact ⟨before, after, hcut, hplace.trans (Nat.zero_add _).symm⟩

theorem innermostOpen_or_closes (cs : List Char) :
    (∃ place, InnermostOpen place cs) ∨ ∃ depth, Closes depth cs := by
  induction cs with
  | nil => exact .inr ⟨0, closes_nil.mpr rfl⟩
  | cons c cs ih =>
    rcases ih with ⟨_, before, after, rfl, -, hafter⟩ | ⟨depth, hcloses⟩
    · exact .inl ⟨_, c :: before, after, rfl, rfl, hafter⟩
    · by_cases hopen : c = '('
      · subst hopen
        -- The parenthesis is closed by the text behind it unless that text closes only its own.
        cases depth with
        | zero => exact .inl ⟨0, [], cs, rfl, rfl, balanced_iff_closes.mpr hcloses⟩
        | succ depth => exact .inr ⟨depth, closes_cons_open.mpr hcloses⟩
      · by_cases hclose : c = ')'
        · subst hclose
          exact .inr ⟨depth + 1, closes_cons_close.mpr hcloses⟩
        · exact .inr ⟨depth, (closes_cons_other hopen hclose).mpr hcloses⟩

theorem InnermostOpen.unclosedParen_eq (h : InnermostOpen place cs) :
    unclosedParen cs = some ⟨place, place + 1⟩ := by
  obtain ⟨before, after, rfl, rfl, hafter⟩ := h
  have hopen : openParensFrom 0 [] (before ++ '(' :: after) =
      byteLength before :: openParensFrom 0 [] before := by
    rw [openParensFrom_append, Nat.zero_add, openParensFrom, if_pos rfl,
      (balanced_iff_closes.mp hafter).openParensFrom_eq, List.drop_zero]
  rw [unclosedParen, hopen, List.head?_cons, Option.map_some]

theorem Closes.unclosedParen_eq (h : Closes depth cs) : unclosedParen cs = none := by
  rw [unclosedParen, h.openParensFrom_eq, List.drop_nil]
  rfl

theorem unclosedParen_eq_some_iff :
    unclosedParen cs = some span ↔ ∃ place, InnermostOpen place cs ∧ span = ⟨place, place + 1⟩ := by
  constructor
  · intro h
    rcases innermostOpen_or_closes cs with ⟨place, hplace⟩ | ⟨depth, hcloses⟩
    · rw [hplace.unclosedParen_eq, Option.some_inj] at h
      exact ⟨place, hplace, h.symm⟩
    · rw [hcloses.unclosedParen_eq] at h
      cases h
  · rintro ⟨place, hplace, rfl⟩
    exact hplace.unclosedParen_eq

theorem unclosedParen_eq_none_iff :
    unclosedParen cs = none ↔ ∀ place, ¬ InnermostOpen place cs := by
  simp only [Option.eq_none_iff_forall_ne_some, ne_eq, unclosedParen_eq_some_iff, not_exists,
    not_and]
  exact ⟨fun h place hplace => h _ place hplace rfl, fun h _ place hplace => absurd hplace (h place)⟩

theorem InnermostOpen.unique {place' : Nat} (h : InnermostOpen place cs)
    (h' : InnermostOpen place' cs) : place = place' := by
  have heq := h.unclosedParen_eq.symm.trans h'.unclosedParen_eq
  exact congrArg Span.start (Option.some_inj.mp heq)

theorem covers_of_unclosedParen (h : unclosedParen cs = some span) : span.Covers cs ['('] := by
  obtain ⟨place, hplace, rfl⟩ := unclosedParen_eq_some_iff.mp h
  exact hplace.opensAt.covers

/-- The parenthesis that is reported is the innermost one left open, of which there is at most one.
Nothing is reported exactly where there is none. -/
theorem unclosedParen_innermost (source : List Char) :
    (∀ span, unclosedParen source = some span ↔
      ∃ place, InnermostOpen place source ∧ span = ⟨place, place + 1⟩) ∧
    (∀ place place', InnermostOpen place source → InnermostOpen place' source → place = place') ∧
    (unclosedParen source = none ↔ ∀ place, ¬ InnermostOpen place source) :=
  ⟨fun _ => unclosedParen_eq_some_iff, fun _ _ => InnermostOpen.unique, unclosedParen_eq_none_iff⟩

example : unclosedParen "))é(a(b)".toList = some ⟨4, 5⟩ := by decide

end FieldScript.Source
