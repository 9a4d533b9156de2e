import FieldScript.Proofs.Source.Alike
import FieldScript.Proofs.Source.Nesting

/-! The text without its comments. No lexeme goes on into a comment, and none goes on across the end
of a line where the comment stood, so the two texts go on alike. Only the parentheses that a comment
holds tell how deep the two nest. -/
namespace FieldScript.Source

/-- The text with its comments taken out; `inside` says that a comment is being read. The end of a
line is not part of the comment before it. -/
def withoutCommentsFrom (inside : Bool) : List Char → List Char
  | [] => []
  | c :: cs =>
    if c = '#' ∨ inside = true ∧ endsLine c = false then withoutCommentsFrom true cs
    else c :: withoutCommentsFrom false cs

def withoutComments (source : List Char) : List Char := withoutCommentsFrom false source

variable {cs : List Char} {c : Char}

theorem withoutComments_cons (h : c ≠ '#') :
    withoutComments (c :: cs) = c :: withoutComments cs := by
  rw [withoutComments, withoutCommentsFrom, if_neg (by simp [h])]
  rfl

theorem endsLine_of_head_comment :
    ∀ c ∈ (withoutCommentsFrom true cs).head?, endsLine c = true := by
  induction cs with
  | nil => simp [withoutCommentsFrom]
  | cons d cs ih =>
    rw [withoutCommentsFrom]
    split
    · exact ih
    · rename_i hkept
      intro c hc
      cases hc
      cases hline : endsLine d with
      | true => rfl
      | false => exact absurd (.inr ⟨rfl, hline⟩) hkept

theorem mark_not_mem_withoutCommentsFrom (inside : Bool) (cs : List Char) :
    '#' ∉ withoutCommentsFrom inside cs := by
  induction cs generalizing inside with
  | nil => simp [withoutCommentsFrom]
  | cons c cs ih =>
    rw [withoutCommentsFrom]
    split
    · exact ih true
    · rename_i hkept
      rw [List.mem_cons, not_or]
      exact ⟨fun heq => hkept (.inl heq.symm), ih false⟩

theorem mark_not_mem_withoutComments (cs : List Char) : '#' ∉ withoutComments cs :=
  mark_not_mem_withoutCommentsFrom false cs

theorem count_withoutCommentsFrom_le (a : Char) (inside : Bool) (cs : List Char) :
    (withoutCommentsFrom inside cs).count a ≤ cs.count a := by
  induction cs generalizing inside with
  | nil => exact Nat.le_refl _
  | cons c cs ih =>
    rw [withoutCommentsFrom]
    split
    · exact Nat.le_trans (ih true) List.count_le_count_cons
    · rw [List.count_cons, List.count_cons]
      exact Nat.add_le_add_right (ih false) _

/-- No comment of the text holds this character. -/
def CommentsLack (c : Char) (cs : List Char) : Prop := (withoutComments cs).count c = cs.count c

instance (c : Char) (cs : List Char) : Decidable (CommentsLack c cs) :=
  inferInstanceAs (Decidable (_ = _))

theorem deepestFrom_mono {low high : Nat} (h : low ≤ high) (cs : List Char) :
    deepestFrom low cs ≤ deepestFrom high cs := by
  induction cs generalizing low high with
  | nil => exact h
  | cons c cs ih =>
    unfold deepestFrom
    split
    · exact ih (by omega)
    · split
      · have := ih (show low - 1 ≤ high - 1 by omega)
        omega
      · exact ih h

theorem deepestFrom_le_cons (h : c ≠ ')') (depth : Nat) (cs : List Char) :
    deepestFrom depth cs ≤ deepestFrom depth (c :: cs) := by
  rw [deepestFrom, if_neg h]
  split
  · exact deepestFrom_mono (Nat.le_succ depth) cs
  · exact Nat.le_refl _

theorem deepestFrom_cons_le (h : c ≠ '(') (depth : Nat) (cs : List Char) :
    deepestFrom depth (c :: cs) ≤ deepestFrom depth cs := by
  rw [deepestFrom, if_neg h]
  split
  · have hmono := deepestFrom_mono (Nat.sub_le depth 1) cs
    have hle := le_deepestFrom depth cs
    omega
  · exact Nat.le_refl _

theorem count_kept {a d : Char} {inside : Bool}
    (h : (withoutCommentsFrom inside cs).count a = (d :: cs).count a) :
    d ≠ a ∧ (withoutCommentsFrom inside cs).count a = cs.count a := by
  have hle := count_withoutCommentsFrom_le a inside cs
  rw [List.count_cons] at h
  by_cases hd : d = a
  · simp only [hd, beq_self_eq_true, if_true] at h
    omega
  · simp only [beq_iff_eq, hd, if_false] at h
    exact ⟨hd, h⟩

theorem deepestFrom_withoutCommentsFrom_le {inside : Bool} {depth : Nat}
    (h : (withoutCommentsFrom inside cs).count ')' = cs.count ')') :
    deepestFrom depth (withoutCommentsFrom inside cs) ≤ deepestFrom depth cs := by
  induction cs generalizing inside depth with
  | nil => exact Nat.le_refl _
  | cons c cs ih =>
    rw [withoutCommentsFrom] at h ⊢
    split at h
    · rename_i hdropped
      obtain ⟨hne, hrest⟩ := count_kept h
      rw [if_pos hdropped]
      exact Nat.le_trans (ih hrest) (deepestFrom_le_cons hne depth cs)
    · rename_i hkept
      have hrest : (withoutCommentsFrom false cs).count ')' = cs.count ')' := by
        rw [List.count_cons, List.count_cons] at h
        exact Nat.add_right_cancel h
      rw [if_neg hkept]
      unfold deepestFrom
      split
      · exact ih hrest
      · split
        · have hless := @ih false (depth - 1) hrest
          omega
        · exact ih hrest

theorem deepestFrom_le_withoutCommentsFrom {inside : Bool} {depth : Nat}
    (h : (withoutCommentsFrom inside cs).count '(' = cs.count '(') :
    deepestFrom depth cs ≤ deepestFrom depth (withoutCommentsFrom inside cs) := by
  induction cs generalizing inside depth with
  | nil => exact Nat.le_refl _
  | cons c cs ih =>
    rw [withoutCommentsFrom] at h ⊢
    split at h
    · rename_i hdropped
      obtain ⟨hne, hrest⟩ := count_kept h
      rw [if_pos hdropped]
      exact Nat.le_trans (deepestFrom_cons_le hne depth cs) (ih hrest)
    · rename_i hkept
      have hrest : (withoutCommentsFrom false cs).count '(' = cs.count '(' := by
        rw [List.count_cons, List.count_cons] at h
        exact Nat.add_right_cancel h
      rw [if_neg hkept]
      unfold deepestFrom
      split
      · exact ih hrest
      · split
        · have hless := @ih false (depth - 1) hrest
          omega
        · exact ih hrest

theorem nesting_withoutComments_le (h : CommentsLack ')' cs) :
    nesting (withoutComments cs) ≤ nesting cs := deepestFrom_withoutCommentsFrom_le h

theorem nesting_le_withoutComments (h : CommentsLack '(' cs) :
    nesting cs ≤ nesting (withoutComments cs) := deepestFrom_le_withoutCommentsFrom h

theorem splitBlanks_withoutCommentsFrom (inside : Bool) (cs : List Char) :
    (splitBlanks false (withoutCommentsFrom inside cs)).2 =
      withoutComments (splitBlanks inside cs).2 := by
  have hblank {c : Char} (h : endsLine c = true) : isBlank c = true := by
    simp only [endsLine, Bool.or_eq_true, beq_iff_eq] at h
    rcases h with rfl | rfl <;> decide
  induction cs generalizing inside with
  | nil => cases inside <;> rfl
  | cons c cs ih =>
    by_cases hmark : c = '#'
    · subst hmark
      have hline : endsLine '#' = false := by decide
      rw [withoutCommentsFrom, if_pos (.inl rfl), ih]
      cases inside <;> simp [splitBlanks, hline]
    · have hother : (c == '#') = false := by simpa using hmark
      cases inside with
      | true =>
        cases hline : endsLine c with
        | false =>
          rw [withoutCommentsFrom, if_pos (.inr ⟨rfl, hline⟩), ih]
          simp [splitBlanks, hline]
        | true =>
          rw [withoutCommentsFrom, if_neg (by simp [hmark, hline])]
          simp [splitBlanks, hblank hline, hother, hline, ih]
      | false =>
        rw [withoutCommentsFrom, if_neg (by simp [hmark])]
        cases hc : isBlank c with
        | true => simp [splitBlanks, hc, hother, ih]
        | false => simp [splitBlanks, hc, hmark, withoutComments, withoutCommentsFrom]

theorem goOnAlike_withoutComments : GoOnAlike isSkipped fun cs ds => ds = withoutComments cs := by
  rintro cs _ rfl
  cases cs with
  | nil => exact .gap nofun nofun
  | cons c cs =>
    by_cases hc : c = '#'
    · subst hc
      refine .gap (by simp [isSkipped]) fun c hhead => ?_
      have hline := endsLine_of_head_comment c hhead
      simp only [endsLine, Bool.or_eq_true, beq_iff_eq] at hline
      rcases hline with rfl | rfl <;> decide
    · rw [withoutComments_cons hc]
      exact .same c rfl

end FieldScript.Source
