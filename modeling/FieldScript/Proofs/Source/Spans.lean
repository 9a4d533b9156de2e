import FieldScript.Parse

/-! What stands under a span. A span that is counted out of a source text, from the text before a
place or from the text behind it, covers the text between its ends; so do the places of parentheses. -/
namespace FieldScript

/-- The span lies in the source and between its characters, and this text stands under it. -/
structure Span.Covers (span : Span) (source text : List Char) : Prop where
  ordered : span.start ≤ span.stop
  bounded : span.stop ≤ Source.byteLength source
  spanned : span.textIn? source = some text

namespace Source

variable {before text after cs : List Char}

theorem byteLength_cons (c : Char) (cs : List Char) :
    byteLength (c :: cs) = c.utf8Size + byteLength cs := rfl

theorem byteLength_append (x y : List Char) :
    byteLength (x ++ y) = byteLength x + byteLength y := by
  induction x with
  | nil => exact (Nat.zero_add _).symm
  | cons c x ih => rw [List.cons_append, byteLength_cons, byteLength_cons, ih, Nat.add_assoc]

theorem splitAt?_append (before after : List Char) :
    splitAt? (byteLength before) (before ++ after) = some (before, after) := by
  induction before with
  | nil => exact splitAt?.eq_def 0 after
  | cons c before ih =>
    obtain ⟨n, hn⟩ : ∃ n, byteLength (c :: before) = n + 1 :=
      Nat.exists_eq_add_one.mpr (Nat.add_pos_left c.utf8Size_pos _)
    have hleft : n + 1 - c.utf8Size = byteLength before := by
      rw [← hn, byteLength_cons, Nat.add_sub_cancel_left]
    have hfits : c.utf8Size ≤ n + 1 := by
      rw [← hn, byteLength_cons]
      exact Nat.le_add_right _ _
    rw [hn, List.cons_append, splitAt?, if_pos hfits, hleft, ih]
    rfl

theorem splitAt?_eq_some {n : Nat} (h : splitAt? n cs = some (before, after)) :
    cs = before ++ after ∧ n = byteLength before := by
  induction cs generalizing n before with
  | nil =>
    cases n <;> cases h
    exact ⟨rfl, rfl⟩
  | cons c cs ih =>
    cases n with
    | zero =>
      cases h
      exact ⟨rfl, rfl⟩
    | succ n =>
      rw [splitAt?, Option.ite_none_right_eq_some, Option.map_eq_some_iff] at h
      obtain ⟨hfits, ⟨first, rest⟩, hrest, heq⟩ := h
      cases heq
      obtain ⟨rfl, hbytes⟩ := ih hrest
      exact ⟨rfl, by rw [byteLength_cons, ← hbytes, Nat.add_sub_cancel' hfits]⟩

theorem length_le_byteLength (cs : List Char) : cs.length ≤ byteLength cs := by
  induction cs with
  | nil => exact Nat.le_refl 0
  | cons c cs ih =>
    rw [List.length_cons, byteLength_cons]
    have hsize := c.utf8Size_pos
    omega

theorem byteLength_eq_length_iff :
    byteLength cs = cs.length ↔ ∀ c ∈ cs, c.utf8Size = 1 := by
  induction cs with
  | nil => exact ⟨fun _ => List.forall_mem_nil _, fun _ => rfl⟩
  | cons c cs ih =>
    have hsize := c.utf8Size_pos
    have hrest := length_le_byteLength cs
    rw [List.forall_mem_cons, ← ih, byteLength_cons, List.length_cons]
    omega

theorem covers_append (before text after : List Char) :
    (Span.mk (byteLength before) (byteLength before + byteLength text)).Covers
      (before ++ (text ++ after)) text where
  ordered := Nat.le_add_right _ _
  bounded := by
    rw [byteLength_append, byteLength_append, ← Nat.add_assoc]
    exact Nat.le_add_right _ _
  spanned := by
    simp only [Span.textIn?, Nat.le_add_right, if_true, splitAt?_append, Nat.add_sub_cancel_left,
      Option.bind_eq_bind, Option.bind_some]

def OpensAt (pos place : Nat) (cs : List Char) : Prop :=
  ∃ before after, cs = before ++ '(' :: after ∧ place = pos + byteLength before

theorem opensAt_head (pos : Nat) (cs : List Char) : OpensAt pos pos ('(' :: cs) :=
  ⟨[], cs, rfl, rfl⟩

theorem OpensAt.cons {pos place : Nat} {c : Char} (h : OpensAt (pos + c.utf8Size) place cs) :
    OpensAt pos place (c :: cs) := by
  obtain ⟨before, after, rfl, rfl⟩ := h
  exact ⟨c :: before, after, rfl, by rw [byteLength_cons, Nat.add_assoc]⟩

theorem OpensAt.covers {place : Nat} (h : OpensAt 0 place cs) :
    (Span.mk place (place + 1)).Covers cs ['('] := by
  obtain ⟨before, after, rfl, rfl⟩ := h
  rw [Nat.zero_add]
  exact covers_append before ['('] after

theorem opensAt_of_tooDeepFrom {limit pos depth : Nat} {span : Span}
    (h : tooDeepFrom limit pos depth cs = some span) :
    ∃ place, OpensAt pos place cs ∧ span = ⟨place, place + 1⟩ := by
  induction cs generalizing pos depth with
  | nil => cases h
  | cons c cs ih =>
    unfold tooDeepFrom at h
    by_cases hopen : c = '('
    · rw [if_pos hopen] at h
      subst hopen
      split at h
      · cases h
        exact ⟨pos, opensAt_head pos cs, rfl⟩
      · obtain ⟨place, hplace, rfl⟩ := ih h
        exact ⟨place, hplace.cons, rfl⟩
    · rw [if_neg hopen] at h
      split at h
      · rename_i hclose
        subst hclose
        obtain ⟨place, hplace, rfl⟩ := ih h
        exact ⟨place, hplace.cons, rfl⟩
      · obtain ⟨place, hplace, rfl⟩ := ih h
        exact ⟨place, hplace.cons, rfl⟩

theorem covers_of_tooDeep {limit : Nat} {span : Span} (h : tooDeep limit cs = some span) :
    span.Covers cs ['('] := by
  obtain ⟨place, hplace, rfl⟩ := opensAt_of_tooDeepFrom h
  exact hplace.covers

end Source

theorem Span.Covers.split {span : Span} {source text : List Char} (h : span.Covers source text) :
    ∃ before after, source = before ++ (text ++ after) ∧
      span.start = Source.byteLength before ∧
      span.stop = Source.byteLength before + Source.byteLength text := by
  have hspanned := h.spanned
  rw [Span.textIn?, if_pos h.ordered] at hspanned
  obtain ⟨⟨before, rest⟩, hbefore, hrest⟩ := Option.bind_eq_some_iff.mp hspanned
  obtain ⟨⟨covered, after⟩, hcovered, heq⟩ := Option.bind_eq_some_iff.mp hrest
  cases heq
  obtain ⟨rfl, hstart⟩ := Source.splitAt?_eq_some hbefore
  obtain ⟨rfl, hstop⟩ := Source.splitAt?_eq_some hcovered
  have hordered := h.ordered
  exact ⟨before, after, rfl, hstart, by omega⟩

namespace Parse

open Source

variable {source before after text : List Char}

theorem covers_extentSpan (within : before <:+ source) (read : text ++ after = before) :
    (extentSpan source ⟨before, after⟩).Covers source text := by
  obtain ⟨first, rfl⟩ := within
  subst read
  have hspan : extentSpan (first ++ (text ++ after)) ⟨text ++ after, after⟩ =
      ⟨byteLength first, byteLength first + byteLength text⟩ := by
    simp only [extentSpan, byteLength_append, Span.mk.injEq]
    omega
  rw [hspan]
  exact covers_append first text after

end Parse

end FieldScript
