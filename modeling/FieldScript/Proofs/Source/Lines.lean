import FieldScript.Source.Lines
import Mathlib.Data.List.TakeWhile

/-! Where a character stands in a text. A reader who counts lines and columns from the first character
on comes to the line that the table of lines holds for it; and two places of a text that are said to be
in one line and column are the same place. -/
namespace FieldScript.Source

def closesLine (c : Char) (rest : List Char) : Bool :=
  endsTextLine c && !(c == '\r' && rest.head? == some '\n')

/-- Line and column of the character behind the first `n`, if the first one stands in this line and
column. -/
def placeFrom (line column : Nat) : List Char → Nat → Nat × Nat
  | c :: cs, n + 1 =>
    if closesLine c cs then placeFrom (line + 1) 1 cs n else placeFrom line (column + 1) cs n
  | _, _ => (line, column)

def place (source : List Char) (position : Nat) : Nat × Nat := placeFrom 1 1 source position

inductive Reaches (position : Nat) : List Line → Nat → Line → Prop
  | here {line : Line} {rest : List Line} (begun : line.offset ≤ position)
      (next : ∀ next ∈ rest.head?, position < next.offset) : Reaches position (line :: rest) 0 line
  | later {first line : Line} {rest : List Line} {index : Nat} (begun : first.offset ≤ position)
      (reaches : Reaches position rest index line) : Reaches position (first :: rest) (index + 1) line

variable {source pending cs : List Char} {line line' : Line} {offset position position' index n : Nat}

theorem offset_head?_linesFrom (offset : Nat) (pending cs : List Char) :
    ∀ line ∈ (linesFrom offset pending cs).head?, line.offset = offset := by
  fun_induction linesFrom offset pending cs with
  | case1 => simp
  | case2 => simp
  | case3 => simp
  | case4 => simp
  | case5 _ _ _ _ _ _ ih => exact ih

theorem linesFrom_eq_cons (offset : Nat) (pending cs : List Char) (h : pending ≠ []) :
    ∃ line rest, linesFrom offset pending cs = line :: rest ∧ line.offset = offset ∧
      ∀ next ∈ rest.head?, offset + pending.length ≤ next.offset := by
  fun_induction linesFrom offset pending cs with
  | case1 offset pending hempty => exact absurd (List.isEmpty_iff.mp hempty) h
  | case2 offset pending => exact ⟨_, [], rfl, rfl, by simp⟩
  | case3 offset pending cs line =>
    refine ⟨_, _, rfl, rfl, fun next hnext => ?_⟩
    rw [offset_head?_linesFrom _ _ _ next hnext]
    simp [line]
  | case4 offset pending c cs _ _ line =>
    refine ⟨_, _, rfl, rfl, fun next hnext => ?_⟩
    rw [offset_head?_linesFrom _ _ _ next hnext]
    simp [line]
  | case5 offset pending c cs _ _ ih =>
    obtain ⟨line, rest, heq, hoffset, hnext⟩ := ih (List.cons_ne_nil c pending)
    refine ⟨line, rest, heq, hoffset, fun next hmem => Nat.le_trans ?_ (hnext next hmem)⟩
    simp

theorem closesLine_return (cs : List Char) : closesLine '\r' ('\n' :: cs) = false := rfl

theorem closesLine_feed (cs : List Char) : closesLine '\n' cs = true := rfl

theorem closesLine_of_endsTextLine {c : Char} (h : endsTextLine c = true)
    (halone : ∀ rest, c = '\r' → cs = '\n' :: rest → False) : closesLine c cs = true := by
  rw [closesLine, h, Bool.true_and, Bool.not_eq_true']
  refine eq_false_of_ne_true fun hpair => ?_
  rw [Bool.and_eq_true, beq_iff_eq, beq_iff_eq, List.head?_eq_some_iff] at hpair
  obtain ⟨hreturn, rest, hfeed⟩ := hpair
  exact halone rest hreturn hfeed

theorem closesLine_of_not_endsTextLine {c : Char} (h : ¬endsTextLine c = true) :
    closesLine c cs = false := by
  rw [closesLine, eq_false_of_ne_true h, Bool.false_and]

theorem reaches_first {stop : Nat} (text cs : List Char) (hstart : offset ≤ position)
    (hstop : position < stop) :
    Reaches position (⟨offset, text⟩ :: linesFrom stop [] cs) 0 ⟨offset, text⟩ :=
  .here hstart fun next hnext => by
    rw [offset_head?_linesFrom _ _ _ next hnext]
    exact hstop

def Agree (position number : Nat) (lines : List Line) (counted : Nat × Nat) : Prop :=
  ∃ index line, Reaches position lines index line ∧
    counted = (number + index, position - line.offset + 1)

theorem Agree.cons {first : Line} {rest : List Line} {number : Nat} {counted : Nat × Nat}
    (begun : first.offset ≤ position) (h : Agree position (number + 1) rest counted) :
    Agree position number (first :: rest) counted := by
  obtain ⟨index, line, hreaches, rfl⟩ := h
  refine ⟨index + 1, line, .later begun hreaches, ?_⟩
  rw [Nat.add_assoc, Nat.add_comm 1]

theorem agree_linesFrom (number : Nat) (h : n < cs.length) :
    Agree (offset + pending.length + n) number (linesFrom offset pending cs)
      (placeFrom number (pending.length + 1) cs n) := by
  fun_induction linesFrom offset pending cs generalizing number n with
  | case1 => cases h
  | case2 => cases h
  | case3 offset pending cs line =>
    rename_i ih
    have hline : line.length = pending.length + 2 := by simp [line]
    match n with
    | 0 =>
      refine ⟨0, _, reaches_first line cs (by omega) (by omega), ?_⟩
      simp only [placeFrom, Nat.add_zero, Nat.add_sub_cancel_left]
    | 1 =>
      refine ⟨0, _, reaches_first line cs (by omega) (by omega), ?_⟩
      simp only [placeFrom, closesLine_return, Bool.false_eq_true, if_false, Nat.add_assoc,
        Nat.add_zero, Nat.add_sub_cancel_left]
    | n + 2 =>
      have hposition : offset + pending.length + (n + 2) = offset + line.length + 0 + n := by omega
      have hplace : placeFrom number (pending.length + 1) ('\r' :: '\n' :: cs) (n + 2) =
          placeFrom (number + 1) 1 cs n := by
        simp only [placeFrom, closesLine_return, closesLine_feed, Bool.false_eq_true, if_false,
          if_true]
      rw [hposition, hplace]
      exact (ih (number + 1) (by simpa using h)).cons (by simp only; omega)
  | case4 offset pending c cs halone hends line =>
    rename_i ih
    have hline : line.length = pending.length + 1 := by simp [line]
    cases n with
    | zero =>
      refine ⟨0, _, reaches_first line cs (by omega) (by omega), ?_⟩
      simp only [placeFrom, Nat.add_zero, Nat.add_sub_cancel_left]
    | succ n =>
      have hposition : offset + pending.length + (n + 1) = offset + line.length + 0 + n := by omega
      rw [hposition, placeFrom, closesLine_of_endsTextLine hends halone, if_pos rfl]
      exact (ih (number + 1) (by simpa using h)).cons (by simp only; omega)
  | case5 offset pending c cs _ hends ih =>
    cases n with
    | zero =>
      obtain ⟨line, rest, heq, hoffset, hnext⟩ :=
        linesFrom_eq_cons offset (c :: pending) cs (List.cons_ne_nil c pending)
      rw [heq]
      refine ⟨0, line, .here (by omega) fun next hmem => ?_, ?_⟩
      · have hlater := hnext next hmem
        rw [List.length_cons] at hlater
        omega
      · simp only [placeFrom, hoffset, Nat.add_zero, Nat.add_sub_cancel_left]
    | succ n =>
      have hposition : offset + pending.length + (n + 1) = offset + (pending.length + 1) + n := by
        omega
      rw [hposition, placeFrom, closesLine_of_not_endsTextLine hends, if_neg Bool.false_ne_true]
      exact ih number (by simpa using h)

theorem Reaches.takeWhile {lines : List Line} (h : Reaches position lines index line) :
    (lines.takeWhile fun line => decide (line.offset ≤ position)).length = index + 1 ∧
      (lines.takeWhile fun line => decide (line.offset ≤ position)).getLast? = some line := by
  induction h with
  | @here line rest begun next =>
    have hrest : rest.takeWhile (fun line => decide (line.offset ≤ position)) = [] := by
      cases rest with
      | nil => rfl
      | cons other rest => exact List.takeWhile_cons_of_neg (by simpa using next other rfl)
    rw [List.takeWhile_cons_of_pos (by simpa using begun), hrest]
    exact ⟨rfl, rfl⟩
  | @later first line rest index begun _ ih =>
    obtain ⟨hlength, hlast⟩ := ih
    rw [List.takeWhile_cons_of_pos (by simpa using begun), List.length_cons, hlength,
      List.getLast?_cons, hlast]
    exact ⟨rfl, rfl⟩

theorem agree_lines (h : position < source.length) :
    Agree position 1 (lines source) (place source position) := by
  have hagree : Agree position 1 (linesFrom 0 [] source) (placeFrom 1 1 source position) := by
    simpa only [List.length_nil, Nat.zero_add] using @agree_linesFrom [] source 0 position 1 h
  cases source with
  | nil => cases h
  | cons c cs => exact hagree

theorem lineAt?_place (h : position < source.length) :
    ∃ index line, lineAt? source position = some (index, line) ∧
      place source position = (index + 1, position - line.offset + 1) := by
  obtain ⟨index, line, hreaches, hplace⟩ := agree_lines h
  obtain ⟨hlength, hlast⟩ := hreaches.takeWhile
  refine ⟨index, line, ?_, by rw [hplace, Nat.add_comm 1]⟩
  rw [lineAt?, if_pos (Nat.le_of_lt h)]
  simp only [hlast, hlength, Option.map_some, Nat.add_sub_cancel]

theorem lineAt?_eq_some (h : lineAt? source position = some (index, line)) :
    (lines source)[index]? = some line ∧ line.offset ≤ position := by
  rw [lineAt?, Option.ite_none_right_eq_some] at h
  obtain ⟨last, hlast, heq⟩ := Option.map_eq_some_iff.mp h.2
  cases heq
  have hmem := List.mem_of_getLast? hlast
  refine ⟨?_, by simpa using List.mem_takeWhile_imp hmem⟩
  obtain ⟨later, heq⟩ := List.takeWhile_prefix (l := lines source)
    fun line => decide (line.offset ≤ position)
  have hlt := Nat.sub_one_lt_of_lt (List.length_pos_of_mem hmem)
  rw [List.getLast?_eq_getElem?, ← List.getElem?_append_left hlt, heq] at hlast
  exact hlast

theorem lineAt?_inj (h : lineAt? source position = some (index, line))
    (h' : lineAt? source position' = some (index, line'))
    (column : position - line.offset = position' - line'.offset) : position = position' := by
  obtain ⟨hline, hbegun⟩ := lineAt?_eq_some h
  obtain ⟨hline', hbegun'⟩ := lineAt?_eq_some h'
  obtain rfl : line = line' := Option.some.inj (hline.symm.trans hline')
  omega

theorem exists_first_line (source : List Char) :
    ∃ first rest, lines source = first :: rest ∧ first.offset = 0 := by
  cases source with
  | nil => exact ⟨_, [], rfl, rfl⟩
  | cons c cs =>
    have hinside : 0 < (c :: cs).length := Nat.zero_lt_succ _
    obtain ⟨index, line, hreaches, -⟩ := agree_lines hinside
    cases hlines : lines (c :: cs) with
    | nil => rw [hlines] at hreaches; cases hreaches
    | cons first rest =>
      rw [hlines] at hreaches
      cases hreaches with
      | here begun => exact ⟨line, rest, rfl, Nat.le_zero.mp begun⟩
      | later begun => exact ⟨first, rest, rfl, Nat.le_zero.mp begun⟩

theorem isSome_lineAt? : (lineAt? source position).isSome = true ↔ position ≤ source.length := by
  obtain ⟨first, rest, heq, hoffset⟩ := exists_first_line source
  simp [lineAt?, heq, hoffset, List.getLast?_cons]

end FieldScript.Source
