import FieldScript.Host.Memory
import FieldScript.Proofs.Binary64.Counting
import FieldScript.Proofs.Evaluate.Failing
import FieldScript.Proofs.Field.Writing
import Mathlib.Data.List.Intervals

/-! What a window takes in. Its length is cut down to a count, and half of that count on either side
of the centre is what it covers, as far as the field reaches: one point more than an even length. -/
namespace FieldScript

namespace Field

variable {field : Field} {centre half point : Nat}

/-- The points of a field that lie at most `half` away from a centre, in order. -/
def around (field : Field) (centre half : Nat) : List Nat :=
  (List.range field.size).filter fun point => centre ≤ point + half ∧ point ≤ centre + half

theorem mem_around : point ∈ field.around centre half ↔
    point < field.size ∧ centre ≤ point + half ∧ point ≤ centre + half := by
  simp [around]

theorem centre_mem_around (h : centre < field.size) : centre ∈ field.around centre half :=
  mem_around.mpr ⟨h, Nat.le_add_right _ _, Nat.le_add_right _ _⟩

theorem around_eq_range' (field : Field) (centre half : Nat) :
    field.around centre half = List.range' (centre - half)
      (Nat.min (centre + half + 1) field.size - (centre - half)) := by
  have hsplit : (fun point => decide (centre ≤ point + half ∧ point ≤ centre + half)) =
      fun point => decide (centre - half ≤ point) && decide (point < centre + half + 1) := by
    funext point
    rw [Bool.eq_iff_iff, Bool.and_eq_true, decide_eq_true_eq, decide_eq_true_eq, decide_eq_true_eq]
    omega
  rw [around, hsplit, ← List.filter_filter, ← List.Ico.zero_bot, List.Ico.filter_lt,
    List.Ico.filter_le, Nat.zero_max, Nat.min_comm]
  rfl

theorem length_around (field : Field) (centre half : Nat) : (field.around centre half).length =
    Nat.min (centre + half + 1) field.size - (centre - half) := by
  rw [around_eq_range', List.length_range']

theorem length_around_le (field : Field) (centre half : Nat) :
    (field.around centre half).length ≤ 2 * half + 1 := by
  have hmin : Nat.min (centre + half + 1) field.size ≤ centre + half + 1 := Nat.min_le_left _ _
  rw [length_around]
  omega

theorem length_around_eq_iff : (field.around centre half).length = 2 * half + 1 ↔
    half ≤ centre ∧ centre + half < field.size := by
  have hmin : Nat.min (centre + half + 1) field.size = centre + half + 1 ∧
      centre + half < field.size ∨ Nat.min (centre + half + 1) field.size = field.size ∧
        field.size ≤ centre + half := by
    simp only [Nat.min_def]
    split <;> omega
  rw [length_around]
  omega

theorem lt_size_of_read (h : (field.read point).isSome = true) : point < field.size := by
  by_contra hout
  rw [read_of_size_le (Nat.le_of_not_lt hout)] at h
  cases h

end Field

namespace Evaluator

variable {field : Field} {centre half n : Nat} {value : Binary64}

theorem window_eq_filterMap (field : Field) (centre half : Nat) :
    window field centre half = (field.around centre half).filterMap field.read := by
  rw [window, Field.around_eq_range']

theorem mem_window : value ∈ window field centre half ↔
    ∃ point, centre ≤ point + half ∧ point ≤ centre + half ∧ field.read point = some value := by
  rw [window_eq_filterMap, List.mem_filterMap]
  constructor
  · rintro ⟨point, hpoint, hread⟩
    obtain ⟨_, hlow, hhigh⟩ := Field.mem_around.mp hpoint
    exact ⟨point, hlow, hhigh, hread⟩
  · rintro ⟨point, hlow, hhigh, hread⟩
    have hlt := Field.lt_size_of_read (Option.isSome_of_eq_some hread)
    exact ⟨point, Field.mem_around.mpr ⟨hlt, hlow, hhigh⟩, hread⟩

theorem centre_mem_window (h : field.read centre = some value) :
    value ∈ window field centre half :=
  mem_window.mpr ⟨centre, Nat.le_add_right _ _, Nat.le_add_right _ _, h⟩

theorem length_window_le_around (field : Field) (centre half : Nat) :
    (window field centre half).length ≤ (field.around centre half).length := by
  rw [window_eq_filterMap]
  exact List.length_filterMap_le _ _

theorem length_window_le (field : Field) (centre half : Nat) :
    (window field centre half).length ≤ 2 * half + 1 :=
  (length_window_le_around field centre half).trans (Field.length_around_le field centre half)

theorem length_window_eq_around_iff :
    (window field centre half).length = (field.around centre half).length ↔
      ∀ point ∈ field.around centre half, (field.read point).isSome = true := by
  rw [window_eq_filterMap]
  exact List.filterMap_length_eq_length

theorem length_window_eq_iff : (window field centre half).length = 2 * half + 1 ↔ half ≤ centre ∧
    ∀ point, centre ≤ point + half → point ≤ centre + half → (field.read point).isSome = true := by
  have hvalues := length_window_le_around field centre half
  have hpoints := Field.length_around_le field centre half
  constructor
  · intro hfull
    obtain ⟨hlow, hhigh⟩ := Field.length_around_eq_iff.mp (Nat.le_antisymm hpoints (by omega))
    have hpresent := length_window_eq_around_iff.mp (Nat.le_antisymm hvalues (by omega))
    exact ⟨hlow, fun point hfrom hto =>
      hpresent point (Field.mem_around.mpr ⟨by omega, hfrom, hto⟩)⟩
  · rintro ⟨hlow, hpresent⟩
    have hlast := Field.lt_size_of_read (hpresent (centre + half) (by omega) (Nat.le_refl _))
    rw [length_window_eq_around_iff.mpr fun point hpoint =>
      hpresent point (Field.mem_around.mp hpoint).2.1 (Field.mem_around.mp hpoint).2.2]
    exact Field.length_around_eq_iff.mpr ⟨hlow, hlast⟩

theorem lt_length_window_iff :
    n < (window field centre (Nat.min n Binary64.largestCount / 2)).length ↔
      n % 2 = 0 ∧ n ≤ Binary64.largestCount ∧ n / 2 ≤ centre ∧ ∀ point, centre ≤ point + n / 2 →
        point ≤ centre + n / 2 → (field.read point).isSome = true := by
  have hle := length_window_le field centre (Nat.min n Binary64.largestCount / 2)
  have hmin : Nat.min n Binary64.largestCount = n ∧ n ≤ Binary64.largestCount ∨
      Nat.min n Binary64.largestCount < n := by
    simp only [Nat.min_def]
    split <;> omega
  constructor
  · intro hlong
    have heven : n % 2 = 0 ∧ n ≤ Binary64.largestCount := by omega
    have hcount : Nat.min n Binary64.largestCount = n := Nat.min_eq_left heven.2
    rw [hcount] at hle hlong
    exact ⟨heven.1, heven.2, length_window_eq_iff.mp (by omega)⟩
  · rintro ⟨heven, hbound, hfull⟩
    have hcount : Nat.min n Binary64.largestCount = n := Nat.min_eq_left hbound
    rw [hcount, length_window_eq_iff.mpr hfull]
    omega

end Evaluator

namespace Builtin

variable {op : Builtin} {args : List Tree} {values : List Binary64}

theorem checkArgs_window_iff (window : op.isWindow = true) : op.checkArgs args = .ok () ↔
    ∃ name label width, args = [.leaf (.variable name), .leaf (.number label width)] ∧
      1 ≤ width := by
  constructor
  · exact fun checked => checkWindow_eq_ok ((checkArgs_eq_ok checked).2 window)
  · rintro ⟨name, label, width, rfl, hwidth⟩
    simp only [checkArgs, arity_window window, Arity.accepts, window, List.length_cons,
      List.length_nil, checkWindow, Tree.leafName?, Leaf.name?, Tree.constant, Leaf.constant, bind,
      Except.bind, hwidth, if_true]
    rfl

def fewest : Builtin → Nat
  | stddev => 2
  | _ => 1

theorem statistic_eq_none_iff (window : op.isWindow = true) :
    op.statistic values = .ok none ↔ values.length < op.fewest := by
  cases op with
  | smooth => cases values <;> simp [statistic, fewest]
  | stddev => simp [statistic, fewest]
  | median =>
    cases values with
    | nil => simp [statistic, fewest]
    | cons x rest =>
      obtain ⟨value, hvalue⟩ := exists_median (List.cons_ne_nil x rest)
      simp [hvalue, fewest]
  | _ => cases window

end Builtin

namespace Evaluator

variable {ev : Evaluator} {op : Builtin} {name label : String} {width : Binary64} {field : Field}
  {index depth : Nat}

theorem valueFrom_window (window : op.isWindow = true) (room : depth < ev.maxDepth)
    (found : ev.lookup name = some field) :
    ev.valueFrom index depth (.call (.builtin op)
        [.leaf (.variable name), .leaf (.number label width)]) =
      if (field.read index).isNone then .ok none
      else op.statistic (Evaluator.window field index (width.truncate / 2)) := by
  rw [valueFrom_builtin (Nat.not_le.mpr room), if_pos window]
  simp only [windowAt, Tree.leafName?, Leaf.name?, Tree.constant, Leaf.constant, found]
  rfl

theorem valueFrom_window_present (window : op.isWindow = true) (room : depth < ev.maxDepth)
    (found : ev.lookup name = some field) {value : Binary64}
    (present : field.read index = some value) :
    ev.valueFrom index depth (.call (.builtin op)
        [.leaf (.variable name), .leaf (.number label width)]) =
      op.statistic (Evaluator.window field index (width.truncate / 2)) := by
  rw [valueFrom_window window room found, present]
  rfl

theorem valueFrom_window_eq_none_iff (window : op.isWindow = true) (room : depth < ev.maxDepth)
    (found : ev.lookup name = some field) :
    ev.valueFrom index depth (.call (.builtin op)
        [.leaf (.variable name), .leaf (.number label width)]) = .ok none ↔
      field.read index = none ∨
        (Evaluator.window field index (width.truncate / 2)).length < op.fewest := by
  rw [valueFrom_window window room found]
  cases hread : field.read index with
  | none => simp
  | some value => simp [Builtin.statistic_eq_none_iff window]

theorem exists_valueFrom_window (window : op.isWindow = true) (room : depth < ev.maxDepth)
    (found : ev.lookup name = some field) :
    ∃ answer, ev.valueFrom index depth (.call (.builtin op)
      [.leaf (.variable name), .leaf (.number label width)]) = .ok answer := by
  rw [valueFrom_window window room found]
  split
  · exact ⟨none, rfl⟩
  · exact Builtin.exists_statistic op _

end Evaluator

namespace Statement

variable {σ : Type} [Host σ]

/-- What an accepted window hands to its statistic, and where it is missing. The length may be any
number from 1 upwards; a centre is a point of the field, so the last point asked for has an index
that 64 bits hold, however long the window is. -/
theorem window_extent (scope : σ) (handles : Handles) {maxDepth depth : Nat}
    (room : depth < maxDepth) {op : Builtin} {args : List Tree} (window : op.isWindow = true)
    (checked : op.checkArgs args = .ok ()) :
    ∃ name label width, args = [.leaf (.variable name), .leaf (.number label width)] ∧
      1 ≤ width ∧
      width.truncate =
        (if width.isFinite then Nat.min ⌊width.toRat⌋₊ (2 ^ 64 - 1) else 2 ^ 64 - 1) ∧
      ∀ field, Host.lookup scope handles name = some field → field.size ≤ 2 ^ 60 → ∀ index,
        let half := width.truncate / 2
        let values := (field.around index half).filterMap field.read
        let result := (evaluator scope handles maxDepth).valueFrom index depth
          (.call (.builtin op) args)
        (∀ value, field.read index = some value →
          Evaluator.window field index half = values ∧ result = op.statistic values ∧
            index ∈ field.around index half ∧ value ∈ values ∧ index + half + 1 < 2 ^ 64) ∧
        (op = .smooth ∨ op = .median → (result = .ok none ↔ field.read index = none)) ∧
        (op = .stddev → (result = .ok none ↔ field.read index = none ∨ values.length < 2)) ∧
        ∃ answer, result = .ok answer := by
  obtain ⟨name, label, width, rfl, hwidth⟩ := (Builtin.checkArgs_window_iff window).mp checked
  refine ⟨name, label, width, rfl, hwidth, Binary64.truncate_of_one_le hwidth, ?_⟩
  intro field found hsize index half values result
  have hvalues : Evaluator.window field index half = values :=
    Evaluator.window_eq_filterMap field index half
  have hnone : result = .ok none ↔ field.read index = none ∨ values.length < op.fewest := by
    rw [← hvalues]
    exact Evaluator.valueFrom_window_eq_none_iff window room found
  refine ⟨fun value hread => ⟨hvalues, ?_, ?_, ?_, ?_⟩, ?_, ?_,
    Evaluator.exists_valueFrom_window window room found⟩
  · rw [← hvalues]
    exact Evaluator.valueFrom_window_present window room found hread
  · exact Field.centre_mem_around (Field.lt_size_of_read (Option.isSome_of_eq_some hread))
  · rw [← hvalues]
    exact Evaluator.centre_mem_window hread
  · have hindex := Field.lt_size_of_read (Option.isSome_of_eq_some hread)
    have hlength : width.truncate ≤ 2 ^ 64 - 1 := Binary64.truncate_le width
    omega
  · intro hop
    have hfewest : op.fewest = 1 := by
      rcases hop with rfl | rfl <;> rfl
    rw [hnone, hfewest, Nat.lt_one_iff, List.length_eq_zero_iff]
    refine ⟨fun h => h.elim id fun hempty => ?_, .inl⟩
    cases hread : field.read index with
    | none => rfl
    | some value =>
      have hmem : value ∈ Evaluator.window field index half := Evaluator.centre_mem_window hread
      rw [hvalues, hempty] at hmem
      cases hmem
  · rintro rfl
    exact hnone

def dip : Field := ⟨"A", #[⟨0x4008000000000000⟩, 0, ⟨0x4008000000000000⟩], defaultSentinel⟩

def dipped : MemoryScope := (MemoryScope.empty.install dip).2

theorem dipped_lookup : Host.lookup dipped .empty "A" = some dip := by
  with_unfolding_all rfl

def windowArgs (label : String) (width : Binary64) : List Tree :=
  [.leaf (.variable "A"), .leaf (.number label width)]

/-- A length of 1.5 covers the centre alone, too little for a deviation; one without end covers the
whole field. -/
theorem dipped_extent :
    Builtin.stddev.isWindow = true ∧
    Builtin.stddev.checkArgs (windowArgs "1.5" ⟨0x3FF8000000000000⟩) = .ok () ∧
    Builtin.median.checkArgs (windowArgs "inf" .infinity) = .ok () ∧
    (evaluator dipped .empty 1).valueFrom 1 0
      (.call (.builtin .stddev) (windowArgs "1.5" ⟨0x3FF8000000000000⟩)) = .ok none ∧
    (evaluator dipped .empty 1).valueFrom 1 0
      (.call (.builtin .median) (windowArgs "inf" .infinity)) =
        Builtin.median.statistic [⟨0x4008000000000000⟩, 0, ⟨0x4008000000000000⟩] := by
  have hshort : Builtin.stddev.checkArgs (windowArgs "1.5" ⟨0x3FF8000000000000⟩) = .ok () := rfl
  have hlong : Builtin.median.checkArgs (windowArgs "inf" .infinity) = .ok () := rfl
  refine ⟨rfl, hshort, hlong, ?_, ?_⟩
  · obtain ⟨_, _, _, hargs, _, _, extent⟩ :=
      window_extent dipped .empty (Nat.zero_lt_one) rfl hshort
    cases hargs
    have hdeviation := (extent dip dipped_lookup (by decide) 1).2.2.1 rfl
    exact hdeviation.mpr (.inr (by decide))
  · obtain ⟨_, _, _, hargs, _, _, extent⟩ :=
      window_extent dipped .empty (Nat.zero_lt_one) rfl hlong
    cases hargs
    exact ((extent dip dipped_lookup (by decide) 1).1 0 (by decide)).2.1

/-- A window whose length is a whole number `n` takes in at most `n + 1` points, and more than `n` of
them exactly where the length is even, the window is not cut off at either end of the field, and no
point in it is missing. -/
theorem window_exceeds_iff (scope : σ) (handles : Handles) {maxDepth depth : Nat}
    (room : depth < maxDepth) {op : Builtin} {args : List Tree} (window : op.isWindow = true)
    (checked : op.checkArgs args = .ok ()) :
    ∃ name label width, args = [.leaf (.variable name), .leaf (.number label width)] ∧
      ∀ n : ℕ, width.isFinite = true → width.toRat = n →
        ∀ field, Host.lookup scope handles name = some field →
          ∀ index value, field.read index = some value → ∃ values,
            (evaluator scope handles maxDepth).valueFrom index depth (.call (.builtin op) args) =
              op.statistic values ∧
            values = Evaluator.window field index (width.truncate / 2) ∧
            values.length ≤ n + 1 ∧
            (n < values.length ↔ n % 2 = 0 ∧ n < 2 ^ 64 ∧ n / 2 ≤ index ∧
              ∀ point, index ≤ point + n / 2 → point ≤ index + n / 2 →
                (field.read point).isSome = true) := by
  obtain ⟨name, label, width, rfl, hwidth⟩ := (Builtin.checkArgs_window_iff window).mp checked
  refine ⟨name, label, width, rfl, fun n finite whole field found index value hread => ?_⟩
  have hcount := Binary64.truncate_of_eq_natCast hwidth finite whole
  have hle := Evaluator.length_window_le field index (width.truncate / 2)
  have hmin : width.truncate ≤ n := hcount ▸ Nat.min_le_left _ _
  refine ⟨Evaluator.window field index (width.truncate / 2),
    Evaluator.valueFrom_window_present window room found hread, rfl, by omega, ?_⟩
  have hbound : n ≤ Binary64.largestCount ↔ n < 2 ^ 64 := by
    simp only [Binary64.largestCount]
    omega
  rw [hcount, Evaluator.lt_length_window_iff, hbound]

/-- `smooth(A, 2)` at the dip is the mean of three points. -/
theorem dipped_exceeds :
    Builtin.smooth.checkArgs (windowArgs "2" 2) = .ok () ∧ ∃ values : List Binary64,
      2 < values.length ∧
      (evaluator dipped .empty 1).valueFrom 1 0 (.call (.builtin .smooth) (windowArgs "2" 2)) =
        Builtin.smooth.statistic values ∧
      Builtin.smooth.statistic values = .ok (some 2) := by
  have checked : Builtin.smooth.checkArgs (windowArgs "2" 2) = .ok () := rfl
  have htwo : (2 : Binary64).toRat = (2 : ℕ) :=
    Binary64.toRat_eq_natCast (by decide) (by decide +kernel)
  obtain ⟨_, _, _, hargs, exceeds⟩ := window_exceeds_iff dipped .empty (Nat.zero_lt_one) rfl checked
  cases hargs
  obtain ⟨values, hresult, hvalues, _, hlong⟩ := exceeds 2 (by decide) htwo dip dipped_lookup 1 0
    (by decide)
  refine ⟨checked, values, hlong.mpr ⟨rfl, by decide, by decide, fun point hlow hhigh => ?_⟩,
    hresult, ?_⟩
  · have hpoint : point = 0 ∨ point = 1 ∨ point = 2 := by omega
    rcases hpoint with rfl | rfl | rfl <;> decide
  · rw [hvalues]
    with_unfolding_all rfl

end Statement

end FieldScript
