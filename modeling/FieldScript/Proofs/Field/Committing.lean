import FieldScript.Proofs.Field.Writing

/-! Buffers committed to a field. A buffer that is no longer than the field settles point by point,
a longer one fills the field and then fails at the first point outside. To commit what a field reads
changes none of its readings, and to commit nothing but missing readings is to clear it. -/
namespace FieldScript.Field

variable {values : List (Option Binary64)} {field written : Field} {index count : Nat}

/-- A field after a buffer was committed to it. A buffered sentinel reads as missing, as does a gap. -/
structure Committed (values : List (Option Binary64)) (before after : Field) : Prop where
  shape : before.SameShape after
  written : ∀ point value, values[point]? = some (some value) →
    after.read point = if before.isSentinel value then none else some value
  missing : ∀ point, values[point]? = some none → after.read point = none
  kept : ∀ point, values.length ≤ point → after.read point = before.read point

theorem read_congr {a b : Field} (hvalue : a.values[index]? = b.values[index]?)
    (hsentinel : a.sentinel = b.sentinel) : a.read index = b.read index := by
  unfold read isSentinel
  rw [hvalue, hsentinel]

theorem read_eq_of_commit (h : commit values field = .ok () written) (point : Nat) :
    written.read point =
      if point < values.length then field.settle values[point]?.join else field.read point := by
  have shape := (keepsShape_commit values).of_ok h
  have hstored := getElem?_commitFrom h point
  split
  case isTrue hlt =>
    rw [if_pos ⟨Nat.zero_le _, by omega⟩, Nat.sub_zero, List.getElem?_eq_getElem hlt,
      Option.map_some, ← shape.sentinel] at hstored
    rw [read_of_stored hstored, shape.settle_eq, List.getElem?_eq_getElem hlt, Option.join_some]
  case isFalse hge =>
    rw [if_neg (by omega)] at hstored
    exact read_congr hstored shape.sentinel

theorem committed_of_ok (h : commit values field = .ok () written) :
    Committed values field written where
  shape := (keepsShape_commit values).of_ok h
  written point value hvalue := by
    obtain ⟨hlt, _⟩ := List.getElem?_eq_some_iff.mp hvalue
    rw [read_eq_of_commit h, if_pos hlt, hvalue, Option.join_some, settle]
    cases hsentinel : field.isSentinel value <;> simp [Option.filter, hsentinel]
  missing point hvalue := by
    obtain ⟨hlt, _⟩ := List.getElem?_eq_some_iff.mp hvalue
    rw [read_eq_of_commit h, if_pos hlt, hvalue]
    rfl
  kept point hge := by rw [read_eq_of_commit h, if_neg (Nat.not_lt.mpr hge)]

theorem exists_committed (h : values.length ≤ field.size) :
    ∃ written, commit values field = .ok () written ∧ Committed values field written := by
  obtain ⟨written, hwritten⟩ := commitFrom_ok values 0 field (by omega)
  exact ⟨written, hwritten, committed_of_ok hwritten⟩

theorem commitFrom_append (first rest : List (Option Binary64)) (index : Nat) :
    commitFrom index (first ++ rest) =
      (do commitFrom index first; commitFrom (index + first.length) rest) := by
  induction first generalizing index with
  | nil => rfl
  | cons value first ih =>
    simp only [List.cons_append, commitFrom, ih, bind_assoc, List.length_cons, Nat.add_assoc,
      Nat.add_comm 1]

theorem putOption_outside (value : Option Binary64) :
    putOption field.size value field =
      .error (.indexOutOfRange field.name field.size field.size) field := by
  cases value <;> simp [putOption, putMissing, put]

theorem commit_too_long (h : field.size < values.length) :
    ∃ written, commit values field =
        .error (.indexOutOfRange field.name field.size field.size) written ∧
      Committed (values.take field.size) field written := by
  have htaken : (values.take field.size).length = field.size :=
    List.length_take_of_le (Nat.le_of_lt h)
  obtain ⟨written, hwritten, hcommitted⟩ := exists_committed (Nat.le_of_eq htaken)
  obtain ⟨value, rest, hrest⟩ : ∃ value rest, values.drop field.size = value :: rest :=
    ⟨_, _, List.drop_eq_getElem_cons h⟩
  have hfail := @putOption_outside written value
  rw [hcommitted.shape.size, hcommitted.shape.name] at hfail
  refine ⟨written, ?_, hcommitted⟩
  calc commit values field
      = commitFrom 0 (values.take field.size ++ value :: rest) field := by
        rw [← hrest, List.take_append_drop, commit]
    _ = (do commit (values.take field.size); commitFrom field.size (value :: rest)) field := by
        rw [commitFrom_append, htaken, Nat.zero_add, commit]
    _ = .error (.indexOutOfRange field.name field.size field.size) written := by
        simp only [bind, EStateM.bind, hwritten, commitFrom, hfail]

theorem exists_committed_readings (field : Field) :
    ∃ written, commit field.readings field = .ok () written ∧
      ∀ point, written.read point = field.read point := by
  obtain ⟨written, hwritten⟩ := commit_ok (length_readings field)
  refine ⟨written, hwritten, fun point => ?_⟩
  rw [read_eq_of_commit hwritten]
  split
  case isTrue hlt =>
    have hreading : field.readings[point]? = some (field.read point) := by
      simp [readings, (length_readings field) ▸ hlt]
    rw [hreading, Option.join_some, settle_read]
  case isFalse => rfl

theorem commit_missing (field : Field) :
    commit (List.replicate field.size none) field = .ok () field.clear := by
  rw [commit_eq List.length_replicate]
  simp [clear, fill, size, Array.map_const']

theorem foldl_withMissing (h : commitFrom index (List.replicate count none) field = .ok () written) :
    (List.range' index count).foldl withMissing field = written := by
  induction count generalizing index field with
  | zero => cases h; rfl
  | succ count ih =>
    simp only [List.replicate_succ, commitFrom, putOption, bind, EStateM.bind] at h
    rw [List.range'_succ, List.foldl_cons, withMissing]
    cases hput : putMissing index field with
    | ok result middle => rw [hput] at h; exact ih h
    | error e middle => rw [hput] at h; cases h

theorem clearEach_eq (field : Field) : field.clearEach = field.clear := by
  rw [clearEach, List.range_eq_range']
  exact foldl_withMissing (commit_missing field)

theorem commit_settles (field : Field) :
    (∀ values : List (Option Binary64), values.length ≤ field.size →
      ∃ written, commit values field = .ok () written ∧ Committed values field written) ∧
    (∀ values : List (Option Binary64), field.size < values.length →
      ∃ written, commit values field =
          .error (.indexOutOfRange field.name field.size field.size) written ∧
        Committed (values.take field.size) field written) ∧
    (∃ written, commit field.readings field = .ok () written ∧
      ∀ point, written.read point = field.read point) ∧
    commit (List.replicate field.size none) field = .ok () field.clear ∧
    field.clearEach = field.clear :=
  ⟨fun _ => exists_committed, fun _ => commit_too_long, exists_committed_readings field,
    commit_missing field, clearEach_eq field⟩

/-- One NaN is the sentinel, another one is written. -/
theorem commit_settles_nan :
    (∃ written, commit [some .indefinite, none] ⟨"A", #[0, 1, 2], ⟨0x7FF8000000000000⟩⟩ =
        .ok () written ∧
      written.read 0 = none ∧ written.read 1 = none ∧ written.read 2 = some 2) ∧
    ∃ written, commit [none, none, none, some 1] ⟨"A", #[0, 1, 2], ⟨0x7FF8000000000000⟩⟩ =
        .error (.indexOutOfRange "A" 3 3) written ∧ written.read 2 = none := by
  obtain ⟨short, long, -⟩ := commit_settles ⟨"A", #[0, 1, 2], ⟨0x7FF8000000000000⟩⟩
  obtain ⟨settled, hshort, hsettled⟩ := short [some .indefinite, none] (by decide)
  obtain ⟨filled, hlong, hfilled⟩ := long [none, none, none, some 1] (by decide)
  exact ⟨⟨settled, hshort, hsettled.written 0 .indefinite rfl, hsettled.missing 1 rfl,
    hsettled.kept 2 (by decide)⟩, filled, hlong, hfilled.missing 2 rfl⟩

end FieldScript.Field
