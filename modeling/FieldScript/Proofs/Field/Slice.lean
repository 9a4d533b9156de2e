import FieldScript.Proofs.Field.Writing
import FieldScript.Proofs.Update

/-! A stretch of the points of a field. What is written to all points, or to each point by itself,
comes to the same on the stretch alone. -/
namespace FieldScript.Field

def slice (start stop : Nat) (field : Field) : Field :=
  { field with values := field.values.extract start stop }

variable {start stop count : Nat} {field : Field}

@[simp] theorem size_slice (field : Field) :
    (field.slice start stop).size = min stop field.size - start :=
  Array.size_extract

theorem slice_fill (field : Field) (value : Binary64) :
    (field.fill value).slice start stop = (field.slice start stop).fill value := by
  simp [slice, fill]

theorem slice_absent (name : String) (size : Nat) (sentinel : Binary64) :
    (absent name size sentinel).slice start stop = absent name (min stop size - start) sentinel := by
  simp [slice, absent]

theorem read_slice {point : Nat} (h : point < min stop field.size - start) :
    (field.slice start stop).read point = field.read (start + point) := by
  have hvalue : (field.slice start stop).values[point]? = field.values[start + point]? :=
    Array.getElem?_extract.trans (if_pos h)
  unfold read
  rw [hvalue]
  rfl

theorem readings_slice (field : Field) :
    (field.slice start stop).readings = field.readings.extract start stop := by
  refine List.ext_getElem (by simp; omega) fun point hpart _ => ?_
  have hpoint : point < min stop field.size - start := by simpa using hpart
  simp [readings, read_slice hpoint]

/-- The fields of one length, each beside its own stretch. -/
def Sliced (start stop count : Nat) (whole part : Field) : Prop :=
  whole.size = count ∧ part = whole.slice start stop

theorem related_fill (value : Binary64) :
    Update.Related (Sliced start stop count) (modify fun field => field.fill value)
      (modify fun field => field.fill value) := by
  rintro whole part ⟨hsize, rfl⟩
  exact ⟨rfl, (whole.sameShape_fill value).size.trans hsize, (slice_fill whole value).symm⟩

theorem related_clear : Update.Related (Sliced start stop count) (modify clear) (modify clear) := by
  rintro whole part ⟨hsize, rfl⟩
  exact ⟨rfl, (whole.sameShape_fill _).size.trans hsize, (slice_fill whole _).symm⟩

theorem related_commit {values : List (Option Binary64)} (h : values.length = count) :
    Update.Related (Sliced start stop count) (commit values)
      (commit (values.extract start stop)) := by
  rintro whole part ⟨hsize, rfl⟩
  have hlength : (values.extract start stop).length = (whole.slice start stop).size := by
    rw [size_slice]
    simp
    omega
  simp only [Update.outcome, Update.after, commit_eq (h.trans hsize.symm), commit_eq hlength]
  refine ⟨trivial, ?_, ?_⟩
  · simp [size, h]
  · simp [slice]

end FieldScript.Field
