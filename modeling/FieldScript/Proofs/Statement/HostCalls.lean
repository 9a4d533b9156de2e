import FieldScript.Proofs.Statement.Effect
import FieldScript.SampleFunctions

/-! Assignments of what a host function writes. The function runs on a field of its own, the target
as it is or a new one, and the scope sees nothing of it before it has succeeded. Then the target reads
what that field reads. -/
namespace FieldScript

theorem Field.read_absent (name : String) (size : Nat) (sentinel : Binary64) (point : Nat) :
    (absent name size sentinel).read point = none := by
  by_cases hpoint : point < size
  · have hstored : (absent name size sentinel).values[point]? =
        some (Option.getD none (absent name size sentinel).sentinel) := by
      simp [absent, hpoint]
    rw [read_of_stored hstored]
    rfl
  · have hsize : (absent name size sentinel).size = size := Array.size_replicate
    exact read_of_size_le (by omega)

namespace Statement

open Outcome MemoryScope

variable {scope : MemoryScope} {keyword target : String} {args : List Tree} {maxDepth : Nat}

def isUnknown {σ : Type} [Host σ] (scope : σ) (name : String) : Bool :=
  (Host.fieldId? scope name).isNone && (Host.userData? scope name).isNone

theorem isSome_of_isUnknown {name : String} (h : isUnknown scope name = false) :
    ((Host.fieldId? scope name).isSome || (Host.userData? scope name).isSome) = true := by
  simp only [isUnknown, Bool.and_eq_false_iff, Option.isNone_eq_false_iff] at h
  simpa using h

theorem checkUserArgs_of_name {name : String}
    (first : (Tree.argInputs args).find? (isUnknown scope) = some name) :
    checkUserArgs scope args = .error (.unresolvedName name) := by
  have unknown := List.find?_some first
  simp only [isUnknown, Bool.and_eq_true, Option.isNone_iff_eq_none] at unknown
  refine forM_eq_error_of_find? (fun other hother => if_pos (isSome_of_isUnknown hother)) first ?_
  simp [unknown.1, unknown.2]

theorem checkUserArgs_of_none (known : (Tree.argInputs args).find? (isUnknown scope) = none) :
    checkUserArgs scope args = .ok () := by
  refine forM_eq_ok fun name hname => if_pos (isSome_of_isUnknown ?_)
  simpa using List.find?_eq_none.mp known name hname

/-- What a host function writes to: the target as it stands, else a field like the first one. -/
def scratch? (scope : MemoryScope) (target : String) : Option Field :=
  (Host.named? scope target).or
    (scope.fields[0]?.map fun first => .absent target first.size first.sentinel)

theorem scratch?_eq_target? (scope : MemoryScope) (target : String) :
    scratch? scope target = scope.target? target := by
  have hnamed : Host.named? scope target = scope.store.field? target := rfl
  unfold scratch? target?
  rw [hnamed]
  cases scope.store.field? target <;> rfl

theorem scratch_eq (scope : MemoryScope) (target : String) : scratch scope target =
    match scope.target? target with
    | some field => .ok field
    | none => .error (.outputUnavailable target) := by
  have hnamed : Host.named? scope target = scope.store.field? target := rfl
  have hmodel : Host.example? scope target = scope.model? target := rfl
  unfold scratch target?
  rw [hnamed, hmodel]
  cases scope.store.field? target <;> rfl

section Registered

variable {function : FieldFunction}
  (registered : scope.registry.find? keyword = some (.field function))

include registered

theorem planUserCall_eq (known : (Tree.argInputs args).find? (isUnknown scope) = none) :
    planUserCall scope target keyword args =
      match scope.target? target with
      | none => .error (.outputUnavailable target)
      | some field =>
        match function.run scope.store args field with
        | .ok () written => .ok ⟨[.values target written.readings], .fields [target]⟩
        | .error e _ => .error e := by
  have hkind : Host.producesUserData scope keyword = false := by
    show scope.registry.producesUserData keyword = false
    rw [Registry.producesUserData, registered]
  have hfill : Host.fillField scope keyword args = function.run scope.store args := by
    show scope.registry.fillField scope.store keyword args = _
    rw [Registry.fillField, registered]
  rw [planUserCall, checkUserArgs_of_none known, hkind, scratch_eq, hfill]
  cases scope.target? target with
  | none => rfl
  | some field =>
    simp only [bind, Except.bind]
    cases function.run scope.store args field <;> rfl

theorem process_of_written (wf : scope.WellFormed)
    (known : (Tree.argInputs args).find? (isUnknown scope) = none) {field written : Field}
    (htarget : scope.target? target = some field)
    (ran : function.run scope.store args field = .ok () written) :
    ∃ after stored, process maxDepth (.assign (.variable target) (.call (.user keyword) args)) scope =
        .ok (.fields [target]) after ∧ Host.named? after target = some stored ∧
      (∀ point, stored.read point = written.read point) ∧ Frame [target] scope after := by
  have shape : field.SameShape written := (function.keepsShape scope.store args).of_ok ran
  have hplan : plan scope maxDepth (.assign (.variable target) (.call (.user keyword) args)) =
      .ok ⟨[.values target written.readings], .fields [target]⟩ := by
    show planUserCall scope target keyword args = _
    rw [planUserCall_eq registered known, htarget]
    simp only [ran]
  have hlength : written.readings.length = field.size :=
    (Field.length_readings written).trans shape.size
  obtain ⟨stored, hcommit⟩ := Field.commit_ok hlength
  have kept : field.SameShape stored := (Field.keepsShape_commit written.readings).of_ok hcommit
  have happly : Write.apply (.values target written.readings) scope =
      .ok () (scope.replace target stored) := by
    rw [apply_values wf target (hlength.trans (size_target wf htarget))]
    exact updateOutput_eq_ok.mpr ⟨field, stored, htarget, hcommit, rfl⟩
  refine ⟨scope.replace target stored, stored, process_eq_ok.mpr ⟨_, hplan, ?_, rfl⟩,
    field?_replace wf htarget kept, fun point => ?_, frame_replace wf htarget kept⟩
  · exact forM_cons_apply.mpr ⟨_, happly, rfl⟩
  · rw [Field.read_commit hlength hcommit, kept.settle_eq, ← shape.settle_eq]
    by_cases hpoint : point < written.size
    · simp [Field.readings, hpoint, Field.settle_read]
    · rw [Field.read_of_size_le (Nat.not_lt.mp hpoint), List.getElem?_eq_none (by simpa using hpoint)]
      rfl

end Registered

/-- A function of the host is run if every name in its arguments is known and there is a field to
run it on: the target's own, or one of missing points like the first of the scope. It sees the scope
as it is. If it fails, so does the assignment, whatever it had written; if it succeeds, the target
reads what it left, and nothing else has changed. -/
theorem process_hostCall (reachable : scope.Reachable) {keyword : String} {function : FieldFunction}
    (registered : scope.registry.find? keyword = some (.field function)) (maxDepth : Nat)
    (target : String) (args : List Tree) :
    let called := process maxDepth (.assign (.variable target) (.call (.user keyword) args)) scope
    let unknown? := (Tree.argInputs args).find? (isUnknown scope)
    (∀ name, unknown? = some name → called = .error (.unresolvedName name) scope) ∧
    (unknown? = none → scratch? scope target = none →
      called = .error (.outputUnavailable target) scope) ∧
    (∀ field, unknown? = none → scratch? scope target = some field →
      (∀ e left, function.run scope.store args field = .error e left →
        called = .error e scope) ∧
      ∀ written, function.run scope.store args field = .ok () written → ∃ after stored,
        called = .ok (.fields [target]) after ∧ Host.named? after target = some stored ∧
        (∀ point, stored.read point = written.read point) ∧ Frame [target] scope after) ∧
    ∀ field point, Host.named? scope target = none → scratch? scope target = some field →
      field.read point = none := by
  intro called unknown?
  have hscratch := scratch?_eq_target? scope target
  have fails {e : EvalError} (h : planUserCall scope target keyword args = .error e) :
      called = .error e scope := by
    have hplan : plan scope maxDepth (.assign (.variable target) (.call (.user keyword) args)) =
        .error e := h
    simp only [called, process, hplan]
  refine ⟨fun name first => fails ?_, fun known hnone => fails ?_,
    fun field known hfield => ⟨fun e left ran => fails ?_, fun written ran => ?_⟩,
    fun field point hnew hfield => ?_⟩
  · rw [planUserCall, checkUserArgs_of_name first]
    rfl
  · rw [planUserCall_eq registered known, ← hscratch, hnone]
  · rw [planUserCall_eq registered known, ← hscratch, hfield]
    simp only [ran]
  · exact process_of_written registered reachable.wellFormed known (hscratch.symm.trans hfield) ran
  · rw [scratch?, hnew, Option.none_or] at hfield
    obtain ⟨first, _, rfl⟩ := Option.map_eq_some_iff.mp hfield
    exact Field.read_absent target first.size first.sentinel point

def calling : MemoryScope :=
  { twoPoints with registry := ⟨[
    ⟨⟨"broken", ""⟩, .field SampleFunctions.failAfterFill⟩,
    ⟨⟨"touch_first", ""⟩, .field SampleFunctions.setFirst⟩]⟩ }

def assignCall (target keyword argument : String) : Tree :=
  .assign (.variable target) (.call (.user keyword) [.leaf (.variable argument)])

/-- `X = touch_first(A)` leaves the second point of the new field missing, `A = touch_first(A)` leaves
it as it was. -/
theorem calling_isolated :
    calling.Reachable ∧
    calling.registry.find? "touch_first" = some (.field SampleFunctions.setFirst) ∧
    calling.registry.find? "broken" = some (.field SampleFunctions.failAfterFill) ∧
    (∃ after stored, process 1 (assignCall "X" "touch_first" "A") calling =
      .ok (.fields ["X"]) after ∧ Host.named? after "X" = some stored ∧
      stored.read 0 = some 1 ∧ stored.read 1 = none) ∧
    (∃ after stored, process 1 (assignCall "A" "touch_first" "A") calling =
      .ok (.fields ["A"]) after ∧ Host.named? after "A" = some stored ∧
      stored.read 0 = some 1 ∧ stored.read 1 = some 2) ∧
    process 1 (assignCall "A" "broken" "A") calling =
      .error (.functionFailed "broken" "sensor offline") calling ∧
    process 1 (assignCall "A" "broken" "B") calling = .error (.unresolvedName "B") calling := by
  have reachable : calling.Reachable := .setRegistry reachable_twoPoints _
  have touches : calling.registry.find? "touch_first" = some (.field SampleFunctions.setFirst) := rfl
  have breaks : calling.registry.find? "broken" = some (.field SampleFunctions.failAfterFill) := rfl
  have known : (Tree.argInputs [.leaf (.variable "A")]).find? (isUnknown calling) = none := by
    decide +kernel
  have stands : scratch? calling "A" = some ⟨"A", #[1, 2], defaultSentinel⟩ := by decide +kernel
  have isNew : scratch? calling "X" = some (.absent "X" 2 defaultSentinel) := by decide +kernel
  have touchNew := process_hostCall reachable touches 1 "X" [.leaf (.variable "A")]
  have touchOld := process_hostCall reachable touches 1 "A" [.leaf (.variable "A")]
  have breakOld := process_hostCall reachable breaks 1 "A" [.leaf (.variable "A")]
  have breakUnknown := process_hostCall reachable breaks 1 "A" [.leaf (.variable "B")]
  refine ⟨reachable, touches, breaks, ?_, ?_, ?_, breakUnknown.1 "B" (by decide +kernel)⟩
  · obtain ⟨after, stored, hprocess, hstored, hread, _⟩ :=
      (touchNew.2.2.1 _ known isNew).2 ⟨"X", #[1, defaultSentinel], defaultSentinel⟩ rfl
    exact ⟨after, stored, hprocess, hstored, hread 0, hread 1⟩
  · obtain ⟨after, stored, hprocess, hstored, hread, _⟩ :=
      (touchOld.2.2.1 _ known stands).2 ⟨"A", #[1, 2], defaultSentinel⟩ rfl
    exact ⟨after, stored, hprocess, hstored, hread 0, hread 1⟩
  · exact (breakOld.2.2.1 _ known stands).1 _ _ rfl

end Statement

end FieldScript
