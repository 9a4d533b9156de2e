import FieldScript.Proofs.Binary64.Infinite
import FieldScript.Proofs.Evaluate.Window

/-! Where a value can be an infinity or a NaN. Chains and pointwise operators report a result that is
no finite number as missing. Windows do not, so a window over a field that holds such a value has it
in its statistic. -/
namespace FieldScript

theorem finite_eq_some {value result : Binary64} (h : finite value = some result) :
    result.isFinite = true := by
  unfold finite at h
  split at h
  · cases h
    assumption
  · cases h

theorem ArithOp.isFinite_apply {op : ArithOp} {a b result : Binary64}
    (h : op.apply a b = some result) : result.isFinite = true := by
  cases op with
  | div =>
    simp only [apply] at h
    split at h
    · cases h
    · exact finite_eq_some h
  | _ => exact finite_eq_some h

theorem ArithChain.isFinite_valueFrom {read : Leaf → Option Binary64}
    {steps : List (ArithOp × Leaf)} {acc result : Binary64} (nonempty : steps ≠ [])
    (h : valueFrom read acc steps = some result) : result.isFinite = true := by
  induction steps generalizing acc with
  | nil => exact absurd rfl nonempty
  | cons step rest ih =>
    rw [valueFrom] at h
    obtain ⟨operand, _, h⟩ := Option.bind_eq_some_iff.mp h
    obtain ⟨next, hnext, hrest⟩ := Option.bind_eq_some_iff.mp h
    cases rest with
    | nil =>
      cases hrest
      exact ArithOp.isFinite_apply hnext
    | cons other others => exact ih (List.cons_ne_nil _ _) hrest

namespace Builtin

variable {op : Builtin} {values : List Binary64} {result x : Binary64}

theorem isFinite_pointwise (h : op.pointwise values = .ok (some result)) :
    result.isFinite = true := by
  cases op with
  | weightedAverage =>
    have hmean : weightedMean (pairUp values) = some result := Except.ok.inj h
    simp only [weightedMean] at hmean
    split at hmean
    · cases hmean
    · exact finite_eq_some hmean
  | fuzzy =>
    cases values with
    | nil => cases h
    | cons x points =>
      simp only [pointwise] at h
      split at h
      · exact finite_eq_some (Except.ok.inj h)
      · cases h
  | mask =>
    cases values with
    | nil => cases h
    | cons x ranges =>
      have hmask : (if isMasked x (pairUp ranges) then none else finite x) = some result :=
        Except.ok.inj h
      split at hmask
      · cases hmask
      · exact finite_eq_some hmask
  | trapezoid =>
    rcases values with _ | ⟨x, _ | ⟨a, _ | ⟨b, _ | ⟨c, _ | ⟨d, rest⟩⟩⟩⟩⟩
    case cons.cons.cons.cons.cons => exact finite_eq_some (Except.ok.inj h)
    all_goals cases h
  | sRemap =>
    rcases values with _ | ⟨x, _ | ⟨a, _ | ⟨b, rest⟩⟩⟩
    case cons.cons.cons => exact finite_eq_some (Except.ok.inj h)
    all_goals cases h
  | min | max | average => exact finite_eq_some (Except.ok.inj h)
  | smooth | stddev | median => cases h
  | _ =>
    cases values with
    | nil => cases h
    | cons x rest => exact finite_eq_some (Except.ok.inj h)

open Binary64

theorem isFinite_mean (mem : x ∈ values) (h : x.isFinite = false) :
    (mean values).isFinite = false :=
  isFinite_div_left (isFinite_sum mem h)

theorem isFinite_deviation (mem : x ∈ values) (h : x.isFinite = false) :
    (deviation values).isFinite = false := by
  have hcentre := isFinite_mean mem h
  have hsquare : ((x - mean values) * (x - mean values)).isFinite = false :=
    isFinite_mul_left (isFinite_sub_right hcentre)
  exact isFinite_sqrt (isFinite_mean (List.mem_map_of_mem mem) hsquare)

theorem isFinite_middle {sorted : List Binary64} (h : ∀ x ∈ sorted, x.isFinite = false)
    (hmiddle : middle sorted = some result) : result.isFinite = false := by
  simp only [middle] at hmiddle
  split at hmiddle
  · obtain ⟨low, hlow, hmiddle⟩ := Option.bind_eq_some_iff.mp hmiddle
    obtain ⟨high, _, hmiddle⟩ := Option.bind_eq_some_iff.mp hmiddle
    cases hmiddle
    exact isFinite_div_left (isFinite_add_left (h low (List.mem_of_getElem? hlow)))
  · exact h result (List.mem_of_getElem? hmiddle)

/-- One value that is no finite number spoils a mean and a deviation. The median is one or two of the
values, which ones depends on their order, and is spoilt if they all are. -/
theorem isFinite_statistic (window : op.isWindow = true)
    (spoilt : if op = .median then ∀ x ∈ values, x.isFinite = false
      else ∃ x ∈ values, x.isFinite = false)
    (h : op.statistic values = .ok (some result)) : result.isFinite = false := by
  cases op with
  | smooth =>
    obtain ⟨x, mem, hx⟩ := spoilt
    simp only [statistic] at h
    split at h
    · cases h
    · cases h
      exact isFinite_mean mem hx
  | stddev =>
    obtain ⟨x, mem, hx⟩ := spoilt
    simp only [statistic] at h
    split at h
    · cases h
    · cases h
      exact isFinite_deviation mem hx
  | median =>
    simp only [statistic] at h
    split at h
    · cases h
    · split at h
      · rename_i value hvalue
        cases h
        refine isFinite_middle (fun x mem => spoilt x ?_) hvalue
        exact List.mem_mergeSort.mp mem
      · cases h
  | _ => cases window

end Builtin

namespace Tree

def IsOperation : Tree → Prop
  | .arith chain => chain.rest ≠ []
  | .call (.builtin _) _ => True
  | _ => False

/-- A window over a field, long enough for as many values as its statistic needs. -/
inductive IsWindow : Tree → Prop where
  | onField {op : Builtin} (name label : String) (width : Binary64) (window : op.isWindow = true)
    (long : op.fewest ≤ 2 * (width.truncate / 2) + 1) :
    IsWindow (.call (.builtin op) [.leaf (.variable name), .leaf (.number label width)])

end Tree

namespace Evaluator

variable {ev : Evaluator} {index depth : Nat} {value : Binary64}

theorem isFinite_or_isWindow {tree : Tree} (operation : tree.IsOperation)
    (h : ev.valueFrom index depth tree = .ok (some value)) :
    value.isFinite = true ∨ tree.IsWindow := by
  have hdepth := room_of_valueFrom h
  cases tree with
  | arith chain =>
    unfold valueFrom at h
    rw [if_neg hdepth] at h
    obtain ⟨first, _, hsteps⟩ := Option.bind_eq_some_iff.mp (Except.ok.inj h)
    exact .inl (ArithChain.isFinite_valueFrom operation hsteps)
  | call callee args =>
    cases callee with
    | user keyword => exact operation.elim
    | builtin op =>
      rw [valueFrom_builtin hdepth] at h
      split at h
      · rename_i isWindow
        obtain ⟨name, label, width, field, rfl, _, hresult⟩ := windowAt_eq_ok h
        obtain ⟨_, hstatistic⟩ := hresult.resolve_left (by simp)
        have henough : ¬(window field index (width.truncate / 2)).length < op.fewest := by
          rw [← Builtin.statistic_eq_none_iff isWindow, hstatistic]
          simp
        have hlength := length_window_le field index (width.truncate / 2)
        exact .inr (.onField name label width isWindow (by omega))
      · split at h
        · cases h
        · cases h
        · exact .inl (Builtin.isFinite_pointwise h)
  | _ => exact operation.elim

end Evaluator

namespace Statement

def infinitePair (name : String) : Field := ⟨name, #[.infinity, .infinity], defaultSentinel⟩

def overflowing (name : String) : MemoryScope := (MemoryScope.empty.install (infinitePair name)).2

theorem overflowing_lookup (name : String) :
    Host.lookup (overflowing name) .empty name = some (infinitePair name) := by
  simp [Host.lookup, Handles.get?, Handles.empty, Host.named?, Host.fieldId?, Host.field?,
    overflowing, infinitePair, MemoryScope.install, MemoryScope.empty, MemoryScope.fields,
    Store.fieldId?, Store.empty, MemoryScope.setFields]

theorem infinitePair_read (name : String) {point : Nat} (h : point < 2) :
    (infinitePair name).read point = some .infinity := by
  have hpoint : point = 0 ∨ point = 1 := by omega
  rcases hpoint with rfl | rfl <;> with_unfolding_all rfl

theorem infinitePair_window (name : String) (half : Nat) :
    Evaluator.window (infinitePair name) 0 half =
      List.replicate (Nat.min (half + 1) 2) .infinity := by
  rw [Evaluator.window_eq_filterMap]
  refine List.eq_replicate_iff.mpr ⟨?_, fun x hx => ?_⟩
  · have hlength := Field.length_around (infinitePair name) 0 half
    rw [Nat.zero_add, Nat.zero_sub, Nat.sub_zero] at hlength
    refine Eq.trans (List.filterMap_length_eq_length.mpr fun point hpoint => ?_) hlength
    rw [infinitePair_read name (Field.mem_around.mp hpoint).1]
    rfl
  · obtain ⟨point, hpoint, hread⟩ := List.mem_filterMap.mp hx
    rw [infinitePair_read name (Field.mem_around.mp hpoint).1] at hread
    exact (Option.some.inj hread).symm

theorem exists_overflow {tree : Tree} (window : tree.IsWindow) : ∃ scope : MemoryScope, ∃ value,
    (evaluator scope .empty 1).valueAt tree 0 = .ok (some value) ∧ value.isFinite = false := by
  cases window with
  | @onField op name label width isWindow long =>
    have hread : (infinitePair name).read 0 = some .infinity := infinitePair_read name (by decide)
    have hvalue : (evaluator (overflowing name) .empty 1).valueAt (.call (.builtin op)
        [.leaf (.variable name), .leaf (.number label width)]) 0 =
          op.statistic (List.replicate (Nat.min (width.truncate / 2 + 1) 2) .infinity) := by
      rw [← infinitePair_window name]
      exact Evaluator.valueFrom_window_present isWindow Nat.zero_lt_one (overflowing_lookup name) hread
    have hfewest : op.fewest ≤ Nat.min (width.truncate / 2 + 1) 2 := by
      have htwo : op.fewest ≤ 2 := by cases op <;> decide
      refine Nat.le_min.mpr ⟨?_, htwo⟩
      omega
    obtain ⟨answer, hanswer⟩ := Builtin.exists_statistic op
      (List.replicate (Nat.min (width.truncate / 2 + 1) 2) Binary64.infinity)
    cases answer with
    | none =>
      rw [Builtin.statistic_eq_none_iff isWindow, List.length_replicate] at hanswer
      omega
    | some value =>
      refine ⟨overflowing name, value, hvalue.trans hanswer, ?_⟩
      have hall : ∀ x ∈ List.replicate (Nat.min (width.truncate / 2 + 1) 2) Binary64.infinity,
          x.isFinite = false := by
        intro x hx
        rw [List.eq_of_mem_replicate hx]
        decide
      refine Builtin.isFinite_statistic isWindow ?_ hanswer
      split
      · exact hall
      · exact ⟨.infinity, by simp, by decide⟩

/-- Operations have finite values in all scopes exactly if they are no windows: chains and pointwise
operators report what is not finite as missing, statistics do not. A mean or a deviation is not
finite wherever one value in the window is not, a median wherever none of them is. -/
theorem isFinite_valueAt_iff {tree : Tree} (operation : tree.IsOperation) :
    ((∀ (σ : Type) [Host σ] (scope : σ) (handles : Handles) (maxDepth index : Nat)
        (value : Binary64),
        (evaluator scope handles maxDepth).valueAt tree index = .ok (some value) →
          value.isFinite = true) ↔ ¬tree.IsWindow) ∧
    ∀ (op : Builtin) (name label : String) (width : Binary64),
      tree = .call (.builtin op) [.leaf (.variable name), .leaf (.number label width)] →
      op.isWindow = true → ∀ (σ : Type) [Host σ] (scope : σ) (handles : Handles)
        (maxDepth index : Nat) (value : Binary64) (field : Field),
        Host.lookup scope handles name = some field →
        (let values := Evaluator.window field index (width.truncate / 2)
          if op = .median then ∀ x ∈ values, x.isFinite = false
          else ∃ x ∈ values, x.isFinite = false) →
        (evaluator scope handles maxDepth).valueAt tree index = .ok (some value) →
          value.isFinite = false := by
  refine ⟨⟨fun finite window => ?_, fun noWindow σ _ scope handles maxDepth index value h => ?_⟩,
    fun op name label width htree window σ _ scope handles maxDepth index value field found spoilt
      h => ?_⟩
  · obtain ⟨scope, value, hvalue, hinfinite⟩ := exists_overflow window
    rw [finite MemoryScope scope .empty 1 0 value hvalue] at hinfinite
    cases hinfinite
  · exact (Evaluator.isFinite_or_isWindow operation h).resolve_right noWindow
  · subst htree
    have hroom := Evaluator.room_of_valueFrom h
    rw [Evaluator.valueAt, Evaluator.valueFrom_window window (Nat.not_le.mp hroom) found] at h
    split at h
    · cases h
    · exact Builtin.isFinite_statistic window spoilt h

def spiked : Field := ⟨"A", #[1, .infinity], defaultSentinel⟩

def vast : Field := ⟨"A", #[⟨0x7FEE42D130773B76⟩, ⟨0x7FEE42D130773B76⟩], defaultSentinel⟩

/-- The mean of three points around the first one is infinite, next to an infinite value and where
only the sum is too large. -/
theorem smoothed_infinite :
    let smoothed := Tree.call (.builtin .smooth) (windowArgs "3" ⟨0x4008000000000000⟩)
    let ev (field : Field) := evaluator (MemoryScope.empty.install field).2 .empty 1
    smoothed.IsOperation ∧
    (∃ value, (ev spiked).valueAt smoothed 0 = .ok (some value) ∧ value.isFinite = false) ∧
    (ev vast).valueAt smoothed 0 = .ok (some .infinity) := by
  intro smoothed ev
  have hvalue : (ev spiked).valueAt smoothed 0 = .ok (some .infinity) := by
    with_unfolding_all rfl
  have hlookup : Host.lookup (MemoryScope.empty.install spiked).2 .empty "A" = some spiked := by
    with_unfolding_all rfl
  have hspiked : ∃ x ∈ Evaluator.window spiked 0 1, x.isFinite = false :=
    ⟨.infinity, by decide, by decide⟩
  have operation : smoothed.IsOperation := trivial
  refine ⟨operation, ⟨.infinity, hvalue, ?_⟩, by with_unfolding_all rfl⟩
  exact (isFinite_valueAt_iff operation).2 .smooth "A" "3" ⟨0x4008000000000000⟩ rfl rfl MemoryScope _
    .empty 1 0 .infinity spiked hlookup hspiked hvalue

end Statement

end FieldScript
