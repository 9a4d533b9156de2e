import FieldScript.Proofs.Scope.Requests

/-! Values with handles and without. Whether a name is resolved ahead or looked up when it is read
makes no difference to an expression, and handles that are right once stay right whatever is asked
of the scope afterwards. -/
namespace FieldScript

open Outcome FieldStore

theorem MemoryScope.agrees_performAll {earlier : MemoryScope} (reachable : earlier.Reachable)
    {handles : Handles} (agrees : Host.Agrees earlier handles) (requests : List Request) :
    Host.Agrees (FieldStore.performAll earlier requests) handles := by
  have wf : (FieldStore.performAll earlier requests).WellFormed :=
    (reachable.performAll requests).wellFormed
  intro name id hget
  exact (keepsHandles_performAll reachable requests).fieldId?_eq_some wf (agrees name id hget)

namespace Statement

section Hosts

variable {σ : Type} [Host σ] {scope : σ} {maxDepth : Nat} {tree : Tree} {handles : Handles}

theorem alike_evaluator {names : List String}
    (agrees : ∀ name ∈ names, ∀ id, handles.get? name = some id → Host.fieldId? scope name = some id)
    (maxDepth : Nat) :
    Evaluator.Alike names (evaluator scope handles maxDepth) (pointEvaluator scope maxDepth) where
  levels := rfl
  readings name hname := by
    have hlookup : Host.lookup scope handles name = Host.named? scope name :=
      Host.lookup_eq_named? (agrees name hname)
    rw [lookup_pointEvaluator, ← hlookup]
    rfl

theorem valueAt_of_evaluateAll_at {values : List (Option Binary64)}
    (evaluated : evaluateAll scope maxDepth tree = .ok values)
    (agrees : ∀ name ∈ tree.inputs, ∀ id,
      handles.get? name = some id → Host.fieldId? scope name = some id)
    {point : Nat} (h : point < Host.pointCount scope) :
    ∃ value, values[point]? = some value ∧
      (evaluator scope handles maxDepth).valueAt tree point = .ok value := by
  obtain ⟨_, _, hvalues⟩ := evaluateAll_eq_ok.mp evaluated
  obtain ⟨value, hvalue, hget⟩ := getElem?_of_mapM hvalues (List.getElem?_range h)
  exact ⟨value, hget, ((alike_evaluator agrees maxDepth).valueFrom_eq 0).trans hvalue⟩

end Hosts

/-- An expression that has values over a whole scope has the same ones point by point: through any
handles that are right for the names in it, through none at all, and through handles that were
resolved before more fields were added, or anything else was asked of the scope. -/
theorem valueAt_of_evaluateAll {scope : MemoryScope} {maxDepth : Nat} {tree : Tree}
    {values : List (Option Binary64)} (evaluated : evaluateAll scope maxDepth tree = .ok values) :
    let gives (handles : Handles) : Prop := ∀ point < Host.pointCount scope, ∃ value,
      values[point]? = some value ∧ (evaluator scope handles maxDepth).valueAt tree point = .ok value
    (∀ handles, (∀ name ∈ tree.inputs, ∀ id,
      handles.get? name = some id → Host.fieldId? scope name = some id) → gives handles) ∧
    gives .empty ∧
    ∀ (earlier : MemoryScope) (requests : List Request) (names : List String) (handles : Handles),
      earlier.Reachable → performAll earlier requests = scope →
        Host.resolve earlier names = .ok handles → gives handles := by
  intro gives
  have right (handles : Handles) (agrees : ∀ name ∈ tree.inputs, ∀ id,
      handles.get? name = some id → Host.fieldId? scope name = some id) : gives handles :=
    fun point hpoint => valueAt_of_evaluateAll_at evaluated agrees hpoint
  refine ⟨right, right .empty fun name _ => Host.agrees_empty scope name,
    fun earlier requests names handles reachable later resolved => ?_⟩
  have agrees : Host.Agrees scope handles :=
    later ▸ MemoryScope.agrees_performAll reachable (Host.agrees_of_resolve resolved) requests
  exact right handles fun name _ => agrees name

def peakOfBoth : Tree :=
  .call (.builtin .max) [.leaf (.variable "A"),
    .call (.builtin .median) [.leaf (.variable "B"), .leaf (.number "1" 1)]]

def withB : MemoryScope := (twoPoints.install ⟨"B", #[2, 1], defaultSentinel⟩).2

theorem peakOfBoth_earlierHandles :
    evaluateAll withB 2 peakOfBoth = .ok [some 2, some 2] ∧
      Host.resolve twoPoints ["A"] = .ok ⟨[("A", 0)]⟩ ∧
      (evaluator withB ⟨[("A", 0)]⟩ 2).valueAt peakOfBoth 1 = .ok (some 2) := by
  have evaluated : evaluateAll withB 2 peakOfBoth = .ok [some 2, some 2] := by
    with_unfolding_all rfl
  have resolved : Host.resolve twoPoints ["A"] = .ok ⟨[("A", 0)]⟩ := by
    with_unfolding_all rfl
  have later : performAll twoPoints [.addField ⟨"B", #[2, 1], defaultSentinel⟩] = withB := by
    with_unfolding_all rfl
  obtain ⟨value, hget, hvalue⟩ := (valueAt_of_evaluateAll evaluated).2.2 twoPoints _ ["A"] _
    reachable_twoPoints later resolved 1 (by decide +kernel)
  cases hget
  exact ⟨evaluated, resolved, hvalue⟩

end Statement

end FieldScript
