import FieldScript.Proofs.Host.Resolving
import FieldScript.Statement

/-! Values over a whole scope. Handles resolved ahead change no reading, so an expression has the
values that it has point by point in the scope as it stands, provided all its names are fields. -/
namespace FieldScript.Statement

open Outcome

variable {σ : Type} [Host σ] {scope : σ} {maxDepth : Nat}

def pointEvaluator (scope : σ) (maxDepth : Nat) : Evaluator := evaluator scope .empty maxDepth

theorem lookup_pointEvaluator (scope : σ) (maxDepth : Nat) :
    (pointEvaluator scope maxDepth).lookup = Host.named? scope :=
  (Host.agrees_empty scope).lookup_eq

theorem evaluator_of_resolve {names : List String} {handles : Handles}
    (h : Host.resolve scope names = .ok handles) :
    evaluator scope handles maxDepth = pointEvaluator scope maxDepth := by
  unfold pointEvaluator evaluator
  rw [Host.lookup_of_resolve h, (Host.agrees_empty scope).lookup_eq]

/-- The handles are of no account, once every name is known to have one. -/
theorem evaluateAll_eq (tree : Tree) : evaluateAll scope maxDepth tree = (do
    tree.checkPointwise
    Host.requireFields scope tree.inputs
    (pointEvaluator scope maxDepth).valuesAt tree (Host.pointCount scope)) := by
  unfold evaluateAll
  cases tree.checkPointwise with
  | error e => rfl
  | ok _ =>
    refine Host.resolve_bind fun handles hresolve => ?_
    rw [evaluator_of_resolve hresolve]

theorem evaluateAll_eq_ok {tree : Tree} {values : List (Option Binary64)} :
    evaluateAll scope maxDepth tree = .ok values ↔ tree.checkPointwise = .ok () ∧
      (∀ name ∈ tree.inputs, (Host.fieldId? scope name).isSome = true) ∧
      (pointEvaluator scope maxDepth).valuesAt tree (Host.pointCount scope) = .ok values := by
  unfold evaluateAll
  simp only [bind_eq_ok]
  constructor
  · rintro ⟨⟨⟩, hcheck, handles, hresolve, hvalues⟩
    rw [evaluator_of_resolve hresolve] at hvalues
    exact ⟨hcheck, Host.exists_resolve_iff.mp ⟨handles, hresolve⟩, hvalues⟩
  · rintro ⟨hcheck, hnames, hvalues⟩
    obtain ⟨handles, hresolve⟩ := Host.exists_resolve_iff.mpr hnames
    exact ⟨(), hcheck, handles, hresolve, by rwa [evaluator_of_resolve hresolve]⟩

theorem valueAt_leaf {ev : Evaluator} (h : 1 ≤ ev.maxDepth) (content : Leaf) (index : Nat) :
    ev.valueAt (.leaf content) index = .ok (ev.readLeaf index content) := by
  unfold Evaluator.valueAt Evaluator.valueFrom
  rw [if_neg (by omega)]

def leafValues (scope : σ) (maxDepth : Nat) (content : Leaf) : List (Option Binary64) :=
  (List.range (Host.pointCount scope)).map fun i => (pointEvaluator scope maxDepth).readLeaf i content

theorem evaluateAll_leaf (h : 1 ≤ maxDepth) (content : Leaf) :
    evaluateAll scope maxDepth (.leaf content) =
      (Host.resolve scope (Tree.leaf content).inputs).map fun _ =>
        leafValues scope maxDepth content := by
  have hcheck : (Tree.leaf content).checkPointwise = .ok () := by rw [Tree.checkPointwise]
  have hvalues : (pointEvaluator scope maxDepth).valuesAt (.leaf content) (Host.pointCount scope) =
      .ok (leafValues scope maxDepth content) := mapM_eq_ok_map (valueAt_leaf h content) _
  unfold evaluateAll
  rw [hcheck]
  cases hresolve : Host.resolve scope (Tree.leaf content).inputs with
  | error e => rfl
  | ok handles =>
    simp only [bind, Except.bind, Except.map, evaluator_of_resolve hresolve, hvalues]

theorem inputs_number (label : String) (value : Binary64) :
    (Tree.leaf (.number label value)).inputs = [] := rfl

theorem inputs_missing : (Tree.leaf .missing).inputs = [] := rfl

theorem inputs_variable (name : String) : (Tree.leaf (.variable name)).inputs = [name] := by
  simp [Tree.inputs, Tree.mentionInputs, mentionLeaf, Leaf.name?, mention]

end FieldScript.Statement
