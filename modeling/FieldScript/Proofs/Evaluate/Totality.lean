import FieldScript.Evaluate
import FieldScript.Proofs.Outcome
import FieldScript.Proofs.Tree.Names
import FieldScript.Proofs.Tree.WellFormed

/-! What an evaluation goes by: the levels that a tree needs, the check that it must pass before any
point is looked at, and the values that an operator takes, on which it always has a result. -/
namespace FieldScript

namespace Tree

mutual

/-- The levels that evaluating a value opens; a window reads its field itself. -/
def height : Tree → Nat
  | .call (.builtin op) args => if op.isWindow then 1 else 1 + argsHeight args
  | _ => 1

def argsHeight : List Tree → Nat
  | [] => 0
  | arg :: rest => Nat.max (height arg) (argsHeight rest)

end

theorem height_le_argsHeight {args : List Tree} {arg : Tree} (h : arg ∈ args) :
    arg.height ≤ argsHeight args := by
  induction args with
  | nil => cases h
  | cons first rest ih =>
    rw [argsHeight]
    rcases List.mem_cons.mp h with rfl | hrest
    · exact Nat.le_max_left _ _
    · exact Nat.le_trans (ih hrest) (Nat.le_max_right _ _)

theorem leafName?_eq_some {tree : Tree} {name : String} (h : tree.leafName? = some name) :
    tree = .leaf (.variable name) := by
  unfold leafName? Leaf.name? at h
  split at h
  · split at h
    · cases h
      rfl
    · cases h
  · cases h

theorem constant_eq_ok {tree : Tree} {value : Binary64} (h : tree.constant = .ok value) :
    ∃ label, tree = .leaf (.number label value) := by
  unfold constant Leaf.constant at h
  grind

theorem height_pos (tree : Tree) : 1 ≤ tree.height := by
  unfold height
  split
  · split <;> omega
  · exact Nat.le_refl 1

theorem checkAll_eq_ok {args : List Tree} :
    checkAll args = .ok () ↔ ∀ arg ∈ args, arg.checkPointwise = .ok () := by
  induction args with
  | nil => simp [checkAll]
  | cons arg rest ih =>
    rw [checkAll, List.forall_mem_cons, ← ih]
    cases arg.checkPointwise <;> simp

theorem checkPointwise_builtin {op : Builtin} {args : List Tree} :
    (call (.builtin op) args).checkPointwise = .ok () ↔
      op.checkArgs args = .ok () ∧ ∀ arg ∈ args, arg.checkPointwise = .ok () := by
  rw [checkPointwise, ← checkAll_eq_ok]
  cases op.checkArgs args <;> simp

theorem checkPointwise_user {keyword : String} {args : List Tree} :
    (call (.user keyword) args).checkPointwise ≠ .ok () := by
  simp [checkPointwise]

theorem WellFormedValue.checkPointwise {tree : Tree} (h : tree.WellFormedValue)
    (noHost : tree.Every fun node => node.userKeyword? = none) :
    tree.checkPointwise = .ok () := by
  obtain ⟨hvalue, hnodes⟩ := h
  induction tree using induct with
  | call callee args ih =>
    obtain ⟨⟨_, hchecked, hargs⟩, hinner⟩ := every_call.mp hnodes
    obtain ⟨hcallee, hothers⟩ := every_call.mp noHost
    cases callee with
    | user keyword => cases hcallee
    | builtin op =>
      exact checkPointwise_builtin.mpr ⟨hchecked, fun arg harg =>
        ih arg harg (hothers arg harg) (hargs arg harg) (hinner arg harg)⟩
  | leaf content | arith chain | tests chain => rw [Tree.checkPointwise]
  | assign target value | guarded test target value | branched test target value => cases hvalue

end Tree

namespace Builtin

open Outcome

theorem checkArgs_eq_ok {op : Builtin} {args : List Tree} (h : op.checkArgs args = .ok ()) :
    op.arity.accepts args.length = true ∧
      (op.isWindow = true → op.checkWindow args = .ok ()) := by
  unfold checkArgs at h
  split at h
  · cases h
  · rename_i haccepts
    refine ⟨by simpa using haccepts, fun hwindow => ?_⟩
    rwa [if_pos hwindow] at h

theorem checkWindow_eq_ok {op : Builtin} {args : List Tree} (h : op.checkWindow args = .ok ()) :
    ∃ name label width, args = [.leaf (.variable name), .leaf (.number label width)] ∧
      1 ≤ width := by
  unfold checkWindow at h
  split at h
  · split at h
    · cases h
    · rename_i name hname
      obtain ⟨width, hwidth, hlength⟩ := bind_eq_ok.mp h
      obtain ⟨label, rfl⟩ := Tree.constant_eq_ok hwidth
      cases Tree.leafName?_eq_some hname
      split at hlength
      · exact ⟨name, label, width, rfl, ‹1 ≤ width›⟩
      · cases hlength
  · cases h

theorem pairUp_ne_nil {α : Type} {items : List α} (h : 2 ≤ items.length) : pairUp items ≠ [] := by
  match items, h with
  | a :: b :: rest, _ => exact List.cons_ne_nil _ _

theorem exists_pointwise {op : Builtin} {values : List Binary64} (hwindow : op.isWindow = false)
    (h : op.arity.accepts values.length = true) : ∃ result, op.pointwise values = .ok result := by
  have hpos : values ≠ [] := by
    rintro rfl
    cases op <;> exact absurd h (by decide)
  obtain ⟨x, rest, rfl⟩ := List.exists_cons_of_ne_nil hpos
  cases op with
  | fuzzy =>
    simp only [arity, Arity.accepts, List.length_cons, decide_eq_true_eq] at h
    have hrest : 2 ≤ rest.length := by omega
    obtain ⟨first, others, hpairs⟩ := List.exists_cons_of_ne_nil (pairUp_ne_nil hrest)
    exact ⟨finite (Membership.interpolate x first others), by simp only [pointwise, hpairs]⟩
  | trapezoid =>
    match rest, h with
    | [a, b, c, d], _ => exact ⟨_, rfl⟩
  | sRemap =>
    match rest, h with
    | [a, b], _ => exact ⟨_, rfl⟩
  | smooth | stddev | median => cases hwindow
  | _ => exact ⟨_, rfl⟩

theorem exists_middle {sorted : List Binary64} (h : sorted ≠ []) :
    ∃ value, middle sorted = some value := by
  have hpos := List.length_pos_iff.mpr h
  have hlow : sorted.length / 2 - 1 < sorted.length := by omega
  have hhigh : sorted.length / 2 < sorted.length := by omega
  simp only [middle, List.getElem?_eq_getElem hlow, List.getElem?_eq_getElem hhigh]
  split
  · exact ⟨_, rfl⟩
  · exact ⟨_, rfl⟩

theorem exists_median {values : List Binary64} (h : values ≠ []) :
    ∃ value, median.statistic values = .ok (some value) := by
  have hsorted : sortedTotally values ≠ [] := by
    simpa [sortedTotally, ← List.length_pos_iff] using h
  obtain ⟨value, hvalue⟩ := exists_middle hsorted
  exact ⟨value, by simp [statistic, h, hvalue]⟩

theorem exists_statistic (op : Builtin) (values : List Binary64) :
    ∃ result, op.statistic values = .ok result := by
  cases op with
  | median =>
    cases values with
    | nil => exact ⟨none, rfl⟩
    | cons x rest =>
      obtain ⟨value, hvalue⟩ := exists_median (List.cons_ne_nil x rest)
      exact ⟨some value, hvalue⟩
  | _ => exact ⟨_, rfl⟩

end Builtin

namespace Evaluator

variable {ev : Evaluator} {index : Nat}

theorem valueFrom_spent {tree : Tree} {depth : Nat} (spent : ev.maxDepth ≤ depth) :
    ev.valueFrom index depth tree = .error (.stackOverflow depth ev.maxDepth) := by
  unfold valueFrom
  exact if_pos spent

theorem room_of_valueFrom {tree : Tree} {depth : Nat} {value : Option Binary64}
    (h : ev.valueFrom index depth tree = .ok value) : ¬ev.maxDepth ≤ depth := by
  intro spent
  rw [valueFrom_spent spent] at h
  cases h

theorem valueFrom_builtin {op : Builtin} {args : List Tree} {depth : Nat}
    (h : ¬ev.maxDepth ≤ depth) : ev.valueFrom index depth (.call (.builtin op) args) =
      if op.isWindow then ev.windowAt op index args
      else
        match ev.argsFrom index (depth + 1) args with
        | .error e => .error e
        | .ok none => .ok none
        | .ok (some values) => op.pointwise values := by
  unfold valueFrom
  exact if_neg h

theorem windowAt_eq_ok {op : Builtin} {args : List Tree} {value : Option Binary64}
    (h : ev.windowAt op index args = .ok value) :
    ∃ name label width field, args = [.leaf (.variable name), .leaf (.number label width)] ∧
      ev.lookup name = some field ∧
      (field.read index = none ∧ value = none ∨ (field.read index).isSome = true ∧
        op.statistic (window field index (width.truncate / 2)) = .ok value) := by
  unfold windowAt at h
  split at h
  · split at h
    · cases h
    · rename_i name hname
      obtain ⟨width, hwidth, h⟩ := Outcome.bind_eq_ok.mp h
      obtain ⟨label, rfl⟩ := Tree.constant_eq_ok hwidth
      cases Tree.leafName?_eq_some hname
      split at h
      · cases h
      · rename_i field hfield
        refine ⟨name, label, width, field, rfl, hfield, ?_⟩
        cases hread : field.read index with
        | none =>
          rw [hread] at h
          exact .inl ⟨rfl, (Except.ok.inj h).symm⟩
        | some centre =>
          rw [hread] at h
          exact .inr ⟨rfl, h⟩
  · cases h

end Evaluator

end FieldScript
