import FieldScript.Proofs.Evaluate.Missing

/-! How an evaluation can fail. A tree that passes the pointwise check fails only where a window
names no field, or where it is higher than the levels that are left; it never reads past a list. -/
namespace FieldScript

open Outcome

/-- Neither levels that ran out nor a list read past its end. -/
def EvalError.IsRefusal (e : EvalError) : Prop := e.isResourceExceeded = false ∧ e ≠ .outOfBounds

theorem Tree.constant_refusal {tree : Tree} {e : EvalError} (h : tree.constant = .error e) :
    e.IsRefusal := by
  cases tree with
  | leaf content =>
    cases content <;> cases h
    all_goals exact ⟨rfl, by simp⟩
  | _ =>
    cases h
    exact ⟨rfl, by simp⟩

namespace Builtin

theorem arity_window {op : Builtin} (h : op.isWindow = true) : op.arity = .exactly 2 := by
  cases op <;> first | rfl | cases h

theorem checkWindow_refusal {op : Builtin} {field length : Tree} {e : EvalError}
    (h : op.checkWindow [field, length] = .error e) : e.IsRefusal := by
  simp only [checkWindow] at h
  split at h
  · cases h
    exact ⟨rfl, by simp⟩
  · rcases bind_eq_error.mp h with hconstant | ⟨width, _, hwidth⟩
    · exact Tree.constant_refusal hconstant
    · split at hwidth
      · cases hwidth
      · cases hwidth
        exact ⟨rfl, by simp⟩

theorem checkArgs_refusal {op : Builtin} {args : List Tree} {e : EvalError}
    (h : op.checkArgs args = .error e) : e.IsRefusal := by
  unfold checkArgs at h
  split at h
  · cases h
    exact ⟨rfl, by simp⟩
  · rename_i haccepts
    split at h
    · rename_i hwindow
      simp only [arity_window hwindow, Arity.accepts, Bool.not_eq_true, Bool.not_eq_false',
        beq_iff_eq] at haccepts
      rcases args with _ | ⟨field, _ | ⟨length, _ | ⟨_, _⟩⟩⟩
      case cons.cons.nil => exact checkWindow_refusal h
      all_goals cases haccepts
    · cases h

theorem pointwise_ne_error {op : Builtin} {args : List Tree} {values : List Binary64}
    {e : EvalError} (pointwise : op.isWindow = false) (checked : op.checkArgs args = .ok ())
    (count : values.length = args.length) : op.pointwise values ≠ .error e := by
  obtain ⟨result, hresult⟩ := exists_pointwise pointwise (count ▸ (checkArgs_eq_ok checked).1)
  rw [hresult]
  nofun

end Builtin

namespace Tree

theorem checkPointwise_statement {tree : Tree} (h : tree.isStatement = true) :
    tree.checkPointwise = .error (.misuse (.statementValue tree.text)) := by
  cases tree with
  | assign | guarded | branched => rfl
  | _ => cases h

theorem exists_of_checkAll_error {args : List Tree} {e : EvalError} (h : checkAll args = .error e) :
    ∃ arg ∈ args, arg.checkPointwise = .error e := by
  induction args with
  | nil => cases h
  | cons arg rest ih =>
    rw [checkAll] at h
    split at h
    · rename_i hfirst
      cases h
      exact ⟨arg, List.mem_cons_self, hfirst⟩
    · obtain ⟨other, hother, hfail⟩ := ih h
      exact ⟨other, List.mem_cons_of_mem arg hother, hfail⟩

theorem checkPointwise_refusal {tree : Tree} {e : EvalError} (h : tree.checkPointwise = .error e) :
    e.IsRefusal := by
  induction tree using induct with
  | call callee args ih =>
    cases callee with
    | user keyword =>
      rw [checkPointwise] at h
      cases h
      exact ⟨rfl, by simp⟩
    | builtin op =>
      rw [checkPointwise] at h
      split at h
      · rename_i hargs
        cases h
        exact Builtin.checkArgs_refusal hargs
      · obtain ⟨arg, harg, hfail⟩ := exists_of_checkAll_error h
        exact ih arg harg hfail
  | leaf content | arith chain | tests chain =>
    rw [checkPointwise] at h
    cases h
  | assign target value | guarded test target value | branched test target value target' value' =>
    simp only [checkPointwise] at h
    cases h
    exact ⟨rfl, by simp⟩

end Tree

namespace Evaluator

variable {ev : Evaluator} {index : Nat} {e : EvalError}

theorem windowAt_error {op : Builtin} {args : List Tree} (checked : op.checkWindow args = .ok ())
    (h : ev.windowAt op index args = .error e) :
    ∃ arg ∈ args, ∃ name ∈ arg.inputs, ev.lookup name = none ∧ e = .unresolvedName name := by
  obtain ⟨name, label, width, rfl, _⟩ := Builtin.checkWindow_eq_ok checked
  simp only [windowAt, Tree.leafName?, Leaf.name?, Tree.constant, Leaf.constant, bind,
    Except.bind] at h
  split at h
  · rename_i hnone
    cases h
    exact ⟨_, List.mem_cons_self, name, Tree.mem_inputs_iff.mpr List.mem_cons_self, hnone, rfl⟩
  · rename_i field _
    split at h
    · cases h
    · obtain ⟨result, hresult⟩ :=
        Builtin.exists_statistic op (window field index (width.truncate / 2))
      rw [hresult] at h
      cases h

theorem windowAt_refusal {op : Builtin} {args : List Tree}
    (h : ev.windowAt op index args = .error e) : e.IsRefusal := by
  unfold windowAt at h
  split at h
  · split at h
    · cases h
      exact ⟨rfl, by simp⟩
    · rcases bind_eq_error.mp h with hconstant | ⟨width, _, h⟩
      · exact Tree.constant_refusal hconstant
      · split at h
        · cases h
          exact ⟨rfl, by simp⟩
        · rename_i field _
          split at h
          · cases h
          · obtain ⟨result, hresult⟩ :=
              Builtin.exists_statistic op (window field index (width.truncate / 2))
            rw [hresult] at h
            cases h
  · cases h
    exact ⟨rfl, by simp⟩

theorem exists_of_argsFrom_error {args : List Tree} {depth : Nat}
    (h : ev.argsFrom index depth args = .error e) :
    ∃ arg ∈ args, ev.valueFrom index depth arg = .error e := by
  induction args with
  | nil =>
    rw [argsFrom] at h
    cases h
  | cons arg rest ih =>
    rw [argsFrom] at h
    split at h
    · rename_i hfirst
      cases h
      exact ⟨arg, List.mem_cons_self, hfirst⟩
    · cases h
    · split at h
      · rename_i hrest
        cases h
        obtain ⟨other, hother, hfail⟩ := ih hrest
        exact ⟨other, List.mem_cons_of_mem arg hother, hfail⟩
      · cases h
      · cases h

/-- Where an evaluation fails: no level is left, the node has no value at a point, its operator
cannot be applied, or an argument of it fails one level further down. -/
inductive Failure (ev : Evaluator) (index : Nat) : Nat → Tree → EvalError → Prop where
  | spent {depth : Nat} {tree : Tree} (spent : ev.maxDepth ≤ depth) :
    Failure ev index depth tree (.stackOverflow depth ev.maxDepth)
  | user {depth : Nat} {keyword : String} {args : List Tree} :
    Failure ev index depth (.call (.user keyword) args) (.badArguments keyword .nested)
  | statement {depth : Nat} {statement : Tree} (isStatement : statement.isStatement = true) :
    Failure ev index depth statement (.misuse (.statementValue statement.text))
  | window {depth : Nat} {op : Builtin} {args : List Tree} {e : EvalError}
    (isWindow : op.isWindow = true) (failed : ev.windowAt op index args = .error e) :
    Failure ev index depth (.call (.builtin op) args) e
  | operator {depth : Nat} {op : Builtin} {args : List Tree} {values : List Binary64}
    {e : EvalError} (pointwise : op.isWindow = false) (count : values.length = args.length)
    (failed : op.pointwise values = .error e) : Failure ev index depth (.call (.builtin op) args) e
  | argument {depth : Nat} {op : Builtin} {args : List Tree} {arg : Tree} {e : EvalError}
    (room : depth < ev.maxDepth) (pointwise : op.isWindow = false) (mem : arg ∈ args)
    (failure : Failure ev index (depth + 1) arg e) :
    Failure ev index depth (.call (.builtin op) args) e

theorem failure_of_valueFrom {tree : Tree} {depth : Nat}
    (h : ev.valueFrom index depth tree = .error e) : ev.Failure index depth tree e := by
  induction tree using Tree.induct generalizing depth with
  | call callee args ih =>
    by_cases hdepth : ev.maxDepth ≤ depth
    · cases (valueFrom_spent hdepth).symm.trans h
      exact .spent hdepth
    cases callee with
    | user keyword =>
      unfold valueFrom at h
      rw [if_neg hdepth] at h
      cases h
      exact .user
    | builtin op =>
      rw [valueFrom_builtin hdepth] at h
      by_cases hop : op.isWindow = true
      · rw [if_pos hop] at h
        exact .window hop h
      · have pointwise : op.isWindow = false := by simpa using hop
        rw [if_neg hop] at h
        split at h
        · rename_i hfail
          cases h
          obtain ⟨arg, harg, hfail⟩ := exists_of_argsFrom_error hfail
          exact .argument (by omega) pointwise harg (ih arg harg hfail)
        · cases h
        · rename_i values hvalues
          exact .operator pointwise (argsFrom_eq_some hvalues).1 h
  | leaf content | arith chain | tests chain =>
    by_cases hdepth : ev.maxDepth ≤ depth
    · cases (valueFrom_spent hdepth).symm.trans h
      exact .spent hdepth
    · unfold valueFrom at h
      rw [if_neg hdepth] at h
      cases h
  | assign target value | guarded test target value | branched test target value target' value' =>
    by_cases hdepth : ev.maxDepth ≤ depth
    · cases (valueFrom_spent hdepth).symm.trans h
      exact .spent hdepth
    · unfold valueFrom at h
      rw [if_neg hdepth] at h
      cases h
      exact .statement rfl

theorem valueFrom_error {tree : Tree} (checked : tree.checkPointwise = .ok ()) {depth : Nat}
    (h : ev.valueFrom index depth tree = .error e) :
    (∃ name ∈ tree.inputs, ev.lookup name = none ∧ e = .unresolvedName name) ∨
      (∃ reached, e = .stackOverflow reached ev.maxDepth) ∧ ev.maxDepth < depth + tree.height := by
  have failure := failure_of_valueFrom h
  clear h
  induction failure with
  | @spent depth tree spent =>
    have hpos := tree.height_pos
    exact .inr ⟨⟨depth, rfl⟩, by omega⟩
  | user => exact absurd checked Tree.checkPointwise_user
  | statement isStatement =>
    rw [Tree.checkPointwise_statement isStatement] at checked
    cases checked
  | window isWindow failed =>
    have hargs := (Tree.checkPointwise_builtin.mp checked).1
    obtain ⟨arg, harg, name, hname, hnone, rfl⟩ :=
      windowAt_error ((Builtin.checkArgs_eq_ok hargs).2 isWindow) failed
    exact .inl ⟨name, Tree.mem_inputs_call.mpr ⟨arg, harg, hname⟩, hnone, rfl⟩
  | operator pointwise count failed =>
    have hargs := (Tree.checkPointwise_builtin.mp checked).1
    exact absurd failed (Builtin.pointwise_ne_error pointwise hargs count)
  | argument room pointwise mem failure ih =>
    have hheight := Tree.height_le_argsHeight mem
    rcases ih ((Tree.checkPointwise_builtin.mp checked).2 _ mem) with
      ⟨name, hname, hunresolved⟩ | ⟨hreached, hdeep⟩
    · exact .inl ⟨name, Tree.mem_inputs_call.mpr ⟨_, mem, hname⟩, hunresolved⟩
    · rw [Tree.height, if_neg (by simp [pointwise])]
      exact .inr ⟨hreached, by omega⟩

theorem exists_valueFrom {tree : Tree} (checked : tree.checkPointwise = .ok ())
    (found : ∀ name ∈ tree.inputs, (ev.lookup name).isSome = true) {depth : Nat}
    (room : depth + tree.height ≤ ev.maxDepth) :
    ∃ value, ev.valueFrom index depth tree = .ok value := by
  cases hresult : ev.valueFrom index depth tree with
  | ok value => exact ⟨value, rfl⟩
  | error e =>
    rcases valueFrom_error checked hresult with ⟨name, hname, hnone, _⟩ | ⟨_, hdeep⟩
    · have hsome := found name hname
      rw [hnone] at hsome
      cases hsome
    · omega

end Evaluator

end FieldScript
