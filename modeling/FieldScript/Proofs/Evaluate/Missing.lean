import FieldScript.Host.Bare
import FieldScript.Proofs.Evaluate.Totality
import FieldScript.Statement

/-! Missing values flow through every operator. A value that mentions a leaf with nothing to read,
however deep inside it, is missing wherever it can be evaluated; only a logical chain turns a
missing operand into a number. -/
namespace FieldScript

namespace Tree

mutual

/-- Every leaf that is read, in the order of the text. The target of an assignment is not read. -/
def leaves : Tree → List Leaf
  | .leaf content => [content]
  | .call _ args => argLeaves args
  | .arith chain => chain.operands
  | .tests chain => chain.operands
  | .assign _ value => leaves value
  | .guarded test _ value => test.operands ++ leaves value
  | .branched test _ value _ value' => test.operands ++ leaves value ++ leaves value'

def argLeaves : List Tree → List Leaf
  | [] => []
  | arg :: rest => leaves arg ++ argLeaves rest

end

variable {name : String}

theorem mem_argLeaves {args : List Tree} {content : Leaf} :
    content ∈ argLeaves args ↔ ∃ arg ∈ args, content ∈ arg.leaves := by
  induction args with
  | nil => simp [argLeaves]
  | cons arg rest ih => simp [argLeaves, ih]

theorem name?_eq_some {content : Leaf} : content.name? = some name ↔ content = .variable name := by
  cases content <;> simp [Leaf.name?]

theorem mem_inputs_iff {tree : Tree} : name ∈ tree.inputs ↔ .variable name ∈ tree.leaves := by
  induction tree using induct with
  | leaf content =>
    simp only [inputs, mentionInputs, mem_mentionLeaf, List.not_mem_nil, false_or, name?_eq_some,
      leaves, List.mem_singleton]
    exact eq_comm
  | call callee args ih =>
    rw [mem_inputs_call, leaves, mem_argLeaves]
    constructor
    · rintro ⟨arg, harg, hname⟩
      exact ⟨arg, harg, (ih arg harg).mp hname⟩
    · rintro ⟨arg, harg, hleaf⟩
      exact ⟨arg, harg, (ih arg harg).mpr hleaf⟩
  | arith chain | tests chain =>
    simp [inputs, mentionInputs, mem_foldl_mentionLeaf, leaves, name?_eq_some]
  | assign target value ih => exact ih
  | guarded test target value ih =>
    rw [inputs, mentionInputs, mem_mentionInputs, leaves, List.mem_append, ih]
    simp [mem_foldl_mentionLeaf, name?_eq_some]
  | branched test target value target' value' ih ih' =>
    rw [inputs, mentionInputs, mem_mentionInputs, mem_mentionInputs, leaves, List.mem_append,
      List.mem_append, ih, ih']
    simp [mem_foldl_mentionLeaf, name?_eq_some]

/-- No logical chain stands as a value anywhere in the tree. -/
def WithoutTests (tree : Tree) : Prop := tree.Every fun node => ∀ chain, node ≠ .tests chain

end Tree

namespace ArithChain

variable {read : Leaf → Option Binary64} {content : Leaf}

theorem valueFrom_eq_none {steps : List (ArithOp × Leaf)} (h : content ∈ steps.map (·.2))
    (missing : read content = none) (acc : Binary64) : valueFrom read acc steps = none := by
  induction steps generalizing acc with
  | nil => cases h
  | cons step rest ih =>
    obtain ⟨op, operand⟩ := step
    rw [valueFrom]
    rcases List.mem_cons.mp h with rfl | hrest
    · simp only [missing, bind, Option.bind_none]
    · -- The fold may stop before it reaches the missing operand, and is missing then too.
      cases read operand with
      | none => rfl
      | some value =>
        cases hstep : op.apply acc value with
        | none => simp only [bind, Option.bind_some, hstep, Option.bind_none]
        | some next => simp only [bind, Option.bind_some, hstep, ih hrest next]

theorem value_eq_none {chain : ArithChain} (h : content ∈ chain.operands)
    (missing : read content = none) : chain.value read = none := by
  unfold value
  rcases List.mem_cons.mp h with rfl | hrest
  · simp only [missing, bind, Option.bind_none]
  · cases read chain.first with
    | none => rfl
    | some first => exact valueFrom_eq_none hrest missing first

end ArithChain

namespace Evaluator

variable {ev : Evaluator} {index : Nat} {content : Leaf} {value : Option Binary64}

theorem windowAt_eq_none {op : Builtin} {args : List Tree} (h : content ∈ Tree.argLeaves args)
    (missing : ev.readLeaf index content = none) (hvalue : ev.windowAt op index args = .ok value) :
    value = none := by
  obtain ⟨name, label, width, field, rfl, hfield, hresult⟩ := windowAt_eq_ok hvalue
  have hcontent : content = .variable name := by
    simp only [Tree.argLeaves, Tree.leaves, List.append_nil, List.mem_append,
      List.mem_singleton] at h
    refine h.resolve_right fun hlength => ?_
    rw [hlength] at missing
    cases missing
  have hread : field.read index = none := by
    simpa only [hcontent, readLeaf, hfield, bind, Option.bind_some] using missing
  rcases hresult with ⟨_, hnone⟩ | ⟨hsome, _⟩
  · exact hnone
  · rw [hread] at hsome
    cases hsome

theorem argsFrom_eq_some {args : List Tree} {depth : Nat} {values : List Binary64}
    (h : ev.argsFrom index depth args = .ok (some values)) : values.length = args.length ∧
      ∀ arg ∈ args, ∃ value, ev.valueFrom index depth arg = .ok (some value) := by
  induction args generalizing values with
  | nil =>
    rw [argsFrom] at h
    cases h
    exact ⟨rfl, fun arg harg => absurd harg List.not_mem_nil⟩
  | cons arg rest ih =>
    rw [argsFrom] at h
    split at h
    · cases h
    · cases h
    · rename_i value hvalue
      split at h
      · cases h
      · cases h
      · rename_i others hrest
        cases h
        obtain ⟨hlength, hpresent⟩ := ih hrest
        exact ⟨congrArg (· + 1) hlength, List.forall_mem_cons.mpr ⟨⟨value, hvalue⟩, hpresent⟩⟩

/-- By induction on the tree, with the argument that holds the leaf: it is missing if it has a value
at all, so the values of a call's arguments are never complete. -/
theorem valueFrom_eq_none {tree : Tree} (noTests : tree.WithoutTests) (h : content ∈ tree.leaves)
    (missing : ev.readLeaf index content = none) {depth : Nat}
    (hvalue : ev.valueFrom index depth tree = .ok value) : value = none := by
  induction tree using Tree.induct generalizing depth value with
  | call callee args ih =>
    have hdepth := room_of_valueFrom hvalue
    cases callee with
    | user keyword =>
      unfold valueFrom at hvalue
      rw [if_neg hdepth] at hvalue
      cases hvalue
    | builtin op =>
      rw [valueFrom_builtin hdepth] at hvalue
      split at hvalue
      · exact windowAt_eq_none h missing hvalue
      · cases hargs : ev.argsFrom index (depth + 1) args with
        | error e => simp [hargs] at hvalue
        | ok results =>
          cases results with
          | none =>
            rw [hargs] at hvalue
            exact (Except.ok.inj hvalue).symm
          | some values =>
            obtain ⟨arg, harg, hleaf⟩ := Tree.mem_argLeaves.mp h
            obtain ⟨present, hpresent⟩ := (argsFrom_eq_some hargs).2 arg harg
            have hnone := ih arg harg ((Tree.every_call.mp noTests).2 arg harg) hleaf hpresent
            cases hnone
  | leaf leaf =>
    cases List.mem_singleton.mp h
    unfold valueFrom at hvalue
    split at hvalue
    · cases hvalue
    · exact (Except.ok.inj hvalue).symm.trans missing
  | arith chain =>
    unfold valueFrom at hvalue
    split at hvalue
    · cases hvalue
    · exact (Except.ok.inj hvalue).symm.trans (ArithChain.value_eq_none h missing)
  | tests chain => exact absurd rfl (noTests chain)
  | assign target value | guarded test target value | branched test target value =>
    unfold valueFrom at hvalue
    split at hvalue <;> cases hvalue

end Evaluator

namespace Statement

/-- A value without logical chains that mentions the word `missing`, or an input that reads missing
at the point, is missing there if it has a value at all. Handles may be any, right or wrong. -/
theorem valueAt_eq_none {σ : Type} [Host σ] (scope : σ) (handles : Handles) (maxDepth : Nat)
    {tree : Tree} {index : Nat} {value : Option Binary64} (noTests : tree.WithoutTests)
    (mentions : .missing ∈ tree.leaves ∨ ∃ name ∈ tree.inputs,
      (Host.lookup scope handles name).bind (fun field => field.read index) = none)
    (hvalue : (evaluator scope handles maxDepth).valueAt tree index = .ok value) :
    value = none := by
  rcases mentions with hmissing | ⟨name, hname, hread⟩
  · exact Evaluator.valueFrom_eq_none noTests hmissing rfl hvalue
  · have hleaf : (evaluator scope handles maxDepth).readLeaf index (.variable name) = none := hread
    exact Evaluator.valueFrom_eq_none noTests (Tree.mem_inputs_iff.mp hname) hleaf hvalue

def gapped : BareScope := ⟨#[⟨"A", #[1, defaultSentinel, 2], defaultSentinel⟩], 3, true, true, none⟩

/-- `max(2, abs(median(A, 3)))`: the neighbours have values, the centre of the window has none. -/
def gappedMedian : Tree :=
  .call (.builtin .max) [.leaf (.number "2" 2),
    .call (.builtin .abs) [.call (.builtin .median) [.leaf (.variable "A"),
      .leaf (.number "3" ⟨0x4008000000000000⟩)]]]

theorem gappedMedian_missing : gappedMedian.WithoutTests ∧ "A" ∈ gappedMedian.inputs ∧
    ∃ value, (evaluator gapped .empty 3).valueAt gappedMedian 1 = .ok value ∧ value = none := by
  have noTests : gappedMedian.WithoutTests := by
    simp [gappedMedian, Tree.WithoutTests, Tree.Every, Tree.EveryArg]
  have hinput : "A" ∈ gappedMedian.inputs := by decide
  have hvalue : (evaluator gapped .empty 3).valueAt gappedMedian 1 = .ok none := by
    with_unfolding_all rfl
  have hread : (Host.lookup gapped .empty "A").bind (fun field => field.read 1) = none := by
    with_unfolding_all rfl
  exact ⟨noTests, hinput, none, hvalue,
    valueAt_eq_none gapped .empty 3 noTests (.inr ⟨"A", hinput, hread⟩) hvalue⟩

end Statement

end FieldScript
