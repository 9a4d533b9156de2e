import FieldScript.Proofs.Parse.WellFormed
import FieldScript.Proofs.Statement.Failing
import FieldScript.Proofs.Statement.Success
import FieldScript.Proofs.Wire.Decoded

/-! No list is read past its end. The counts of arguments are checked when a call is built, when it
is parsed and when it is decoded, and a scope in memory has as many readings for each target as it
has points; that is all that the operators, the windows and the conditionals rely on. -/
namespace FieldScript

open Outcome

namespace Tree

/-- Trees that can come about: built from others, taken out of them, parsed from any text or decoded
from any bytes. -/
inductive Obtained : Tree → Prop where
  | leaf (content : Leaf) : Obtained (.leaf content)
  | arith (chain : ArithChain) : Obtained (.arith chain)
  | tests (chain : TestChain) : Obtained (.tests chain)
  | builtin {op : Builtin} {args : List Tree} {tree : Tree} (obtained : ∀ arg ∈ args, Obtained arg)
    (built : buildBuiltin op args = .ok tree) : Obtained tree
  | user (keyword : String) {args : List Tree} (obtained : ∀ arg ∈ args, Obtained arg) :
    Obtained (.call (.user keyword) args)
  | call {keyword : String} {args : List Tree} {tree : Tree}
    (obtained : ∀ arg ∈ args, Obtained arg) (built : buildCall keyword args = .ok tree) :
    Obtained tree
  | assign {target : Leaf} {value tree : Tree} (obtained : Obtained value)
    (built : buildAssign target value = .ok tree) : Obtained tree
  | guarded (test : TestChain) {target : Leaf} {value : Tree}
    (obtained : Obtained (.assign target value)) : Obtained (.guarded test target value)
  | branched (test : TestChain) {target target' : Leaf} {value value' : Tree}
    (obtained : Obtained (.assign target value)) (obtained' : Obtained (.assign target' value')) :
    Obtained (.branched test target value target' value')
  | argument {callee : Callee} {args : List Tree} {arg : Tree}
    (obtained : Obtained (.call callee args)) (mem : arg ∈ args) : Obtained arg
  | branch {tree : Tree} {branch : Leaf × Tree} (obtained : Obtained tree)
    (mem : branch ∈ tree.branches) : Obtained (.assign branch.1 branch.2)
  | value {target : Leaf} {value : Tree} (obtained : Obtained (.assign target value)) :
    Obtained value
  | statement {source : String} {maxDepth : Nat} {trees : List Tree} {tree : Tree}
    (parsed : Parse.script source maxDepth = .ok trees) (mem : tree ∈ trees) : Obtained tree
  | expression {source : String} {tree : Tree} (parsed : Parse.expression source = .ok tree) :
    Obtained tree
  | decoded {bytes rest : Wire.Bytes} {tree : Tree}
    (decoded : Wire.readTree bytes = some (tree, rest)) : Obtained tree
  | entry {bytes rest : Wire.Bytes} {script : Script} {tree : Tree}
    (decoded : Wire.readScript bytes = some (script, rest)) (mem : tree ∈ script.statements) :
    Obtained tree

theorem every_buildBuiltin {op : Builtin} {args : List Tree} {tree : Tree}
    (calls : ∀ arg ∈ args, arg.Every CallChecked) (built : buildBuiltin op args = .ok tree) :
    tree.Every CallChecked := by
  obtain ⟨⟨⟩, hargs, htree⟩ := bind_eq_ok.mp built
  cases htree
  exact every_call.mpr ⟨hargs, calls⟩

theorem Obtained.callsChecked {tree : Tree} (obtained : tree.Obtained) :
    tree.Every CallChecked := by
  induction obtained with
  | leaf | arith | tests => trivial
  | builtin _ built ih => exact every_buildBuiltin ih built
  | user keyword _ ih => exact every_call.mpr ⟨trivial, ih⟩
  | @call keyword args tree _ built ih =>
    unfold buildCall at built
    split at built
    · exact every_buildBuiltin ih built
    · cases built
      exact every_call.mpr ⟨trivial, ih⟩
  | assign _ built ih =>
    unfold buildAssign at built
    split at built
    · cases built
    · split at built
      · cases built
      · cases built
        exact ⟨trivial, ih⟩
  | guarded test _ ih => exact ⟨trivial, ih.2⟩
  | branched test _ _ ih ih' => exact ⟨trivial, ih.2, ih'.2⟩
  | argument _ mem ih => exact (every_call.mp ih).2 _ mem
  | branch _ mem ih => exact ⟨trivial, ih.branch mem⟩
  | value _ ih => exact ih.2
  | statement parsed mem =>
    exact (Parse.script_wellFormed parsed _ mem).nodes.mono fun _ => NodeWellFormed.callChecked
  | expression parsed =>
    exact (Parse.expression_wellFormed parsed).nodes.mono fun _ => NodeWellFormed.callChecked
  | decoded decoded => exact (Wire.yields_readTree _ _ _ decoded).1
  | entry decoded mem => exact ((Wire.yields_readScript _ _ _ decoded).statements _ mem).1

end Tree

theorem Evaluator.Failure.ne_outOfBounds {ev : Evaluator} {index depth : Nat} {tree : Tree}
    {e : EvalError} (failure : ev.Failure index depth tree e) (calls : tree.Every Tree.CallChecked) :
    e ≠ .outOfBounds := by
  induction failure with
  | spent | user | statement => nofun
  | window isWindow failed => exact (windowAt_refusal failed).2
  | operator pointwise count failed =>
    exact absurd failed (Builtin.pointwise_ne_error pointwise (Tree.every_call.mp calls).1 count)
  | argument room pointwise mem failure ih => exact ih ((Tree.every_call.mp calls).2 _ mem)

theorem UserDataStore.store_refusal {userData : UserDataStore} {name : String} {data : UserData}
    {e : EvalError} (h : userData.store name data = .error e) : e.IsRefusal := by
  unfold store bind at h
  split at h
  · split at h
    · cases h
      exact ⟨rfl, by simp⟩
    · cases h
  · cases h
    exact ⟨rfl, by simp⟩

namespace Statement

/-- The function that a statement assigns the result of gave this error itself. -/
inductive HostError {σ : Type} [Host σ] (scope : σ) (e : EvalError) : Tree → Prop where
  | data {target : Leaf} {keyword : String} {args : List Tree}
    (produces : Host.producesUserData scope keyword = true)
    (failed : Host.computeData scope keyword args = .error e) :
    HostError scope e (.assign target (.call (.user keyword) args))
  | field {target : Leaf} {keyword : String} {args : List Tree} {field written : Field}
    (produces : Host.producesUserData scope keyword = false)
    (scratched : scratch scope target.targetName = .ok field)
    (failed : Host.fillField scope keyword args field = .error e written) :
    HostError scope e (.assign target (.call (.user keyword) args))

theorem planUserCall_error {σ : Type} [Host σ] {scope : σ} {target : Leaf} {keyword : String}
    {args : List Tree} {e : EvalError}
    (h : planUserCall scope target.targetName keyword args = .error e) :
    e.IsRefusal ∨ HostError scope e (.assign target (.call (.user keyword) args)) := by
  rcases bind_eq_error.mp h with hargs | ⟨⟨⟩, _, h⟩
  · exact .inl (checkUserArgs_refusal hargs)
  cases produces : Host.producesUserData scope keyword with
  | true =>
    rw [produces, if_pos rfl] at h
    rcases bind_eq_error.mp h with hdata | ⟨_, _, h⟩
    · exact .inr (.data produces hdata)
    · cases h
  | false =>
    rw [produces, if_neg Bool.false_ne_true] at h
    rcases bind_eq_error.mp h with hscratch | ⟨field, hscratch, h⟩
    · exact .inl (scratch_refusal hscratch)
    · split at h
      · cases h
      · rename_i hfailed
        cases h
        exact .inr (.field produces hscratch hfailed)

variable {scope after : MemoryScope} {maxDepth : Nat} {tree : Tree}

theorem plan_outOfBounds (wf : scope.WellFormed)
    (h : plan scope maxDepth tree = .error .outOfBounds) : HostError scope .outOfBounds tree := by
  cases failure_of_plan h with
  | refused refusal => exact absurd rfl refusal.2
  | outrun form outruns =>
    obtain ⟨point, hpoint, _, branch, _, hshort⟩ := outruns.outrun
    rw [seedSize_eq wf] at hshort
    exact absurd hpoint (Nat.not_lt.mpr hshort)
  | host call =>
    obtain ⟨target, keyword, args, rfl⟩ := call
    exact (planUserCall_error h).resolve_left fun refusal => refusal.2 rfl

theorem apply_data_refusal {target : String} {data : UserData} {e : EvalError}
    (h : Write.apply (.data target data) scope = .error e after) : e.IsRefusal := by
  simp only [Write.apply] at h
  split at h
  · cases h
  · rename_i hstore
    cases h
    rcases bind_eq_error.mp hstore with hstore | ⟨_, _, hstored⟩
    · exact UserDataStore.store_refusal hstore
    · cases hstored

theorem writes_refusal {planned : Plan} {e : EvalError} (h : Planned scope tree planned)
    (failed : planned.writes.forM Write.apply scope = .error e after) : e.IsRefusal := by
  cases h with
  | fields writes steps targets => exact forM_apply_refusal steps failed
  | nothing stored => cases failed
  | data target keyword args data call computed =>
    rcases forM_cons_apply_error.mp failed with hwrite | ⟨_, _, hrest⟩
    · exact apply_data_refusal hwrite
    · cases hrest

/-- Whatever a tree was made from, neither its value at a point nor, in a scope in memory, its
execution reads a list past its end: not the arguments of an operator, the points of `fuzzy`, the
sorted window of a median or the buffer of a target; nor is a window operator applied to values. The
handles of a value may be any, also those of another scope. Only a host function can give this
error, and then as an answer of its own. -/
theorem outOfBounds_unreachable {scope : MemoryScope} (reachable : scope.Reachable) {tree : Tree}
    (obtained : tree.Obtained) :
    (∀ handles maxDepth index,
      (evaluator scope handles maxDepth).valueAt tree index ≠ .error .outOfBounds) ∧
    ∀ maxDepth after, process maxDepth tree scope = .error .outOfBounds after →
      HostError scope .outOfBounds tree := by
  refine ⟨fun handles maxDepth index h => ?_, fun maxDepth after h => ?_⟩
  · exact (Evaluator.failure_of_valueFrom h).ne_outOfBounds obtained.callsChecked rfl
  · rcases process_eq_error.mp h with ⟨hplan, _⟩ | ⟨planned, hplan, hwrites⟩
    · exact plan_outOfBounds reachable.wellFormed hplan
    · exact absurd rfl (writes_refusal (planned_of_plan hplan) hwrites).2

/-- An operator does read past the end of arguments that nobody counted. -/
example : (evaluator twoPoints .empty 2).valueAt
    (.call (.builtin .fuzzy) [.leaf (.variable "A")]) 0 = .error .outOfBounds := by
  with_unfolding_all rfl

def remappedMedian : Tree :=
  .call (.builtin .fuzzy)
    [.call (.builtin .median) [.leaf (.variable "A"), .leaf (.number "2" 2)],
      .leaf (.number "1" 1), .leaf (.number "2" 2)]

def remappedMedianBytes : Wire.Bytes :=
  [4, 0, 1, 0x56, 1, 0, 11, 3, 1, 0, 18, 2, 0, 0, 1, 0x41, 0, 1, 1, 0x32, 0, 0, 0, 0, 0, 0, 0, 0x40,
    0, 1, 1, 0x31, 0, 0, 0, 0, 0, 0, 0xf0, 0x3f, 0, 1, 1, 0x32, 0, 0, 0, 0, 0, 0, 0, 0x40]

/-- The handle is that of another scope: there is only one field here. -/
theorem remappedMedian_inBounds :
    let statement := Tree.assign (.variable "V") remappedMedian
    twoPoints.Reachable ∧ Wire.readTree remappedMedianBytes = some (statement, []) ∧
      (∀ point, (evaluator twoPoints ⟨[("A", 7)]⟩ 3).valueAt remappedMedian point ≠
        .error .outOfBounds) ∧
      ∀ after, process 3 statement twoPoints ≠ .error .outOfBounds after := by
  intro statement
  have decoded : Wire.readTree remappedMedianBytes = some (statement, []) := by
    with_unfolding_all rfl
  refine ⟨reachable_twoPoints, decoded, fun point => ?_, fun after h => ?_⟩
  · exact (outOfBounds_unreachable reachable_twoPoints (.value (.decoded decoded))).1 _ 3 point
  · have hosted : HostError twoPoints .outOfBounds (.assign (.variable "V") remappedMedian) :=
      (outOfBounds_unreachable reachable_twoPoints (.decoded decoded)).2 3 after h
    cases hosted

end Statement

end FieldScript
