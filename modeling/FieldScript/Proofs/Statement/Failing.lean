import FieldScript.Proofs.Evaluate.Failing
import FieldScript.Proofs.Statement.Conditional

/-! Why a statement fails, in any scope. Leaving host functions aside, levels run out only where a
value is higher than the limit, and a list is read past its end only where the target of the branch
taken at a point ends before that point. -/
namespace FieldScript

open Outcome

variable {σ : Type} [Host σ] {scope after : σ} {e : EvalError} {maxDepth : Nat}

theorem Tree.form (statement : Tree) : (∃ target value, statement = .assign target value) ∨
    (∃ test first other, statement = .conditional test first other) ∨
      statement.isStatement = false := by
  cases statement with
  | assign target value => exact .inl ⟨target, value, rfl⟩
  | guarded test target value => exact .inr (.inl ⟨test, (target, value), none, rfl⟩)
  | branched test target value target' value' =>
    exact .inr (.inl ⟨test, (target, value), some (target', value'), rfl⟩)
  | _ => exact .inr (.inr rfl)

def Tree.CallsHost (statement : Tree) : Prop :=
  ∃ target keyword args, statement = .assign target (.call (.user keyword) args)

theorem Tree.userKeyword?_eq_some {value : Tree} {keyword : String}
    (h : value.userKeyword? = some keyword) : ∃ args, value = .call (.user keyword) args := by
  unfold userKeyword? at h
  split at h
  · cases h
    exact ⟨_, rfl⟩
  · cases h

namespace Host

theorem foldlM_resolveNext_refusal {names : List String} {handles : Handles}
    (h : names.foldlM (resolveNext scope) handles = .error e) : e.IsRefusal := by
  induction names generalizing handles with
  | nil => cases h
  | cons name names ih =>
    rw [List.foldlM_cons] at h
    rcases bind_eq_error.mp h with hname | ⟨next, _, hrest⟩
    · unfold resolveNext at hname
      split at hname
      · cases hname
      · cases hname
        exact ⟨rfl, by simp⟩
    · exact ih hrest

theorem resolve_refusal {names : List String} (h : resolve scope names = .error e) :
    e.IsRefusal := foldlM_resolveNext_refusal h

structure NoFunction (scope : σ) (keyword : String) : Prop where
  fillField : ∀ args, Host.fillField scope keyword args = throw (.unknownFunction keyword)
  computeData : ∀ args, Host.computeData scope keyword args = .error (.unknownFunction keyword)

end Host

namespace Statement

theorem checkOutput_refusal {name : String} (h : checkOutput scope name = .error e) :
    e.IsRefusal := by
  unfold checkOutput at h
  split at h
  · cases h
  · cases h
    exact ⟨rfl, by simp⟩

/-! ### Assignments -/

theorem evaluateAll_error {tree : Tree} (h : evaluateAll scope maxDepth tree = .error e) :
    e.IsRefusal ∨ (∃ reached, e = .stackOverflow reached maxDepth) ∧ maxDepth < tree.height := by
  rcases bind_eq_error.mp h with hcheck | ⟨⟨⟩, hcheck, h⟩
  · exact .inl (Tree.checkPointwise_refusal hcheck)
  rcases bind_eq_error.mp h with hresolve | ⟨handles, _, h⟩
  · exact .inl (Host.resolve_refusal hresolve)
  obtain ⟨point, _, hvalue, _⟩ := mapM_range_eq_error.mp h
  rcases Evaluator.valueFrom_error hcheck hvalue with ⟨_, _, _, rfl⟩ | ⟨hreached, hhigh⟩
  · exact .inl ⟨rfl, by simp⟩
  · rw [Nat.zero_add] at hhigh
    exact .inr ⟨hreached, hhigh⟩

theorem planCopy_refusal {target source : String} (h : planCopy scope target source = .error e) :
    e.IsRefusal := by
  rcases bind_eq_error.mp h with hresolve | ⟨handles, _, h⟩
  · exact Host.resolve_refusal hresolve
  · split at h
    · cases h
    · split at h
      · cases h
        exact ⟨rfl, by simp⟩
      · rcases bind_eq_error.mp h with hcheck | ⟨_, _, h⟩
        · exact checkOutput_refusal hcheck
        · cases h

theorem checkUserArgs_refusal {args : List Tree} (h : checkUserArgs scope args = .error e) :
    e.IsRefusal := by
  obtain ⟨name, _, hname⟩ := exists_of_forM_error h
  split at hname
  · cases hname
  · cases hname
    exact ⟨rfl, by simp⟩

theorem scratch_refusal {target : String} (h : scratch scope target = .error e) : e.IsRefusal := by
  unfold scratch at h
  split at h
  · cases h
  · split at h
    · cases h
    · cases h
      exact ⟨rfl, by simp⟩

theorem planUserCall_refused {keyword : String} (absent : Host.NoFunction scope keyword)
    (target : String) (args : List Tree) :
    ∃ e, e.IsRefusal ∧ planUserCall scope target keyword args = .error e := by
  have hunknown : (EvalError.unknownFunction keyword).IsRefusal := ⟨rfl, by simp⟩
  unfold planUserCall
  rw [absent.fillField, absent.computeData]
  cases hargs : checkUserArgs scope args with
  | error e => exact ⟨e, checkUserArgs_refusal hargs, rfl⟩
  | ok _ =>
    cases hdata : Host.producesUserData scope keyword with
    | true => exact ⟨_, hunknown, rfl⟩
    | false =>
      cases hscratch : scratch scope target with
      | error e => exact ⟨e, scratch_refusal hscratch, rfl⟩
      | ok field => exact ⟨_, hunknown, rfl⟩

theorem planAssign_error {target : String} {value : Tree} (noHost : value.userKeyword? = none)
    (h : planAssign scope maxDepth target value = .error e) : e.IsRefusal ∨
      (∃ reached, e = .stackOverflow reached maxDepth) ∧ maxDepth < value.height := by
  unfold planAssign at h
  split at h
  · cases h
  · cases h
  · exact .inl (planCopy_refusal h)
  · cases noHost
  · rcases bind_eq_error.mp h with hcheck | ⟨⟨⟩, _, h⟩
    · exact .inl (checkOutput_refusal hcheck)
    · rcases bind_eq_error.mp h with hvalues | ⟨_, _, h⟩
      · exact evaluateAll_error hvalues
      · cases h

/-! ### Conditionals -/

section Conditionals

variable {test : TestChain} {first : Leaf × Tree} {other : Option (Leaf × Tree)}

/-- What a conditional must satisfy before any point is looked at. -/
structure Prepared (scope : σ) (test : TestChain) (first : Leaf × Tree)
    (other : Option (Leaf × Tree)) : Prop where
  pointwise : ∀ branch ∈ first :: other.toList, branch.2.checkPointwise = .ok ()
  available : ∀ branch ∈ first :: other.toList, checkOutput scope branch.1.targetName = .ok ()
  found : ∀ name ∈ (Tree.conditional test first other).inputs,
    (Host.fieldId? scope name).isSome = true

/-- At some point the branch taken writes to a field that ends before, and all values up to there
can be computed. -/
structure OutrunsBuffer (scope : σ) (maxDepth : Nat) (test : TestChain) (first : Leaf × Tree)
    (other : Option (Leaf × Tree)) : Prop extends Prepared scope test first other where
  outrun : ∃ point < Host.pointCount scope,
    (∀ earlier ≤ point,
      ∀ branch ∈ taken first other (test.holds ((pointEvaluator scope maxDepth).readLeaf earlier)),
        ∃ value, (pointEvaluator scope maxDepth).valueAt branch.2 earlier = .ok value) ∧
    ∃ branch ∈ taken first other (test.holds ((pointEvaluator scope maxDepth).readLeaf point)),
      seedSize scope branch.1.targetName ≤ point

theorem choice_eq_error {ev : Evaluator} {point : Nat} :
    choice scope ev test (namedBranches first other) point = .error e ↔
      ∃ branch ∈ taken first other (test.holds (ev.readLeaf point)),
        ev.valueAt branch.2 point = .error e ∨ (∃ value, ev.valueAt branch.2 point = .ok value) ∧
          seedSize scope branch.1.targetName ≤ point ∧ e = .outOfBounds := by
  unfold choice
  rw [selected_map]
  cases taken first other (test.holds (ev.readLeaf point)) with
  | none => simp
  | some branch =>
    simp only [Option.map_some, bind_eq_error, Option.mem_some_iff, exists_eq_left']
    refine or_congr_right ?_
    constructor
    · rintro ⟨value, hvalue, hrange⟩
      split at hrange
      · cases hrange
      · cases hrange
        exact ⟨⟨value, hvalue⟩, by omega, rfl⟩
    · rintro ⟨⟨value, hvalue⟩, hrange, rfl⟩
      exact ⟨value, hvalue, if_neg (by omega)⟩

theorem exists_choice_iff {ev : Evaluator} {point : Nat} :
    (∃ chosen, choice scope ev test (namedBranches first other) point = .ok chosen) ↔
      ∀ branch ∈ taken first other (test.holds (ev.readLeaf point)),
        (∃ value, ev.valueAt branch.2 point = .ok value) ∧
          point < seedSize scope branch.1.targetName := by
  unfold choice
  rw [selected_map]
  cases taken first other (test.holds (ev.readLeaf point)) with
  | none => simp
  | some branch =>
    simp only [Option.map_some, bind_eq_ok, Option.mem_some_iff, forall_eq']
    constructor
    · rintro ⟨chosen, value, hvalue, hrange⟩
      split at hrange
      · exact ⟨⟨value, hvalue⟩, by assumption⟩
      · cases hrange
    · rintro ⟨⟨value, hvalue⟩, hrange⟩
      exact ⟨_, value, hvalue, if_pos hrange⟩

def overlayWrite (scope : σ) (choices : List (Option (String × Option Binary64)))
    (target : String) : Write :=
  .values target (overlay target (seed scope target) choices)

def overlayPlan (scope : σ) (targets : List String)
    (choices : List (Option (String × Option Binary64))) : Plan :=
  ⟨targets.map (overlayWrite scope choices), .fields targets⟩

def checkBranch (scope : σ) (branch : String × Tree) : Except EvalError Unit := do
  branch.2.checkPointwise
  checkOutput scope branch.1

theorem checkBranches_eq_ok : (namedBranches first other).forM (checkBranch scope) = .ok () ↔
    ∀ branch ∈ first :: other.toList, branch.2.checkPointwise = .ok () ∧
      checkOutput scope branch.1.targetName = .ok () := by
  constructor
  · intro h branch hbranch
    obtain ⟨⟨⟩, hpointwise, houtput⟩ :=
      bind_eq_ok.mp (of_forM_eq_ok h _ (List.mem_map_of_mem hbranch))
    exact ⟨hpointwise, houtput⟩
  · intro h
    refine forM_eq_ok fun named hnamed => ?_
    obtain ⟨branch, hbranch, rfl⟩ := List.mem_map.mp hnamed
    obtain ⟨hpointwise, houtput⟩ := h branch hbranch
    exact bind_eq_ok.mpr ⟨(), hpointwise, houtput⟩

theorem planConditional_eq {statement : Tree} {branches : List (String × Tree)} :
    planConditional scope maxDepth statement test branches = (do
      branches.forM (checkBranch scope)
      let handles ← Host.resolve scope statement.inputs
      let choices ← (List.range (Host.pointCount scope)).mapM
        (choice scope (evaluator scope handles maxDepth) test branches)
      pure (overlayPlan scope statement.outputs choices)) := rfl

theorem plan_of_prepared (h : Prepared scope test first other) :
    plan scope maxDepth (.conditional test first other) = (do
      let choices ← (List.range (Host.pointCount scope)).mapM
        (choice scope (pointEvaluator scope maxDepth) test (namedBranches first other))
      pure (overlayPlan scope (Tree.conditional test first other).outputs choices)) := by
  have hchecks : (namedBranches first other).forM (checkBranch scope) = .ok () :=
    checkBranches_eq_ok.mpr fun branch hbranch =>
      ⟨h.pointwise branch hbranch, h.available branch hbranch⟩
  obtain ⟨handles, hresolve⟩ := Host.exists_resolve_iff.mpr h.found
  rw [plan_conditional, planConditional_eq, hchecks, hresolve, ← evaluator_of_resolve hresolve]
  rfl

theorem exists_refusal_of_not_prepared (h : ¬Prepared scope test first other) :
    ∃ e, e.IsRefusal ∧ plan scope maxDepth (.conditional test first other) = .error e := by
  rw [plan_conditional, planConditional_eq]
  cases hchecks : (namedBranches first other).forM (checkBranch scope) with
  | error e =>
    refine ⟨e, ?_, rfl⟩
    obtain ⟨named, _, hnamed⟩ := exists_of_forM_error hchecks
    rcases bind_eq_error.mp hnamed with hpointwise | ⟨_, _, houtput⟩
    · exact Tree.checkPointwise_refusal hpointwise
    · exact checkOutput_refusal houtput
  | ok _ =>
    cases hresolve : Host.resolve scope (Tree.conditional test first other).inputs with
    | error e => exact ⟨e, Host.resolve_refusal hresolve, rfl⟩
    | ok handles =>
      have hbranches := checkBranches_eq_ok.mp hchecks
      exact absurd ⟨fun branch hbranch => (hbranches branch hbranch).1,
        fun branch hbranch => (hbranches branch hbranch).2,
        Host.exists_resolve_iff.mp ⟨handles, hresolve⟩⟩ h

theorem plan_conditional_error {e : EvalError}
    (h : plan scope maxDepth (.conditional test first other) = .error e) : e.IsRefusal ∨
      Prepared scope test first other ∧ ∃ point < Host.pointCount scope,
        choice scope (pointEvaluator scope maxDepth) test (namedBranches first other) point =
          .error e ∧
        ∀ earlier < point, ∃ chosen, choice scope (pointEvaluator scope maxDepth) test
          (namedBranches first other) earlier = .ok chosen := by
  by_cases hprepared : Prepared scope test first other
  · rw [plan_of_prepared hprepared] at h
    rcases bind_eq_error.mp h with hchoices | ⟨_, _, h⟩
    · exact .inr ⟨hprepared, mapM_range_eq_error.mp hchoices⟩
    · cases h
  · have hrefused : ∃ e, e.IsRefusal ∧ plan scope maxDepth (.conditional test first other) =
        .error e := exists_refusal_of_not_prepared hprepared
    obtain ⟨_, hrefusal, hplan⟩ := hrefused
    rw [hplan] at h
    cases h
    exact .inl hrefusal

theorem valueAt_ne_outOfBounds {ev : Evaluator} {value : Tree} {point : Nat}
    (checked : value.checkPointwise = .ok ()) : ev.valueAt value point ≠ .error .outOfBounds := by
  intro h
  rcases Evaluator.valueFrom_error checked h with ⟨_, _, _, ⟨⟩⟩ | ⟨⟨_, ⟨⟩⟩, _⟩

theorem plan_conditional_outOfBounds :
    plan scope maxDepth (.conditional test first other) = .error .outOfBounds ↔
      OutrunsBuffer scope maxDepth test first other := by
  constructor
  · intro h
    rcases plan_conditional_error h with hrefusal | ⟨hprepared, point, hpoint, hfail, hearlier⟩
    · exact absurd rfl hrefusal.2
    · refine ⟨hprepared, point, hpoint, ?_⟩
      obtain ⟨branch, htaken, hcause⟩ := choice_eq_error.mp hfail
      have hchecked := hprepared.pointwise branch (mem_of_taken htaken)
      obtain ⟨hvalue, hshort, _⟩ := hcause.resolve_left (valueAt_ne_outOfBounds hchecked)
      refine ⟨fun earlier hle branch' htaken' => ?_, branch, htaken, hshort⟩
      rcases Nat.lt_or_eq_of_le hle with hlt | rfl
      · exact (exists_choice_iff.mp (hearlier earlier hlt) branch' htaken').1
      · cases Option.mem_unique htaken htaken'
        exact hvalue
  · rintro ⟨hprepared, point, hpoint, hvalues, branch, htaken, hshort⟩
    have hnone : ¬∃ chosen, choice scope (pointEvaluator scope maxDepth) test
        (namedBranches first other) point = .ok chosen := by
      intro hchosen
      have hroom := (exists_choice_iff.mp hchosen branch htaken).2
      omega
    rw [plan_of_prepared hprepared]
    cases hchoices : (List.range (Host.pointCount scope)).mapM
        (choice scope (pointEvaluator scope maxDepth) test (namedBranches first other)) with
    | ok choices =>
      obtain ⟨chosen, hchosen, _⟩ := getElem?_of_mapM hchoices (List.getElem?_range hpoint)
      exact absurd ⟨chosen, hchosen⟩ hnone
    | error e =>
      -- The first point that fails is this one or an earlier one, and all values up to here exist.
      obtain ⟨failing, _, hfail, hbefore⟩ := mapM_range_eq_error.mp hchoices
      have hle : failing ≤ point := Nat.not_lt.mp fun hlt => hnone (hbefore point hlt)
      obtain ⟨branch', htaken', hcause⟩ := choice_eq_error.mp hfail
      obtain ⟨value, hvalue⟩ := hvalues failing hle branch' htaken'
      rcases hcause with hvalue' | ⟨_, _, rfl⟩
      · rw [hvalue] at hvalue'
        cases hvalue'
      · rfl

theorem plan_conditional_cause {e : EvalError}
    (h : plan scope maxDepth (.conditional test first other) = .error e) : e.IsRefusal ∨
      (e = .outOfBounds ∧ OutrunsBuffer scope maxDepth test first other) ∨
        (∃ reached, e = .stackOverflow reached maxDepth) ∧
          ∃ branch ∈ first :: other.toList, maxDepth < branch.2.height := by
  rcases plan_conditional_error h with hrefusal | ⟨hprepared, point, _, hfail, _⟩
  · exact .inl hrefusal
  · obtain ⟨branch, htaken, hvalue | ⟨_, _, rfl⟩⟩ := choice_eq_error.mp hfail
    · have hbranch := mem_of_taken htaken
      rcases Evaluator.valueFrom_error (hprepared.pointwise branch hbranch) hvalue with
        ⟨_, _, _, rfl⟩ | ⟨hreached, hhigh⟩
      · exact .inl ⟨rfl, by simp⟩
      · rw [Nat.zero_add] at hhigh
        exact .inr (.inr ⟨hreached, branch, hbranch, hhigh⟩)
    · exact .inr (.inl ⟨rfl, plan_conditional_outOfBounds.mp h⟩)

end Conditionals

/-! ### Writes -/

theorem putOption_refusal {index : Nat} {value : Option Binary64} {field written : Field}
    (h : Field.putOption index value field = .error e written) : e.IsRefusal := by
  have hput (v : Binary64) (hv : Field.put index v field = .error e written) : e.IsRefusal := by
    unfold Field.put at hv
    split at hv
    · cases hv
    · cases hv
      exact ⟨rfl, by simp⟩
  cases value with
  | none => exact hput field.sentinel h
  | some v => exact hput v h

theorem commitFrom_refusal {values : List (Option Binary64)} {index : Nat} {field written : Field}
    (h : Field.commitFrom index values field = .error e written) : e.IsRefusal := by
  induction values generalizing index field with
  | nil => cases h
  | cons value rest ih =>
    simp only [Field.commitFrom, bind, EStateM.bind] at h
    split at h
    · exact ih h
    · rename_i hput
      cases h
      exact putOption_refusal hput

theorem updateOutput_refusal {name : String} {step : Update Field Unit}
    (hstep : ∀ {field written}, step field = .error e written → e.IsRefusal)
    (h : updateOutput name step scope = .error e after) : e.IsRefusal := by
  simp only [updateOutput, bind, EStateM.bind, outputField] at h
  split at h
  · rename_i id middle _
    simp only [Host.updateField] at h
    split at h
    · cases h
      exact ⟨rfl, by simp⟩
    · split at h
      · cases h
      · rename_i hfail
        cases h
        exact hstep hfail
  · rename_i hcreate
    split at hcreate
    · cases hcreate
    · cases hcreate
      cases h
      exact ⟨rfl, by simp⟩

theorem apply_refusal {write : Write} (hstep : write.step?.isSome = true)
    (h : Write.apply write scope = .error e after) : e.IsRefusal := by
  cases write with
  | fill target value => exact updateOutput_refusal (fun hfail => by cases hfail) h
  | clear target => exact updateOutput_refusal (fun hfail => by cases hfail) h
  | values target values =>
    simp only [Write.apply] at h
    split at h
    · split at h
      · exact updateOutput_refusal commitFrom_refusal h
      · cases h
        exact ⟨rfl, by simp⟩
    · exact updateOutput_refusal commitFrom_refusal h
  | data target data => cases hstep

theorem forM_cons_apply_error {write : Write} {rest : List Write} :
    (write :: rest).forM Write.apply scope = .error e after ↔
      Write.apply write scope = .error e after ∨ ∃ middle,
        Write.apply write scope = .ok () middle ∧
          rest.forM Write.apply middle = .error e after := by
  rw [forM_cons]
  simp only [bind, EStateM.bind]
  cases Write.apply write scope <;> simp

theorem forM_apply_refusal {writes : List Write}
    (hsteps : ∀ write ∈ writes, write.step?.isSome = true)
    (h : writes.forM Write.apply scope = .error e after) : e.IsRefusal := by
  induction writes generalizing scope with
  | nil => cases h
  | cons write rest ih =>
    obtain ⟨hstep, hrest⟩ := List.forall_mem_cons.mp hsteps
    rcases forM_cons_apply_error.mp h with hwrite | ⟨middle, _, hfail⟩
    · exact apply_refusal hstep hwrite
    · exact ih hrest hfail

/-! ### Statements -/

theorem process_eq_error {statement : Tree} : process maxDepth statement scope = .error e after ↔
    (plan scope maxDepth statement = .error e ∧ after = scope) ∨ ∃ planned,
      plan scope maxDepth statement = .ok planned ∧
        planned.writes.forM Write.apply scope = .error e after := by
  unfold process
  cases plan scope maxDepth statement with
  | error cause => simp [eq_comm]
  | ok planned =>
    simp only [commit, bind, EStateM.bind, reduceCtorEq, false_and, false_or, Except.ok.injEq,
      exists_eq_left']
    cases planned.writes.forM Write.apply scope with
    | ok result middle => simp [pure, EStateM.pure]
    | error cause middle => simp

theorem plan_of_not_isStatement {statement : Tree} (h : statement.isStatement = false) :
    plan scope maxDepth statement = .error (.misuse (.notAssignment statement.text)) := by
  cases statement with
  | assign target value | guarded test target value => cases h
  | branched test target value target' value' => cases h
  | _ => rfl

/-- Why a statement fails; a host function may give any error. -/
inductive Failure (scope : σ) (maxDepth : Nat) (statement : Tree) : EvalError → Prop where
  | refused {e : EvalError} (refusal : e.IsRefusal) : Failure scope maxDepth statement e
  | tooDeep {reached : Nat} {branch : Leaf × Tree} (mem : branch ∈ statement.branches)
    (high : maxDepth < branch.2.height) :
    Failure scope maxDepth statement (.stackOverflow reached maxDepth)
  | outrun {test : TestChain} {first : Leaf × Tree} {other : Option (Leaf × Tree)}
    (form : statement = .conditional test first other)
    (outruns : OutrunsBuffer scope maxDepth test first other) :
    Failure scope maxDepth statement .outOfBounds
  | host {e : EvalError} (call : statement.CallsHost) : Failure scope maxDepth statement e

theorem failure_conditional {test : TestChain} {first : Leaf × Tree} {other : Option (Leaf × Tree)}
    (h : plan scope maxDepth (.conditional test first other) = .error e) :
    Failure scope maxDepth (.conditional test first other) e := by
  rcases plan_conditional_cause h with hrefusal | ⟨rfl, houtruns⟩ | ⟨⟨_, rfl⟩, branch, hmem, hhigh⟩
  · exact .refused hrefusal
  · exact .outrun rfl houtruns
  · exact .tooDeep (branches_conditional ▸ hmem) hhigh

theorem failure_of_plan {statement : Tree} (h : plan scope maxDepth statement = .error e) :
    Failure scope maxDepth statement e := by
  rcases statement.form with ⟨target, value, rfl⟩ | ⟨test, first, other, rfl⟩ | hother
  · cases hkeyword : value.userKeyword? with
    | none =>
      rcases planAssign_error hkeyword h with hrefusal | ⟨⟨_, rfl⟩, hhigh⟩
      · exact .refused hrefusal
      · exact .tooDeep List.mem_cons_self hhigh
    | some keyword =>
      obtain ⟨args, rfl⟩ := Tree.userKeyword?_eq_some hkeyword
      exact .host ⟨target, keyword, args, rfl⟩
  · exact failure_conditional h
  · rw [plan_of_not_isStatement hother] at h
    cases h
    exact .refused ⟨rfl, by simp⟩

theorem process_failure {statement : Tree} (h : process maxDepth statement scope = .error e after) :
    Failure scope maxDepth statement e := by
  rcases process_eq_error.mp h with ⟨hplan, _⟩ | ⟨planned, hplan, hwrites⟩
  · exact failure_of_plan hplan
  · cases planned_of_plan hplan with
    | fields writes steps targets => exact .refused (forM_apply_refusal steps hwrites)
    | nothing stored => cases hwrites
    | data target keyword args data call computed => exact .host ⟨target, keyword, args, call⟩

end Statement

end FieldScript
