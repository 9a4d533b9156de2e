import FieldScript.Proofs.Scope.Agreement
import FieldScript.Proofs.Statement.Dependence

/-! Statements that do not read or write what the other one writes. Each gives what it would give
without the other, in the scope before or after it, so their order makes no difference to any name;
only new fields may end up behind other handles. -/
namespace FieldScript

open Outcome

variable {names : List String} {scope after : MemoryScope} {maxDepth : Nat} {statement : Tree}

namespace MemoryScope

theorem AgreeOn.alike {a b : MemoryScope} (agree : AgreeOn names a b) : Host.Alike names a b where
  points := agree.pointCount_eq
  found name hname := by
    have hfield := congrArg Option.isSome (agree.field name hname)
    exact (a.store.isSome_fieldId? name).trans (hfield.trans (b.store.isSome_fieldId? name).symm)
  readings name hname := congrArg (Option.map Field.readings) (agree.field name hname)

theorem Frame.agree {written : List String} (frame : Frame written scope after)
    (wf : scope.WellFormed) (wf' : after.WellFormed) (nonempty : 0 < scope.fields.size)
    (apart : ∀ name ∈ names, name ∉ written) : AgreeOn names scope after where
  left := wf
  right := wf'
  field name hname := (frame.field?_eq wf' (apart name hname)).symm
  model := (frame.model?_eq nonempty).symm

end MemoryScope

namespace Statement

open MemoryScope

theorem respects_apply {write : Write} (hstep : write.step?.isSome = true)
    (htarget : write.target ∈ names) : (Write.apply write).Respects (AgreeOn names) :=
  Write.related_apply hstep (fun _ keeps => respects_updateOutput htarget keeps)
    fun _ _ agree => agree.field write.target htarget

theorem respects_process (noHost : ¬statement.CallsHost)
    (reads : ∀ name ∈ statement.inputs, name ∈ names)
    (writes : ∀ name ∈ statement.outputs, name ∈ names) :
    (process maxDepth statement).Respects (AgreeOn names) := by
  intro a b agree
  have hplan : plan a maxDepth statement = plan b maxDepth statement :=
    plan_congr noHost agree.alike agree.checkOutput_eq reads writes
  have hcommit (planned : Plan) (h : Planned b statement planned) :
      (commit planned).Respects (AgreeOn names) := by
    refine Update.Respects.bind (Update.respects_forM ?_) fun _ => Update.respects_pure _
    cases h with
    | fields planned steps targets =>
      intro write hwrite
      exact respects_apply (steps write hwrite)
        (writes _ (targets ▸ List.mem_map_of_mem hwrite))
    | nothing => exact fun _ hwrite => absurd hwrite List.not_mem_nil
    | data target keyword args data call => exact absurd ⟨target, keyword, args, call⟩ noHost
  simp only [Update.outcome, Update.after, process, hplan]
  cases hb : plan b maxDepth statement with
  | error e => exact ⟨rfl, agree⟩
  | ok planned => exact hcommit planned (planned_of_plan hb) a b agree

theorem exists_output {planned : Plan} (h : plan scope maxDepth statement = .ok planned) :
    ∃ name, name ∈ statement.outputs := by
  rcases statement.form with ⟨target, value, rfl⟩ | ⟨test, first, other, rfl⟩ | hother
  · exact ⟨target.targetName, by simp [outputs_assign]⟩
  · exact ⟨first.1.targetName, mem_outputs_conditional List.mem_cons_self⟩
  · rw [plan_of_not_isStatement hother] at h
    cases h

theorem nonempty_of_process {outputs : List String}
    (h : process maxDepth statement scope = .ok (.fields outputs) after) :
    0 < scope.fields.size := by
  obtain ⟨planned, hplan, hwrites, hproduced⟩ := process_eq_ok.mp h
  obtain ⟨name, hname⟩ := exists_output hplan
  cases planned_of_plan hplan with
  | fields writes steps targets =>
    rw [← targets] at hname
    obtain ⟨write, hwrite, rfl⟩ := List.mem_map.mp hname
    cases writes with
    | nil => cases hwrite
    | cons first rest =>
      obtain ⟨middle, hfirst, _⟩ := forM_cons_apply.mp hwrites
      obtain ⟨step, hstep⟩ := Option.isSome_iff_exists.mp (steps first List.mem_cons_self)
      obtain ⟨old, _, hold, _⟩ := apply_eq_ok hstep hfirst
      exact fields_nonempty_of_target hold
  | nothing stored => exact fields_nonempty_of_fieldId? (stored name hname)
  | data => cases hproduced

theorem eq_of_process_error (wf : scope.WellFormed) {e : EvalError}
    (failed : process maxDepth statement scope = .error e after) : after = scope := by
  rcases process_eq_error.mp failed with ⟨_, rfl⟩ | ⟨planned, hplan, hwrites⟩
  · rfl
  · have hcommit : commit planned scope = .error e after := by
      simp only [commit, bind, EStateM.bind, hwrites]
    exact commit_error wf (plan_writes wf hplan) hcommit

theorem agree_after (wf : scope.WellFormed) (maxDepth : Nat)
    (apart : ∀ name ∈ names, name ∉ statement.outputs) :
    AgreeOn names scope ((process maxDepth statement).after scope) := by
  cases hprocess : process maxDepth statement scope with
  | error e after =>
    rw [Update.after_of_error hprocess, eq_of_process_error wf hprocess]
    exact AgreeOn.refl wf names
  | ok produced after =>
    have hafter : (process maxDepth statement).after scope = after := by
      simp [Update.after, hprocess]
    have wf' := wellFormed_of_process wf hprocess
    rw [hafter]
    cases effect_of_process wf hprocess with
    | fields frame => exact frame.agree wf wf' (nonempty_of_process hprocess) apart
    | data => exact ⟨wf, wf', fun _ _ => rfl, rfl⟩

theorem process_unaffected (wf : scope.WellFormed) (maxDepth : Nat) {first second : Tree}
    (noHost : ¬first.CallsHost)
    (apart : ∀ name ∈ second.outputs, name ∉ first.inputs ∧ name ∉ first.outputs) :
    (process maxDepth first).outcome ((process maxDepth second).after scope) =
        (process maxDepth first).outcome scope ∧
      ∀ name, name ∉ second.outputs →
        Host.named? ((process maxDepth first).after ((process maxDepth second).after scope)) name =
          Host.named? ((process maxDepth first).after scope) name := by
  have hagree (more : List String) (hmore : ∀ name ∈ more, name ∉ second.outputs) :
      AgreeOn (more ++ (first.inputs ++ first.outputs)) scope
        ((process maxDepth second).after scope) :=
    agree_after wf maxDepth (by grind)
  have hrespects (more : List String) :
      (process maxDepth first).Respects (AgreeOn (more ++ (first.inputs ++ first.outputs))) :=
    respects_process noHost (by simp_all) (by simp_all)
  constructor
  · exact (hrespects [] _ _ (hagree [] (by simp))).1.symm
  · intro name hname
    have hboth := hrespects [name] _ _ (hagree [name] (by simpa using hname))
    exact (hboth.2.field name List.mem_cons_self).symm

/-- Two statements without host functions, neither of which reads what the other writes, and which
write different names, have the same outcomes in either order, and every name is then the same field
or no field. -/
theorem process_comm (reachable : scope.Reachable) (maxDepth : Nat) {first second : Tree}
    (noHost : ¬first.CallsHost) (noHost' : ¬second.CallsHost)
    (apart : ∀ name ∈ first.outputs, name ∉ second.inputs ∧ name ∉ second.outputs)
    (apart' : ∀ name ∈ second.outputs, name ∉ first.inputs) :
    let afterFirst := (process maxDepth first).after scope
    let afterSecond := (process maxDepth second).after scope
    (process maxDepth first).outcome afterSecond = (process maxDepth first).outcome scope ∧
    (process maxDepth second).outcome afterFirst = (process maxDepth second).outcome scope ∧
    ∀ name, Host.named? ((process maxDepth second).after afterFirst) name =
      Host.named? ((process maxDepth first).after afterSecond) name := by
  intro afterFirst afterSecond
  have wf := reachable.wellFormed
  obtain ⟨outcome, fields⟩ := process_unaffected wf maxDepth noHost
    fun name hname => ⟨apart' name hname, fun hother => (apart name hother).2 hname⟩
  obtain ⟨outcome', fields'⟩ := process_unaffected wf maxDepth noHost' apart
  have untouched {before : MemoryScope} (wf : before.WellFormed) {statement : Tree} {name : String}
      (h : name ∉ statement.outputs) :
      Host.named? ((process maxDepth statement).after before) name = Host.named? before name := by
    have hagree : AgreeOn [name] before ((process maxDepth statement).after before) :=
      agree_after wf maxDepth (by simpa using h)
    exact (hagree.field name List.mem_cons_self).symm
  refine ⟨outcome, outcome', fun name => ?_⟩
  by_cases hsecond : name ∈ second.outputs
  · have hfirst : name ∉ first.outputs := fun hfirst => (apart name hfirst).2 hsecond
    exact (fields' name hfirst).trans
      (untouched (wf.process maxDepth second) hfirst).symm
  · exact (untouched (wf.process maxDepth first) hsecond).trans (fields name hsecond).symm

def keepFromOne : Tree :=
  .guarded ⟨⟨.variable "A", .ge, .number "1" 1⟩, []⟩ (.variable "X") (.leaf (.variable "A"))

def copyOfB : Tree := .assign (.variable "Y") (.leaf (.variable "B"))

/-- Both statements make a field, so its handle depends on the order. -/
theorem keepFromOne_comm :
    (rearrangedA.Reachable ∧ ¬keepFromOne.CallsHost ∧ ¬copyOfB.CallsHost ∧
      (∀ name ∈ keepFromOne.outputs, name ∉ copyOfB.inputs ∧ name ∉ copyOfB.outputs) ∧
      ∀ name ∈ copyOfB.outputs, name ∉ keepFromOne.inputs) ∧
    Host.fieldId? ((process 1 copyOfB).after ((process 1 keepFromOne).after rearrangedA)) "X" =
      some 2 ∧
    Host.fieldId? ((process 1 keepFromOne).after ((process 1 copyOfB).after rearrangedA)) "X" =
      some 3 ∧
    (process 1 keepFromOne).outcome ((process 1 copyOfB).after rearrangedA) =
      .ok (.fields ["X"]) ∧
    Host.named? ((process 1 copyOfB).after ((process 1 keepFromOne).after rearrangedA)) "X" =
      Host.named? ((process 1 keepFromOne).after ((process 1 copyOfB).after rearrangedA)) "X" := by
  have noHost : ¬keepFromOne.CallsHost := by rintro ⟨_, _, _, ⟨⟩⟩
  have noHost' : ¬copyOfB.CallsHost := by rintro ⟨_, _, _, ⟨⟩⟩
  have apart : ∀ name ∈ keepFromOne.outputs, name ∉ copyOfB.inputs ∧ name ∉ copyOfB.outputs := by
    decide
  have apart' : ∀ name ∈ copyOfB.outputs, name ∉ keepFromOne.inputs := by decide
  have alone : (process 1 keepFromOne).outcome rearrangedA = .ok (.fields ["X"]) := by
    with_unfolding_all rfl
  obtain ⟨outcome, _, fields⟩ := process_comm reachable_rearrangedA 1 noHost noHost' apart apart'
  exact ⟨⟨reachable_rearrangedA, noHost, noHost', apart, apart'⟩, by with_unfolding_all rfl,
    by with_unfolding_all rfl, outcome.trans alone, fields "X"⟩

end Statement

end FieldScript
