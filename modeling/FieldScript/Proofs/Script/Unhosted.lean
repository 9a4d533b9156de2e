import FieldScript.Proofs.Script.Depth
import FieldScript.Proofs.Script.Survivors

/-! Runs in a scope that no host function is registered for. A statement registers none, and a call of
one is refused, so a run that goes on after errors and whose calls are nested less deep than its limit
reaches its end. -/
namespace FieldScript

open Statement

variable {scope after : MemoryScope} {maxDepth : Nat} {statement : Tree} {e : EvalError}

namespace Statement

theorem registry_process (wf : scope.WellFormed) (maxDepth : Nat) (statement : Tree) :
    (Update.after (process maxDepth statement) scope).registry = scope.registry := by
  cases h : process maxDepth statement scope with
  | ok produced after =>
    simp only [Update.after, h]
    cases effect_of_process wf h with
    | fields frame _ => exact frame.registry
    | data => rfl
  | error e after => rw [Update.after_of_error h, eq_of_process_error wf h]

end Statement

namespace MemoryScope

structure Unhosted (scope : MemoryScope) : Prop where
  wellFormed : scope.WellFormed
  registry : scope.registry = .empty

namespace Unhosted

theorem addField (h : scope.Unhosted) {field : Field} {id : Nat}
    (added : scope.addField field = .ok (id, after)) : after.Unhosted := by
  obtain ⟨_, _, hinstall⟩ := addField_eq_ok added
  have hregistry : after.registry = scope.registry :=
    congrArg (fun grown => grown.2.registry) hinstall.symm
  exact ⟨h.wellFormed.addField added, hregistry.trans h.registry⟩

theorem process (h : scope.Unhosted) (maxDepth : Nat) (statement : Tree) :
    (Update.after (process maxDepth statement) scope).Unhosted :=
  ⟨h.wellFormed.process maxDepth statement,
    (registry_process h.wellFormed maxDepth statement).trans h.registry⟩

theorem noFunction (h : scope.Unhosted) (keyword : String) : Host.NoFunction scope keyword := by
  have hfill (args : List Tree) : scope.registry.fillField scope.store keyword args =
      throw (.unknownFunction keyword) := by
    rw [h.registry]
    rfl
  have hdata (args : List Tree) : scope.registry.computeData scope.store keyword args =
      .error (.unknownFunction keyword) := by
    rw [h.registry]
    rfl
  exact ⟨hfill, hdata⟩

theorem enough (h : scope.Unhosted) (shallow : statement.callDepth < maxDepth)
    (failed : Statement.process maxDepth statement scope = .error e after) :
    e.isResourceExceeded = false := by
  by_contra hexceeded
  have exceeded : e.isResourceExceeded = true := by simpa using hexceeded
  obtain ⟨target, keyword, args, rfl⟩ := Script.callsHost_of_overflow shallow failed exceeded
  obtain ⟨cause, hrefusal, hplan⟩ :=
    planUserCall_refused (h.noFunction keyword) target.targetName args
  have hfailed : Statement.process maxDepth (.assign target (.call (.user keyword) args)) scope =
      .error cause scope := process_eq_error.mpr (.inl ⟨hplan, rfl⟩)
  rw [hfailed] at failed
  cases failed
  exact hexceeded hrefusal.1

end Unhosted

end MemoryScope

namespace Script

variable {options : RunOptions} {trees : List Tree} {report : Report}

theorem stops_entryOf_eq_false (unhosted : scope.Unhosted) (goesOn : options.stopOnError = false)
    (shallow : statement.callDepth < options.maxDepth) :
    (entryOf options statement scope).stops options = false := by
  refine Entry.stops_eq_false goesOn fun e failed => ?_
  obtain ⟨after, hprocess⟩ := Update.outcome_eq_error.mp failed
  exact unhosted.enough shallow hprocess

theorem Runs.goes_of_unhosted (h : Runs options trees scope report after)
    (unhosted : scope.Unhosted) (goesOn : options.stopOnError = false)
    (shallow : ∀ tree ∈ trees, tree.callDepth < options.maxDepth) :
    (∀ entry ∈ report.entries, entry.stops options = false) ∧ after.Unhosted := by
  induction h with
  | done scope => exact ⟨by simp, unhosted⟩
  | stopped statement _ scope stops =>
    rw [stops_entryOf_eq_false unhosted goesOn (shallow statement List.mem_cons_self)] at stops
    cases stops
  | next statement scope goes _ ih =>
    obtain ⟨others, unhosted'⟩ := ih (unhosted.process options.maxDepth statement)
      fun tree htree => shallow tree (List.mem_cons_of_mem statement htree)
    exact ⟨List.forall_mem_cons.mpr ⟨goes, others⟩, unhosted'⟩

end Script

end FieldScript
