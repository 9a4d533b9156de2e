import FieldScript.Field.Shape
import FieldScript.Host

/-! Steps from related states. Two steps are related if from related states they give the same answer
and leave related states, whether they succeed or fail; what is made of related steps is related. -/
namespace FieldScript

namespace Host

variable {σ : Type} [Host σ]

theorem outcome_updateField (id : Nat) (step : Update Field Unit) (missing : EvalError) (scope : σ) :
    (updateField id step missing).outcome scope =
      match field? scope id with
      | none => .error missing
      | some field => step.outcome field := by
  unfold Update.outcome updateField
  cases field? scope id with
  | none => rfl
  | some field => cases hstep : step field <;> simp only [hstep]

theorem after_updateField (id : Nat) (step : Update Field Unit) (missing : EvalError) (scope : σ) :
    (updateField id step missing).after scope =
      match field? scope id with
      | none => scope
      | some field => putField id (step.after field) scope := by
  unfold Update.after updateField
  cases field? scope id with
  | none => rfl
  | some field => cases hstep : step field <;> simp only [hstep]

end Host

namespace Update

variable {σ τ α β : Type} {R : σ → τ → Prop}

theorem outcome_bind (step : Update σ α) (next : α → Update σ β) (state : σ) :
    (step >>= next).outcome state =
      step.outcome state >>= fun x => (next x).outcome (step.after state) := by
  simp only [outcome, after, Bind.bind, EStateM.bind]
  cases step state <;> rfl

theorem after_bind (step : Update σ α) (next : α → Update σ β) (state : σ) :
    (step >>= next).after state =
      match step.outcome state with
      | .ok x => (next x).after (step.after state)
      | .error _ => step.after state := by
  simp only [outcome, after, Bind.bind, EStateM.bind]
  cases step state <;> rfl

def Related (R : σ → τ → Prop) (step : Update σ α) (step' : Update τ α) : Prop :=
  ∀ a b, R a b → step.outcome a = step'.outcome b ∧ R (step.after a) (step'.after b)

theorem related_pure (x : α) : Related R (pure x) (pure x) :=
  fun _ _ h => ⟨rfl, h⟩

theorem Related.bind {step : Update σ α} {step' : Update τ α} {next : α → Update σ β}
    {next' : α → Update τ β} (h : Related R step step') (h' : ∀ x, Related R (next x) (next' x)) :
    Related R (step >>= next) (step' >>= next') := by
  intro a b hab
  obtain ⟨houtcome, hafter⟩ := h a b hab
  rw [outcome_bind, outcome_bind, after_bind, after_bind, houtcome]
  cases step'.outcome b with
  | ok x => exact h' x _ _ hafter
  | error e => exact ⟨rfl, hafter⟩

theorem related_forM_map {items : List α} {change : α → β} {step : α → Update σ Unit}
    {step' : β → Update τ Unit}
    (h : ∀ item ∈ items, Related R (step item) (step' (change item))) :
    Related R (items.forM step) ((items.map change).forM step') := by
  induction items with
  | nil => exact related_pure ()
  | cons item rest ih =>
    obtain ⟨hitem, hrest⟩ := List.forall_mem_cons.mp h
    exact hitem.bind fun _ => ih hrest

theorem related_forM {items : List α} {step : α → Update σ Unit} {step' : α → Update τ Unit}
    (h : ∀ item ∈ items, Related R (step item) (step' item)) :
    Related R (items.forM step) (items.forM step') := by
  have hmap : Related R (items.forM step) ((items.map id).forM step') := related_forM_map h
  rwa [List.map_id] at hmap

/-- From related states the step gives one answer, and it leaves related states. -/
def Respects (R : σ → σ → Prop) (step : Update σ α) : Prop := Related R step step

section Respects

variable {R : σ → σ → Prop}

theorem respects_pure (x : α) : Respects R (pure x : Update σ α) := related_pure x

theorem Respects.bind {step : Update σ α} {next : α → Update σ β} (h : step.Respects R)
    (h' : ∀ x, (next x).Respects R) : Respects R (step >>= next) :=
  Related.bind h h'

theorem respects_forM {items : List α} {step : α → Update σ Unit}
    (h : ∀ item ∈ items, (step item).Respects R) : Respects R (items.forM step) :=
  related_forM h

end Respects

end Update

end FieldScript
