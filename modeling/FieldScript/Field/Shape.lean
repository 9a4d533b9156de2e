import FieldScript.Field

/-! Steps that change no more of a field than its values. Every write to a field is such a step,
and steps made of such steps are again. -/
namespace FieldScript

/-- Two states of one field: only the values may differ. -/
structure Field.SameShape (before after : Field) : Prop where
  name : after.name = before.name
  sentinel : after.sentinel = before.sentinel
  size : after.size = before.size

theorem Field.SameShape.refl (field : Field) : field.SameShape field := ⟨rfl, rfl, rfl⟩

theorem Field.SameShape.trans {a b c : Field} (h : a.SameShape b) (h' : b.SameShape c) :
    a.SameShape c :=
  ⟨h'.name.trans h.name, h'.sentinel.trans h.sentinel, h'.size.trans h.size⟩

namespace Update

variable {α β : Type}

def after {σ : Type} (step : Update σ α) (state : σ) : σ :=
  match step state with
  | .ok _ state => state
  | .error _ state => state

def outcome {σ : Type} (step : Update σ α) (state : σ) : Except EvalError α :=
  match step state with
  | .ok a _ => .ok a
  | .error e _ => .error e

theorem outcome_eq_error {σ : Type} {step : Update σ α} {state : σ} {e : EvalError} :
    step.outcome state = .error e ↔ ∃ after, step state = .error e after := by
  unfold outcome
  cases step state <;> simp

theorem after_of_error {σ : Type} {step : Update σ α} {state middle : σ} {e : EvalError}
    (h : step state = .error e middle) : step.after state = middle := by
  rw [after, h]

def KeepsShape (step : Update Field α) : Prop :=
  ∀ field : Field, field.SameShape (step.after field)

theorem keepsShape_pure (a : α) : KeepsShape (pure a) := Field.SameShape.refl

theorem keepsShape_throw (e : EvalError) : KeepsShape (throw e : Update Field α) :=
  Field.SameShape.refl

theorem keepsShape_ofExcept (result : Except EvalError α) : KeepsShape (ofExcept result) := by
  cases result with
  | ok a => exact keepsShape_pure a
  | error e => exact keepsShape_throw e

theorem KeepsShape.bind {step : Update Field α} {next : α → Update Field β}
    (h : step.KeepsShape) (h' : ∀ a, (next a).KeepsShape) : KeepsShape (step >>= next) := by
  intro field
  have hs := h field
  cases hr : step field with
  | ok a middle =>
    have hn := h' a middle
    have : after (step >>= next) field = (next a).after middle := by
      simp [after, Bind.bind, EStateM.bind, hr]
    rw [this]
    exact Field.SameShape.trans (by simpa [after, hr] using hs) hn
  | error e middle =>
    have : after (step >>= next) field = step.after field := by
      simp [after, Bind.bind, EStateM.bind, hr]
    rw [this]
    exact hs

theorem keepsShape_modify {f : Field → Field} (h : ∀ field : Field, field.SameShape (f field)) :
    KeepsShape (modify f : Update Field Unit) := h

end Update

namespace Field

theorem sameShape_fill (field : Field) (value : Binary64) : field.SameShape (field.fill value) :=
  ⟨rfl, rfl, by simp [fill, size]⟩

theorem keepsShape_put (index : Nat) (value : Binary64) : (put index value).KeepsShape := by
  intro field
  by_cases h : index < field.size
  · have : (put index value).after field =
        { field with values := field.values.setIfInBounds index value } := by
      simp [Update.after, put, h]
    rw [this]
    exact ⟨rfl, rfl, by simp [size]⟩
  · have : (put index value).after field = field := by simp [Update.after, put, h]
    rw [this]
    exact SameShape.refl field

theorem keepsShape_putOption (index : Nat) (value : Option Binary64) :
    (putOption index value).KeepsShape := by
  cases value with
  | none => exact fun field => keepsShape_put index field.sentinel field
  | some value => exact keepsShape_put index value

theorem keepsShape_commitFrom (values : List (Option Binary64)) (index : Nat) :
    (commitFrom index values).KeepsShape := by
  induction values generalizing index with
  | nil => exact Update.keepsShape_pure ()
  | cons value rest ih => exact (keepsShape_putOption index value).bind fun _ => ih (index + 1)

theorem keepsShape_commit (values : List (Option Binary64)) : (commit values).KeepsShape :=
  keepsShape_commitFrom values 0

end Field

end FieldScript
