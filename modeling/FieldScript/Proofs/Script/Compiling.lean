import FieldScript.Proofs.Parse.WellFormed
import FieldScript.Script

/-! Compiling a text. What the parser gives is well-formed, so the engine, which checks again that it
was given statements or a value, has nothing left to refuse: compiling fails only as parsing does. -/
namespace FieldScript

namespace Script

theorem ofStatements_eq_ok {statements : List Tree}
    (h : ∀ tree ∈ statements, tree.isStatement = true) (options : RunOptions) :
    ofStatements statements options = .ok ⟨statements, options⟩ := by
  have hnone : statements.find? (fun tree => !tree.isStatement) = none :=
    List.find?_eq_none.mpr fun tree htree => by simp [h tree htree]
  simp only [ofStatements, hnone]

end Script

namespace Engine

variable {engine : Engine} {parseMaxDepth : Nat} {source : String}

theorem compileWith_eq (engine : Engine) (parseMaxDepth : Nat) (source : String) :
    engine.compileWith parseMaxDepth source =
      match Parse.script source parseMaxDepth with
      | .error e => .error (.ofParse e)
      | .ok statements => .ok ⟨statements, engine.runOptions⟩ := by
  unfold compileWith
  cases hparse : Parse.script source parseMaxDepth with
  | error e => rfl
  | ok statements =>
    exact Script.ofStatements_eq_ok
      (fun tree htree => (Parse.script_wellFormed hparse tree htree).statement) engine.runOptions

theorem compileWith_eq_ok {script : Script} :
    engine.compileWith parseMaxDepth source = .ok script ↔
      Parse.script source parseMaxDepth = .ok script.statements ∧
        script.options = engine.runOptions := by
  rw [compileWith_eq]
  cases Parse.script source parseMaxDepth with
  | error e => simp
  | ok statements =>
    obtain ⟨others, options⟩ := script
    simp [eq_comm]

theorem compileExpression_eq (source : String) :
    compileExpression source =
      match Parse.expression source with
      | .error e => .error (.ofParse e)
      | .ok tree => .ok tree := by
  unfold compileExpression
  cases hparse : Parse.expression source with
  | error e => rfl
  | ok tree =>
    have hvalue := (Parse.expression_wellFormed hparse).value
    simp only [hvalue, Bool.false_eq_true, if_false]

/-- Every tree read from a text is well-formed, at whatever depth the text is cut off: a statement
where a script is read, a value where an expression is. The engine's own checks never fail. -/
theorem compile_wellFormed (source : String) :
    (∀ parseMaxDepth statements, Parse.script source parseMaxDepth = .ok statements →
      ∀ tree ∈ statements, tree.WellFormedStatement) ∧
    (∀ tree, Parse.expression source = .ok tree → tree.WellFormedValue) ∧
    (∀ (engine : Engine) parseMaxDepth message,
      engine.compileWith parseMaxDepth source ≠ .error (.api message)) ∧
    (∀ (engine : Engine) message, engine.compile source ≠ .error (.api message)) ∧
    ∀ message, compileExpression source ≠ .error (.api message) := by
  have hcompile (engine : Engine) (parseMaxDepth : Nat) (message : String) :
      engine.compileWith parseMaxDepth source ≠ .error (.api message) := by
    rw [compileWith_eq]
    cases Parse.script source parseMaxDepth with
    | error e => simp [EngineError.ofParse]
    | ok statements => simp
  refine ⟨fun _ _ => Parse.script_wellFormed, fun _ => Parse.expression_wellFormed, hcompile,
    fun engine => hcompile engine engine.parseMaxDepth, fun message => ?_⟩
  rw [compileExpression_eq]
  cases Parse.expression source with
  | error e => simp [EngineError.ofParse]
  | ok tree => simp

end Engine

end FieldScript
