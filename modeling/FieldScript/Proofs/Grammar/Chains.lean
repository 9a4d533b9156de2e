import FieldScript.Proofs.Grammar.Operands
import FieldScript.Proofs.Tree.Text

/-! Chains of operands, read as they are printed. Behind a value the text is over, or there stands a
separator, a closing parenthesis or the other branch of a statement: no chain goes on there. -/
namespace FieldScript.Grammar

open FieldScript.Parser FieldScript.Source FieldScript.Tree

variable {rest : List Char}

theorem apart_blank (more : List Char) : Apart (' ' :: more) := ⟨by decide, by decide⟩

section Steps

variable {α β : Type} {op : Parser α} {symbol : α → String} {part : Parser (Checked β)}
  {text : β → String} {p : β → Prop}

structure ReadsSymbols (op : Parser α) (symbol : α → String) : Prop where
  solid : ∀ a more, Solid ((symbol a).toList ++ more)
  parse : ∀ a more, op.parse ((symbol a).toList ++ ' ' :: more) = some (a, ' ' :: more)

structure ReadsParts (part : Parser (Checked β)) (text : β → String) (p : β → Prop) : Prop where
  solid : ∀ b, p b → ∀ more, Solid ((text b).toList ++ more)
  parse : ∀ b, p b → ∀ more, Apart more →
    part.parse ((text b).toList ++ more) = some (.ok b, more)

def step (op : Parser α) (part : Parser (Checked β)) : Parser (α × Checked β) := do
  skip
  let op ← op
  skip
  let part ← part
  return (op, part)

theorem ReadsSymbols.unblanked (h : ReadsSymbols op symbol) (a : α) (more : List Char) :
    unblanked (' ' :: ((symbol a).toList ++ more)) = (symbol a).toList ++ more := by
  rw [unblanked_blank, (h.solid a more).unblanked]

theorem unblanked_stepForm (hop : ReadsSymbols op symbol) (joined : α × β) (more : List Char) :
    unblanked (stepForm symbol text joined ++ more) =
      (symbol joined.1).toList ++ ' ' :: ((text joined.2).toList ++ more) := by
  rw [stepForm, List.cons_append, List.append_assoc, hop.unblanked, List.cons_append]

theorem parse_step (hop : ReadsSymbols op symbol) (hpart : ReadsParts part text p) {joined : α × β}
    (h : p joined.2) (hrest : Apart rest) :
    (step op part).parse (stepForm symbol text joined ++ rest) =
      some ((joined.1, .ok joined.2), rest) := by
  unfold step
  rw [parse_bind_some (parse_skip _), unblanked_stepForm hop,
    parse_bind_some (hop.parse joined.1 _),
    parse_bind_some (parse_skip_blank (hpart.solid joined.2 h rest)),
    parse_bind_some (hpart.parse joined.2 h rest hrest), parse_pure]

theorem apart_steps (steps : List (α × β)) (hrest : Apart rest) :
    Apart (steps.flatMap (stepForm symbol text) ++ rest) :=
  follows_row hrest fun _ _ _ => apart_blank _

theorem parse_steps (hop : ReadsSymbols op symbol) (hpart : ReadsParts part text p)
    {steps : List (α × β)} (h : ∀ joined ∈ steps, p joined.2)
    (hend : (step op part).parse rest = none) (hrest : Apart rest) :
    (step op part).many.parse (steps.flatMap (stepForm symbol text) ++ rest) =
      some (steps.map fun joined => (joined.1, .ok joined.2), rest) :=
  parse_many_row hend hrest (fun _ _ => List.cons_ne_nil _ _) (fun _ _ _ => apart_blank _)
    fun joined hjoined _ hmore => parse_step hop hpart (h joined hjoined) hmore

theorem chain_ok (steps : List (α × β)) :
    chain (steps.map fun joined => (joined.1, .ok joined.2)) = .ok steps := by
  induction steps with
  | nil => rfl
  | cons joined steps ih => simp only [List.map_cons, chain, ih]; rfl

end Steps

theorem readsSymbols_arithOp : ReadsSymbols arithOp ArithOp.symbol where
  solid a more := by cases a <;> exact ⟨by decide, by decide⟩
  parse a more := by cases a <;> rfl

theorem readsSymbols_boolOp : ReadsSymbols boolOp BoolOp.symbol where
  solid a more := by cases a <;> exact ⟨by decide, by decide⟩
  parse a more := by cases a <;> rfl

theorem readsSymbols_comparison : ReadsSymbols comparison Comparison.symbol where
  solid a more := by cases a <;> exact ⟨by decide, by decide⟩
  parse a more := by cases a <;> rfl

theorem readsParts_operand : ReadsParts operand Leaf.text Leaf.WellFormed where
  solid _ h _ := solid_leaf h
  parse _ h _ hrest := parse_operand h hrest

theorem readsParts_test : ReadsParts test Test.text Test.WellFormed where
  solid t h more := by
    rw [toList_test, List.append_assoc]
    exact solid_leaf h.1
  parse t h more hmore := by
    rw [toList_test, List.append_assoc, List.cons_append, List.append_assoc, List.cons_append]
    unfold test
    rw [parse_named, parse_bind_some (parse_operand h.1 (apart_blank _)),
      parse_bind_some (parse_skip _), readsSymbols_comparison.unblanked,
      parse_bind_some (readsSymbols_comparison.parse t.comparison _),
      parse_bind_some (parse_skip_blank (solid_leaf h.2)),
      parse_bind_some (parse_operand h.2 hmore), parse_pure]
    rfl

abbrev arithStep : Parser (ArithOp × Checked Leaf) := step arithOp operand

abbrev testStep : Parser (BoolOp × Checked Test) := step boolOp test

/-- What stands behind a printed value. -/
inductive Closing : List Char → Prop
  | ended : Closing []
  | separator (cs : List Char) : Closing (';' :: cs)
  | comma (cs : List Char) : Closing (',' :: cs)
  | parenthesis (cs : List Char) : Closing (')' :: cs)
  | branch (cs : List Char) : Closing (" else ".toList ++ cs)

theorem Closing.apart (h : Closing rest) : Apart rest := by
  cases h with
  | ended => exact trivial
  | _ => exact ⟨by decide, by decide⟩

theorem Closing.arithStep (h : Closing rest) : arithStep.parse rest = none := by
  cases h <;> rfl

theorem Closing.testStep (h : Closing rest) : testStep.parse rest = none := by
  cases h <;> rfl

theorem arith_eq : arith = named .arith (do
    let first ← operand
    let rest ← oneOrMore arithStep
    return do
      let first ← first
      let rest ← chain rest
      pure (.arith ⟨first, rest⟩)) := rfl

theorem tests_eq : tests = named .tests (do
    let first ← test
    let rest ← many testStep
    return do
      let first ← first
      let rest ← chain rest
      pure ⟨first, rest⟩) := rfl

theorem parse_arithSteps {steps : List (ArithOp × Leaf)} (hne : steps ≠ [])
    (h : ∀ joined ∈ steps, joined.2.WellFormed) (hrest : Closing rest) :
    arithStep.oneOrMore.parse (steps.flatMap arithForm ++ rest) =
      some (steps.map fun joined => (joined.1, .ok joined.2), rest) := by
  cases steps with
  | nil => exact absurd rfl hne
  | cons joined steps =>
    obtain ⟨hjoined, hsteps⟩ := List.forall_mem_cons.mp h
    have hmore : Apart (steps.flatMap arithForm ++ rest) := apart_steps steps hrest.apart
    have hfirst := parse_step readsSymbols_arithOp readsParts_operand hjoined hmore
    have hothers := parse_steps readsSymbols_arithOp readsParts_operand hsteps hrest.arithStep
      hrest.apart
    rw [List.flatMap_cons, List.append_assoc]
    exact parse_oneOrMore hfirst hothers

theorem parse_arith {chain : ArithChain} (h : chain.WellFormed) (hrest : Closing rest) :
    arith.parse ((Tree.text (.arith chain)).toList ++ rest) = some (.ok (.arith chain), rest) := by
  obtain ⟨hfirst, hne, hparts⟩ := h
  rw [toList_arith, List.append_assoc, arith_eq, parse_named,
    parse_bind_some (parse_operand hfirst (apart_steps chain.rest hrest.apart)),
    parse_bind_some (parse_arithSteps hne hparts hrest), parse_pure, chain_ok]
  rfl

theorem parse_tests {chain : TestChain} (h : chain.WellFormed) (hrest : Closing rest) :
    tests.parse (chain.text.toList ++ rest) = some (.ok chain, rest) := by
  have hsteps := parse_steps readsSymbols_boolOp readsParts_test h.2 hrest.testStep hrest.apart
  rw [toList_testChain, List.append_assoc, tests_eq, parse_named,
    parse_bind_some (readsParts_test.parse _ h.1 _ (apart_steps chain.rest hrest.apart)),
    parse_bind_some hsteps, parse_pure, chain_ok]
  rfl

end FieldScript.Grammar
