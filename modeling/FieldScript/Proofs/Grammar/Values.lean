import FieldScript.Proofs.Grammar.Chains

/-! Values, read as they are printed. The alternatives before the right one must fail: a call for
want of a parenthesis, tests for want of a comparison, an arithmetic chain for want of an operator.
A call is read within as many levels as its text has parentheses. -/
namespace FieldScript.Grammar

open FieldScript.Parser FieldScript.Source FieldScript.Tree

variable {rest : List Char} {inner : Parser (Checked Tree)}

theorem nameText_number {label : String} (h : IsNumber label) :
    nameText.parse (label.toList ++ rest) = none := by
  have hread : (named .name (lexeme name?)).parse (label.toList ++ rest) = none := name?_number h
  exact parse_bind_none hread

theorem nameText_missing (hrest : Apart rest) :
    nameText.parse ("missing".toList ++ rest) = none := by
  have hread : (named .name (lexeme name?)).parse ("missing".toList ++ rest) = none := by
    change name? _ = none
    rw [name?, splitWord_append hrest]
    rfl
  exact parse_bind_none hread

theorem call_none {leaf : Leaf} (h : leaf.WellFormed) (hrest : Apart rest)
    (hopen : (symbol "(").parse (unblanked rest) = none) :
    (call inner).parse (leaf.text.toList ++ rest) = none := by
  refine parse_bind_none (parse_located_none ?_)
  rw [parse_named]
  rcases leaf with name | ⟨label, value⟩ | _
  · rw [Leaf.text, parse_bind_some (parse_nameText h hrest), parse_bind_some (parse_skip rest)]
    exact parse_bind_none hopen
  · exact parse_bind_none (nameText_number h.1)
  · exact parse_bind_none (nameText_missing hrest)

theorem testsValue_none {leaf : Leaf} (h : leaf.WellFormed) (hrest : Apart rest)
    (hcomparison : comparison.parse (unblanked rest) = none) :
    testsValue.parse (leaf.text.toList ++ rest) = none := by
  have htest : test.parse (leaf.text.toList ++ rest) = none := by
    unfold test
    rw [parse_named, parse_bind_some (parse_operand h hrest), parse_bind_some (parse_skip rest)]
    exact parse_bind_none hcomparison
  have htests : tests.parse (leaf.text.toList ++ rest) = none := parse_bind_none htest
  exact parse_bind_none htests

theorem arith_none {leaf : Leaf} (h : leaf.WellFormed) (hrest : Apart rest)
    (hstep : arithStep.parse rest = none) : arith.parse (leaf.text.toList ++ rest) = none := by
  rw [arith_eq, parse_named, parse_bind_some (parse_operand h hrest)]
  exact parse_bind_none (parse_oneOrMore_none hstep)

theorem Closing.opening (h : Closing rest) : (symbol "(").parse (unblanked rest) = none := by
  cases h <;> rfl

theorem Closing.comparison (h : Closing rest) : comparison.parse (unblanked rest) = none := by
  cases h <;> rfl

/-- A parser that gives a tree back from its text, whatever closes it. -/
def ReadsBack (p : Parser (Checked Tree)) (tree : Tree) : Prop :=
  ∀ rest, Closing rest → p.parse (tree.text.toList ++ rest) = some (.ok tree, rest)

theorem readsBack_leaf {leaf : Leaf} (h : leaf.WellFormed) :
    ReadsBack (valueOver inner) (.leaf leaf) := by
  intro rest hrest
  rw [text_leaf, valueOver, parse_orElse_none (call_none h hrest.apart hrest.opening),
    parse_orElse_none (testsValue_none h hrest.apart hrest.comparison),
    parse_orElse_none (arith_none h hrest.apart hrest.arithStep)]
  exact parse_bind_some (parse_operand h hrest.apart)

theorem arithForm_opening (step : ArithOp × Leaf) (more : List Char) :
    (symbol "(").parse (unblanked (arithForm step ++ more)) = none := by
  rw [unblanked_stepForm readsSymbols_arithOp]
  cases step.1 <;> rfl

theorem arithForm_comparison (step : ArithOp × Leaf) (more : List Char) :
    comparison.parse (unblanked (arithForm step ++ more)) = none := by
  rw [unblanked_stepForm readsSymbols_arithOp]
  cases step.1 <;> rfl

theorem arith_second {chain : ArithChain} (h : chain.rest ≠ []) (rest : List Char) :
    ∃ step more, (Tree.text (.arith chain)).toList ++ rest =
      chain.first.text.toList ++ (arithForm step ++ more) := by
  obtain ⟨first, steps⟩ := chain
  cases steps with
  | nil => exact absurd rfl h
  | cons step steps =>
    refine ⟨step, steps.flatMap arithForm ++ rest, ?_⟩
    rw [toList_arith, List.flatMap_cons, List.append_assoc, List.append_assoc]

theorem readsBack_arith {chain : ArithChain} (h : chain.WellFormed) :
    ReadsBack (valueOver inner) (.arith chain) := by
  intro rest hrest
  obtain ⟨step, more, hform⟩ := arith_second h.2.1 rest
  rw [valueOver, parse_orElse_none ?_, parse_orElse_none ?_,
    parse_orElse_some (parse_arith h hrest)]
  · rw [hform]
    exact testsValue_none h.1 (apart_blank _) (arithForm_comparison step more)
  · rw [hform]
    exact call_none h.1 (apart_blank _) (arithForm_opening step more)

theorem comparison_opening (op : Comparison) (more : List Char) :
    (symbol "(").parse (unblanked (' ' :: (op.symbol.toList ++ ' ' :: more))) = none := by
  rw [readsSymbols_comparison.unblanked]
  cases op <;> rfl

theorem readsBack_tests {chain : TestChain} (h : chain.WellFormed) :
    ReadsBack (valueOver inner) (.tests chain) := by
  intro rest hrest
  have hread : testsValue.parse (chain.text.toList ++ rest) = some (.ok (.tests chain), rest) :=
    parse_bind_some (parse_tests h hrest)
  have hform : chain.text.toList ++ rest = chain.first.left.text.toList ++
      ' ' :: (chain.first.comparison.symbol.toList ++ ' ' :: (chain.first.right.text.toList ++
        (chain.rest.flatMap testForm ++ rest))) := by
    simp only [toList_testChain, toList_test, List.append_assoc, List.cons_append]
  rw [text_tests, valueOver, parse_orElse_none ?_, parse_orElse_some hread]
  rw [hform]
  exact call_none h.1.1 (apart_blank _) (comparison_opening _ _)

theorem keyword_isName (op : Builtin) : IsName op.keyword := by
  cases op <;> rfl

theorem ofKeyword?_keyword (op : Builtin) : Builtin.ofKeyword? op.keyword = some op := by
  cases op <;> rfl

theorem buildCall_ok {callee : Callee} {args : List Tree} (hcallee : callee.WellFormed)
    (h : Tree.CallChecked (.call callee args)) :
    Tree.buildCall callee.keyword args = .ok (.call callee args) := by
  cases callee with
  | builtin op =>
    have hchecked : op.checkArgs args = .ok () := h
    simp only [Tree.buildCall, Callee.keyword, ofKeyword?_keyword, Tree.buildBuiltin, hchecked]
    rfl
  | user keyword => simp only [Tree.buildCall, Callee.keyword, hcallee.2]

theorem mapM_ok (trees : List Tree) :
    (trees.map fun tree => (.ok tree : Checked Tree)).mapM id = .ok trees := by
  induction trees with
  | nil => rfl
  | cons tree trees ih =>
    rw [List.map_cons, List.mapM_cons, ih]
    rfl

def argStep (inner : Parser (Checked Tree)) : Parser (Checked Tree) := do
  skip
  symbol ","
  skip
  inner

theorem arguments_eq : arguments inner = (do
    let first ← inner
    let rest ← many (argStep inner)
    return first :: rest) := rfl

def callParts (inner : Parser (Checked Tree)) : Parser (String × List (Checked Tree)) := do
  let keyword ← nameText
  skip
  symbol "("
  skip
  let args ← optional (arguments inner)
  skip
  symbol ")"
  return (keyword, args.getD [])

theorem call_eq : call inner = (do
    let ((keyword, args), extent) ← located (named .call (callParts inner))
    return buildCall keyword args extent) := rfl

theorem Callee.isName {callee : Callee} (h : callee.WellFormed) : IsName callee.keyword := by
  cases callee with
  | builtin op => exact keyword_isName op
  | user keyword => exact h.1

theorem solid_value {tree : Tree} (h : tree.WellFormedValue) :
    Solid (tree.text.toList ++ rest) := by
  obtain ⟨hvalue, hnodes⟩ := h
  cases tree with
  | leaf content => exact solid_leaf hnodes
  | call callee args =>
    rw [toList_call, List.append_assoc]
    exact solid_name (Callee.isName (Tree.every_call.mp hnodes).1.1)
  | arith chain =>
    rw [toList_arith, List.append_assoc]
    exact solid_leaf hnodes.1
  | tests chain =>
    rw [text_tests, toList_testChain, List.append_assoc]
    exact readsParts_test.solid _ hnodes.1 _
  | _ => cases hvalue

theorem parse_argStep {arg : Tree} (h : ReadsBack inner arg) (hvalue : arg.WellFormedValue)
    (hrest : Closing rest) :
    (argStep inner).parse (argForm arg ++ rest) = some (.ok arg, rest) := by
  have hsolid : Solid (argForm arg ++ rest) := ⟨by decide, by decide⟩
  have hcomma : (symbol ",").parse (argForm arg ++ rest) =
      some ((), ' ' :: (arg.text.toList ++ rest)) := rfl
  unfold argStep
  rw [parse_bind_some (parse_skip_solid hsolid), parse_bind_some hcomma,
    parse_bind_some (parse_skip_blank (solid_value hvalue))]
  exact h rest hrest

theorem parse_arguments {arg : Tree} {args : List Tree}
    (h : ∀ a ∈ arg :: args, ReadsBack inner a ∧ a.WellFormedValue) (rest : List Char) :
    (arguments inner).parse ((Tree.argsText (arg :: args)).toList ++ ')' :: rest) =
      some ((arg :: args).map fun a => .ok a, ')' :: rest) := by
  obtain ⟨harg, hargs⟩ := List.forall_mem_cons.mp h
  have hclosing : Closing (')' :: rest) := .parenthesis rest
  have hmore : Closing (args.flatMap argForm ++ ')' :: rest) :=
    follows_row hclosing fun a _ _ => Closing.comma _
  have hothers : (argStep inner).many.parse (args.flatMap argForm ++ ')' :: rest) =
      some (args.map fun a => .ok a, ')' :: rest) :=
    parse_many_row rfl hclosing (fun _ _ => List.cons_ne_nil _ _) (fun _ _ _ => Closing.comma _)
      fun a ha _ hmore => parse_argStep (hargs a ha).1 (hargs a ha).2 hmore
  rw [toList_args, List.append_assoc, arguments_eq, parse_bind_some (harg.1 _ hmore),
    parse_bind_some hothers, parse_pure, List.map_cons]

theorem value_none (levels : Nat) (cs : List Char) : (value levels).parse (')' :: cs) = none := by
  cases levels <;> rfl

theorem parse_optionalArguments {args : List Tree} (levels : Nat)
    (h : ∀ a ∈ args, ReadsBack (value levels) a ∧ a.WellFormedValue) (rest : List Char) :
    ∃ read, (optional (arguments (value levels))).parse
        ((Tree.argsText args).toList ++ ')' :: rest) = some (read, ')' :: rest) ∧
      read.getD [] = args.map fun a => .ok a := by
  cases args with
  | nil =>
    have hnone : (arguments (value levels)).parse (')' :: rest) = none :=
      parse_bind_none (value_none levels rest)
    exact ⟨none, parse_optional_none hnone, rfl⟩
  | cons arg args => exact ⟨_, parse_optional_some (parse_arguments h rest), rfl⟩

theorem parse_callParts {callee : Callee} {args : List Tree} (hcallee : callee.WellFormed)
    (levels : Nat) (hargs : ∀ a ∈ args, ReadsBack (value levels) a ∧ a.WellFormedValue)
    (rest : List Char) :
    (callParts (value levels)).parse ((Tree.text (.call callee args)).toList ++ rest) =
      some ((callee.keyword, args.map fun a => .ok a), rest) := by
  obtain ⟨read, hread, hok⟩ := parse_optionalArguments levels hargs rest
  have hsolid : Solid ((Tree.argsText args).toList ++ ')' :: rest) := by
    cases args with
    | nil => exact ⟨by decide, by decide⟩
    | cons arg args =>
      rw [toList_args, List.append_assoc]
      exact solid_value (hargs arg List.mem_cons_self).2
  have hform : (Tree.text (.call callee args)).toList ++ rest =
      callee.keyword.toList ++ '(' :: ((Tree.argsText args).toList ++ ')' :: rest) := by
    simp only [toList_call, List.append_assoc, List.cons_append, List.nil_append]
  rw [hform]
  generalize (Tree.argsText args).toList ++ ')' :: rest = more at hread hsolid
  have hapart : Apart ('(' :: more) := ⟨by decide, by decide⟩
  have hname := parse_nameText (Callee.isName hcallee) hapart
  have hskip : skip.parse ('(' :: more) = some ((), '(' :: more) := rfl
  have hopen : (symbol "(").parse ('(' :: more) = some ((), more) := rfl
  have hskip' : skip.parse (')' :: rest) = some ((), ')' :: rest) := rfl
  have hclose : (symbol ")").parse (')' :: rest) = some ((), rest) := rfl
  unfold callParts
  rw [parse_bind_some hname, parse_bind_some hskip, parse_bind_some hopen,
    parse_bind_some (parse_skip_solid hsolid), parse_bind_some hread, parse_bind_some hskip',
    parse_bind_some hclose, parse_pure, hok]

theorem readsBack_call {callee : Callee} {args : List Tree} (hcallee : callee.WellFormed)
    (h : Tree.CallChecked (.call callee args)) (levels : Nat)
    (hargs : ∀ a ∈ args, ReadsBack (value levels) a ∧ a.WellFormedValue) :
    ReadsBack (value (levels + 1)) (.call callee args) := by
  intro rest hrest
  have hbuild : ∀ extent, buildCall callee.keyword (args.map fun a => .ok a) extent =
      .ok (.call callee args) := by
    intro extent
    unfold buildCall
    rw [mapM_ok]
    simp only [bind, Except.bind, buildCall_ok hcallee h]
  have hcall : (call (value levels)).parse ((Tree.text (.call callee args)).toList ++ rest) =
      some (.ok (.call callee args), rest) := by
    have hparts : (named .call (callParts (value levels))).parse
        ((Tree.text (.call callee args)).toList ++ rest) =
          some ((callee.keyword, args.map fun a => .ok a), rest) :=
      parse_callParts hcallee levels hargs rest
    rw [call_eq, parse_bind_some (parse_located_some hparts)]
    simp only [parse_pure, hbuild]
  exact parse_orElse_some hcall

theorem count_arg {arg : Tree} {args : List Tree} (h : arg ∈ args) :
    arg.text.toList.count '(' ≤ (Tree.argsText args).toList.count '(' := by
  induction args with
  | nil => cases h
  | cons first args ih =>
    cases args with
    | nil =>
      rw [List.mem_singleton.mp h]
      exact Nat.le_refl _
    | cons next args =>
      rw [argsText_cons, String.toList_append, String.toList_append, List.count_append,
        List.count_append]
      rcases List.mem_cons.mp h with rfl | hrest
      · omega
      · have := ih hrest
        omega

/-- Induction on the tree: the parentheses of a call's arguments are fewer than those of the call,
so the arguments are read within one level less. -/
theorem readsBack_value {tree : Tree} (h : tree.WellFormedValue) (levels : Nat)
    (hlevels : tree.text.toList.count '(' ≤ levels) : ReadsBack (value levels) tree := by
  induction tree using Tree.induct generalizing levels with
  | leaf content => cases levels <;> exact readsBack_leaf h.nodes
  | call callee args ih =>
    obtain ⟨⟨hcallee, hchecked, hvalues⟩, hargs⟩ := Tree.every_call.mp h.nodes
    have hcount : (Tree.argsText args).toList.count '(' + 1 ≤ levels := by
      rw [toList_call, List.count_append, List.count_cons_self, List.count_append] at hlevels
      omega
    obtain ⟨levels, rfl⟩ : ∃ n, levels = n + 1 := ⟨levels - 1, by omega⟩
    refine readsBack_call hcallee hchecked levels fun arg harg => ?_
    have hvalue : arg.WellFormedValue := ⟨hvalues arg harg, hargs arg harg⟩
    have hless := count_arg harg
    exact ⟨ih arg harg hvalue levels (by omega), hvalue⟩
  | arith chain => cases levels <;> exact readsBack_arith h.nodes
  | tests chain => cases levels <;> exact readsBack_tests h.nodes
  | _ => cases h.value

end FieldScript.Grammar
