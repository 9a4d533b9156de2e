import FieldScript.Proofs.Grammar.Values

/-! Statements, read as they are printed in front of a separator. An assignment is not taken for a
conditional, since its target is no word of the language; a conditional takes the other branch that
was printed with it, and none where a separator stands. -/
namespace FieldScript.Grammar

open FieldScript.Parser FieldScript.Source FieldScript.Tree

variable {rest : List Char} {inner : Parser (Checked Tree)}

theorem solid_assign {target : Leaf} {value : Tree} (h : target.IsTarget) :
    Solid (assignForm target value ++ rest) := by
  obtain ⟨name, rfl, hname⟩ := h.exists_name
  rw [assignForm, List.append_assoc]
  exact solid_name hname

theorem parse_assignment {target : Leaf} {value : Tree} (htarget : target.IsTarget)
    (hvalue : value.WellFormedValue) (hread : ReadsBack inner value) (hrest : Closing rest) :
    (assignment inner).parse (assignForm target value ++ rest) =
      some ((target, .ok value), rest) := by
  obtain ⟨name, rfl, hname⟩ := htarget.exists_name
  have hform : assignForm (.variable name) value ++ rest =
      name.toList ++ ' ' :: '=' :: ' ' :: (value.text.toList ++ rest) := by
    simp only [assignForm, Leaf.text, List.append_assoc, List.cons_append]
  rw [hform]
  generalize hmore : value.text.toList ++ rest = more
  have hsolid : Solid more := hmore ▸ solid_value hvalue
  have hskip : skip.parse (' ' :: '=' :: ' ' :: more) = some ((), '=' :: ' ' :: more) := rfl
  have hequals : (symbol "=").parse ('=' :: ' ' :: more) = some ((), ' ' :: more) := rfl
  unfold assignment
  rw [parse_named, parse_bind_some (parse_nameText hname (apart_blank _)),
    parse_bind_some hskip, parse_bind_some hequals, parse_bind_some (parse_skip_blank hsolid),
    ← hmore, parse_bind_some (hread rest hrest), parse_pure]

def elseBranch (inner : Parser (Checked Tree)) : Parser (Leaf × Checked Tree) := do
  skip
  keyword .elseWord "else"
  skip
  assignment inner

def branches (test : Checked TestChain) (target : Leaf) (result : Checked Tree)
    (other : Option (Leaf × Checked Tree)) : Checked Tree := do
  let test ← test
  let result ← result
  match other with
  | none => pure (.guarded test target result)
  | some (target', result') => pure (.branched test target result target' (← result'))

theorem conditional_eq : conditional inner = named .conditional (do
    keyword .ifWord "if"
    skip
    symbol "("
    skip
    let test ← tests
    skip
    symbol ")"
    skip
    keyword .thenWord "then"
    skip
    let (target, result) ← assignment inner
    let other ← optional (elseBranch inner)
    return branches test target result other) := rfl

theorem parse_conditional {test : TestChain} {target : Leaf} {value : Tree} {more : List Char}
    {other : Option (Leaf × Checked Tree)} (htest : test.WellFormed) (htarget : target.IsTarget)
    (hvalue : value.WellFormedValue) (hread : ReadsBack inner value) (hmore : Closing more)
    (hother : (optional (elseBranch inner)).parse more = some (other, rest)) :
    (conditional inner).parse ((text (.guarded test target value)).toList ++ more) =
      some (branches (.ok test) target (.ok value) other, rest) := by
  have hassign := parse_assignment htarget hvalue hread hmore
  have hsolid : Solid (assignForm target value ++ more) := solid_assign htarget
  have hform : (text (.guarded test target value)).toList ++ more = "if (".toList ++
      (test.text.toList ++ (") then ".toList ++ (assignForm target value ++ more))) := by
    simp only [toList_guarded, List.append_assoc]
  rw [hform]
  generalize assignForm target value ++ more = form at hassign hsolid
  have hclosing : Closing (") then ".toList ++ form) := .parenthesis _
  have htests := parse_tests htest hclosing
  have hsolid' : Solid (test.text.toList ++ (") then ".toList ++ form)) := by
    rw [toList_testChain, List.append_assoc]
    exact readsParts_test.solid _ htest.1 _
  generalize test.text.toList ++ (") then ".toList ++ form) = parts at htests hsolid'
  have hif : (keyword .ifWord "if").parse ("if (".toList ++ parts) =
      some ((), ' ' :: '(' :: parts) := rfl
  have hskip : skip.parse (' ' :: '(' :: parts) = some ((), '(' :: parts) := rfl
  have hopen : (symbol "(").parse ('(' :: parts) = some ((), parts) := rfl
  have hskip' : skip.parse (") then ".toList ++ form) = some ((), ") then ".toList ++ form) := rfl
  have hclose : (symbol ")").parse (") then ".toList ++ form) =
      some ((), " then ".toList ++ form) := rfl
  have hskip'' : skip.parse (" then ".toList ++ form) = some ((), "then ".toList ++ form) := rfl
  have hthen : (keyword .thenWord "then").parse ("then ".toList ++ form) =
      some ((), ' ' :: form) := rfl
  rw [conditional_eq, parse_named, parse_bind_some hif, parse_bind_some hskip,
    parse_bind_some hopen, parse_bind_some (parse_skip_solid hsolid'), parse_bind_some htests,
    parse_bind_some hskip', parse_bind_some hclose, parse_bind_some hskip'',
    parse_bind_some hthen, parse_bind_some (parse_skip_blank hsolid), parse_bind_some hassign,
    parse_bind_some hother, parse_pure]

theorem parse_elseBranch {target : Leaf} {value : Tree} (htarget : target.IsTarget)
    (hvalue : value.WellFormedValue) (hread : ReadsBack inner value) (hrest : Closing rest) :
    (elseBranch inner).parse (" else ".toList ++ (assignForm target value ++ rest)) =
      some ((target, .ok value), rest) := by
  have hassign := parse_assignment htarget hvalue hread hrest
  have hsolid : Solid (assignForm target value ++ rest) := solid_assign htarget
  generalize assignForm target value ++ rest = form at hassign hsolid
  have hskip : skip.parse (" else ".toList ++ form) = some ((), "else ".toList ++ form) := rfl
  have helse : (keyword .elseWord "else").parse ("else ".toList ++ form) =
      some ((), ' ' :: form) := rfl
  unfold elseBranch
  rw [parse_bind_some hskip, parse_bind_some helse, parse_bind_some (parse_skip_blank hsolid)]
  exact hassign

theorem conditional_none {target : Leaf} {value : Tree} (h : target.IsTarget) :
    (conditional inner).parse (assignForm target value ++ rest) = none := by
  obtain ⟨name, rfl, hname⟩ := h.exists_name
  rw [assignForm, List.append_assoc, conditional_eq, parse_named]
  exact parse_bind_none (parse_keyword_none hname (apart_blank _) (by decide))

theorem count_assign (target : Leaf) (value : Tree) :
    value.text.toList.count '(' ≤ (assignForm target value).count '(' := by
  simp only [assignForm, List.count_append, List.count_cons]
  omega

theorem count_branch {tree : Tree} {branch : Leaf × Tree} (h : branch ∈ tree.branches) :
    branch.2.text.toList.count '(' ≤ tree.text.toList.count '(' := by
  cases tree with
  | assign target value =>
    rw [List.mem_singleton.mp h, toList_assign]
    exact count_assign target value
  | guarded test target value =>
    rw [List.mem_singleton.mp h, toList_guarded]
    have := count_assign target value
    simp only [List.count_append]
    omega
  | branched test target value target' value' =>
    rw [toList_branched, toList_guarded]
    simp only [List.count_append]
    rcases List.mem_cons.mp h with rfl | hother
    · refine Nat.le_trans (count_assign target value) ?_
      omega
    · rw [List.mem_singleton.mp hother]
      refine Nat.le_trans (count_assign target' value') ?_
      omega
  | _ => cases h

theorem wellFormed_branch {tree : Tree} (h : tree.Every NodeWellFormed) {branch : Leaf × Tree}
    (hbranch : branch ∈ tree.branches) : branch.1.IsTarget ∧ branch.2.WellFormedValue := by
  cases tree with
  | assign target value =>
    rw [List.mem_singleton.mp hbranch]
    exact ⟨h.1.1, h.1.2, h.2⟩
  | guarded test target value =>
    rw [List.mem_singleton.mp hbranch]
    exact ⟨h.1.2.1, h.1.2.2, h.2⟩
  | branched test target value target' value' =>
    obtain ⟨⟨_, hfirst, hsecond⟩, hvalue, hvalue'⟩ := h
    rcases List.mem_cons.mp hbranch with rfl | hother
    · exact ⟨hfirst.1, hfirst.2, hvalue⟩
    · rw [List.mem_singleton.mp hother]
      exact ⟨hsecond.1, hsecond.2, hvalue'⟩
  | _ => cases hbranch

/-- The values a statement assigns are read within as many levels as its text has parentheses. -/
theorem readsBack_branch {tree : Tree} (h : tree.WellFormedStatement) (levels : Nat)
    (hlevels : tree.text.toList.count '(' ≤ levels) :
    ∀ branch ∈ tree.branches, branch.1.IsTarget ∧ branch.2.WellFormedValue ∧
      ReadsBack (value levels) branch.2 := by
  intro branch hbranch
  obtain ⟨htarget, hvalue⟩ := wellFormed_branch h.nodes hbranch
  have hcount := count_branch hbranch
  exact ⟨htarget, hvalue, readsBack_value hvalue levels (by omega)⟩

theorem parse_statement {tree : Tree} (h : tree.WellFormedStatement) (levels : Nat)
    (hlevels : tree.text.toList.count '(' ≤ levels) (cs : List Char) :
    (statement (value levels)).parse (tree.text.toList ++ ';' :: cs) =
      some (.ok tree, ';' :: cs) := by
  have hbranches := readsBack_branch h levels hlevels
  have hseparator : Closing (';' :: cs) := .separator cs
  obtain ⟨hstatement, hnodes⟩ := h
  unfold statement
  rw [parse_named]
  cases tree with
  | assign target result =>
    obtain ⟨htarget, hvalue, hread⟩ := hbranches _ List.mem_cons_self
    rw [toList_assign, parse_orElse_none (conditional_none htarget)]
    exact parse_bind_some (parse_assignment htarget hvalue hread hseparator)
  | guarded test target result =>
    obtain ⟨htarget, hvalue, hread⟩ := hbranches _ List.mem_cons_self
    have hother : (optional (elseBranch (value levels))).parse (';' :: cs) =
        some (none, ';' :: cs) := rfl
    rw [parse_orElse_some (parse_conditional hnodes.1.1 htarget hvalue hread hseparator hother)]
    rfl
  | branched test target result target' result' =>
    obtain ⟨htarget, hvalue, hread⟩ := hbranches _ List.mem_cons_self
    obtain ⟨htarget', hvalue', hread'⟩ := hbranches _ (List.mem_cons_of_mem _ List.mem_cons_self)
    have hother := parse_optional_some (parse_elseBranch htarget' hvalue' hread' hseparator)
    rw [toList_branched, List.append_assoc, List.append_assoc,
      parse_orElse_some (parse_conditional hnodes.1.1 htarget hvalue hread (.branch _) hother)]
    rfl
  | _ => cases hstatement

def nextStatement (value : Parser (Checked Tree)) : Parser (Checked Tree) := do
  let _ ← oneOrMore semicolon
  skip
  statement value

def statements (value : Parser (Checked Tree)) : Parser (List (Checked Tree)) := do
  skip
  let first ← statement value
  let rest ← many (nextStatement value)
  let _ ← many semicolon
  return first :: rest

theorem script_eq (value : Parser (Checked Tree)) : script value = named .script (do
    let _ ← many semicolon
    let read ← optional (statements value)
    skip
    endOfInput
    return read.getD []) := rfl

end FieldScript.Grammar
