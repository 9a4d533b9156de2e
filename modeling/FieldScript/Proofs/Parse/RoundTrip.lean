import FieldScript.Proofs.Grammar.Statements
import FieldScript.Proofs.Source.Nesting
import FieldScript.Script

/-! Parsing a printed script gives back its statements, at every limit that admits the nesting of
the text. -/
namespace FieldScript.Grammar

open FieldScript.Parser FieldScript.Source FieldScript.Tree

theorem statement_head {tree : Tree} (h : tree.WellFormedStatement) :
    ∃ c cs, tree.text.toList = c :: cs ∧ isNameStart c = true := by
  obtain ⟨hstatement, hnodes⟩ := h
  cases tree with
  | assign target value =>
    obtain ⟨name, rfl, hname⟩ := Leaf.IsTarget.exists_name hnodes.1.1
    obtain ⟨c, cs, hlist, hstart⟩ := hname.head
    rw [toList_assign, assignForm, Leaf.text, hlist]
    exact ⟨c, _, rfl, hstart⟩
  | guarded test target value =>
    rw [toList_guarded]
    exact ⟨'i', _, rfl, by decide⟩
  | branched test target value target' value' =>
    rw [toList_branched, toList_guarded]
    exact ⟨'i', _, rfl, by decide⟩
  | _ => cases hstatement

theorem semicolon_none {tree : Tree} (h : tree.WellFormedStatement) (rest : List Char) :
    semicolon.parse (tree.text.toList ++ rest) = none := by
  obtain ⟨c, cs, htext, hstart⟩ := statement_head h
  have hne : ';' ≠ c := by
    rintro rfl
    exact absurd hstart (by decide)
  have hliteral : literal? ";" (c :: (cs ++ rest)) = none := by
    simp [literal?, hne]
  rw [htext, List.cons_append]
  unfold semicolon
  rw [parse_bind_some (parse_skip_solid (solid_of_isNameStart hstart))]
  exact parse_token_none hliteral

theorem solid_statement {tree : Tree} (h : tree.WellFormedStatement) (rest : List Char) :
    Solid (tree.text.toList ++ rest) := by
  obtain ⟨c, cs, htext, hstart⟩ := statement_head h
  rw [htext]
  exact solid_of_isNameStart hstart

def separated (tree : Tree) : List Char := ';' :: '\n' :: tree.text.toList

theorem parse_nextStatement {tree : Tree} (h : tree.WellFormedStatement) (levels : Nat)
    (hlevels : tree.text.toList.count '(' ≤ levels) (cs : List Char) :
    (nextStatement (value levels)).parse (separated tree ++ ';' :: cs) =
      some (.ok tree, ';' :: cs) := by
  have hstatement := parse_statement h levels hlevels cs
  have hnone := semicolon_none h (';' :: cs)
  have hsolid := solid_statement h (';' :: cs)
  have hform : separated tree ++ ';' :: cs = ';' :: '\n' :: (tree.text.toList ++ ';' :: cs) := rfl
  rw [hform]
  generalize tree.text.toList ++ ';' :: cs = form at hstatement hnone hsolid
  have hsemicolon : semicolon.parse (';' :: '\n' :: form) = some ((), '\n' :: form) := rfl
  have hskip : skip.parse ('\n' :: form) = some ((), form) := by
    have hblank : unblanked ('\n' :: form) = unblanked form := rfl
    rw [parse_skip, hblank, hsolid.unblanked]
  have hend : semicolon.parse ('\n' :: form) = none := by
    unfold semicolon at hnone ⊢
    rw [parse_bind_some hskip]
    rwa [parse_bind_some (parse_skip_solid hsolid)] at hnone
  unfold nextStatement
  rw [parse_bind_some (parse_oneOrMore hsemicolon (parse_many_none hend)), parse_bind_some hskip]
  exact hstatement

def AtSeparator (more : List Char) : Prop := ∃ cs, more = ';' :: cs

theorem parse_statements {tree : Tree} {trees : List Tree}
    (h : ∀ t ∈ tree :: trees, t.WellFormedStatement) (levels : Nat)
    (hlevels : ∀ t ∈ tree :: trees, t.text.toList.count '(' ≤ levels) :
    (statements (value levels)).parse
        (tree.text.toList ++ (trees.flatMap separated ++ [';', '\n'])) =
      some ((tree :: trees).map fun t => .ok t, ['\n']) := by
  obtain ⟨htree, htrees⟩ := List.forall_mem_cons.mp h
  obtain ⟨hcount, hcounts⟩ := List.forall_mem_cons.mp hlevels
  have hend : AtSeparator [';', '\n'] := ⟨_, rfl⟩
  have hmore : AtSeparator (trees.flatMap separated ++ [';', '\n']) :=
    follows_row hend fun _ _ _ => ⟨_, rfl⟩
  have hothers : (nextStatement (value levels)).many.parse
      (trees.flatMap separated ++ [';', '\n']) = some (trees.map fun t => .ok t, [';', '\n']) := by
    refine parse_many_row rfl hend (fun _ _ => List.cons_ne_nil _ _) (fun _ _ _ => ⟨_, rfl⟩) ?_
    rintro t ht _ ⟨cs, rfl⟩
    exact parse_nextStatement (htrees t ht) levels (hcounts t ht) cs
  have hlast : semicolon.many.parse [';', '\n'] = some ([()], ['\n']) := rfl
  obtain ⟨cs, hcs⟩ := hmore
  unfold statements
  rw [parse_bind_some (parse_skip_solid (solid_statement htree _)), hcs,
    parse_bind_some (parse_statement htree levels hcount cs), ← hcs, parse_bind_some hothers,
    parse_bind_some hlast, parse_pure, List.map_cons]

theorem toList_foldl_text (trees : List Tree) (out : String) :
    (trees.foldl (fun out t => out ++ t.text ++ ";\n") out).toList =
      out.toList ++ trees.flatMap fun t => t.text.toList ++ [';', '\n'] := by
  induction trees generalizing out with
  | nil => simp
  | cons t trees ih =>
    rw [List.foldl_cons, ih]
    simp

theorem toList_script (s : Script) :
    s.text.toList = s.statements.flatMap fun t => t.text.toList ++ [';', '\n'] :=
  toList_foldl_text s.statements ""

theorem flatMap_separated (tree : Tree) (trees : List Tree) :
    ((tree :: trees).flatMap fun t => t.text.toList ++ [';', '\n']) =
      tree.text.toList ++ (trees.flatMap separated ++ [';', '\n']) := by
  induction trees generalizing tree with
  | nil => simp
  | cons next trees ih =>
    rw [List.flatMap_cons, ih]
    simp [separated]

theorem count_statement {s : Script} {tree : Tree} (h : tree ∈ s.statements) :
    tree.text.toList.count '(' ≤ s.text.toList.count '(' := by
  have hsub : (tree.text.toList ++ [';', '\n']).Sublist s.text.toList := by
    rw [toList_script, List.flatMap_def]
    exact List.sublist_flatten_of_mem (List.mem_map_of_mem h)
  have hcount := hsub.count_le '('
  rw [List.count_append] at hcount
  omega

theorem parse_script {s : Script} (h : ∀ t ∈ s.statements, t.WellFormedStatement) :
    (script (value (s.text.toList.count '('))).parse s.text.toList =
      some (s.statements.map fun t => .ok t, []) := by
  have hcounts : ∀ t ∈ s.statements, t.text.toList.count '(' ≤ s.text.toList.count '(' :=
    fun t ht => count_statement ht
  generalize s.text.toList.count '(' = levels at hcounts
  rw [toList_script, script_eq, parse_named]
  cases hs : s.statements with
  | nil => rfl
  | cons tree trees =>
    rw [hs] at h hcounts
    have hread := parse_statements h levels hcounts
    have hnone := semicolon_none (h tree List.mem_cons_self)
      (trees.flatMap separated ++ [';', '\n'])
    have hskip : skip.parse ['\n'] = some ((), []) := rfl
    have hend : endOfInput.parse [] = some ((), []) := rfl
    rw [flatMap_separated, parse_bind_some (parse_many_none hnone),
      parse_bind_some (parse_optional_some hread), parse_bind_some hskip, parse_bind_some hend,
      parse_pure]
    rfl

end FieldScript.Grammar

namespace FieldScript.Parse

/-- Parsing undoes printing. -/
theorem script_text (s : Script) (maxDepth : Nat)
    (h : ∀ t ∈ s.statements, t.WellFormedStatement)
    (hdepth : Source.nesting s.text.toList ≤ maxDepth) :
    script s.text maxDepth = .ok s.statements := by
  have hshallow := Source.tooDeep_eq_none.mpr hdepth
  have hread : read (fun n => Grammar.script (Grammar.value n)) s.text maxDepth =
      .ok (s.statements.map fun t => .ok t) := by
    simp only [read, hshallow, levels, Grammar.parse_script h]
  unfold script
  rw [hread]
  simp only [bind, Except.bind, Grammar.mapM_ok, checked]

/-- `AND = max(half(x), pick(), -0);` and
`if (x < .0 && missing >= y) then or_ = x - -0 else z = average(1e-400);`. -/
def mixedScript : Script where
  statements := [
    .assign (.variable "AND") (.call (.builtin .max) [
      .call (.user "half") [.leaf (.variable "x")], .call (.user "pick") [],
      .leaf (.number "-0" ⟨0x8000000000000000⟩)]),
    .branched ⟨⟨.variable "x", .lt, .number ".0" ⟨0⟩⟩, [(.and, ⟨.missing, .ge, .variable "y"⟩)]⟩
      (.variable "or_") (.arith ⟨.variable "x", [(.sub, .number "-0" ⟨0x8000000000000000⟩)]⟩)
      (.variable "z") (.call (.builtin .average) [.leaf (.number "1e-400" ⟨0⟩)])]
  options := .default

theorem mixedScript_parsed : (∀ t ∈ mixedScript.statements, t.WellFormedStatement) ∧
    script mixedScript.text 2 = .ok mixedScript.statements := by
  have hwell : ∀ t ∈ mixedScript.statements, t.WellFormedStatement := by
    intro t ht
    simp only [mixedScript, List.mem_cons, List.not_mem_nil, or_false] at ht
    rcases ht with rfl | rfl
    · refine ⟨rfl, ?_⟩
      simp [Tree.Every, Tree.EveryArg, Tree.NodeWellFormed, Leaf.WellFormed, Leaf.IsTarget,
        Callee.WellFormed, Tree.CallChecked]
      and_intros <;> rfl
    · refine ⟨rfl, ?_⟩
      simp [Tree.Every, Tree.EveryArg, Tree.NodeWellFormed, Leaf.WellFormed, Leaf.IsTarget,
        Callee.WellFormed, Tree.CallChecked, TestChain.WellFormed, ArithChain.WellFormed,
        Test.WellFormed]
      and_intros <;> rfl
  have hdepth : Source.nesting mixedScript.text.toList ≤ 2 := by decide +kernel
  exact ⟨hwell, script_text mixedScript 2 hwell hdepth⟩

end FieldScript.Parse
