import FieldScript.Proofs.Grammar.Taking
import FieldScript.Proofs.Source.Alike

/-! Chains of tests as they may be written: an operator is its symbol, or its word in any letter
case. All spellings of a chain are read as the same chain. -/
namespace FieldScript

def BoolOp.word : BoolOp → String
  | .and => "and"
  | .or => "or"

/-- The symbol, or the word in any letter case. -/
def BoolOp.IsSpelling (op : BoolOp) (text : String) : Prop :=
  text = op.symbol ∨ text.toList.map Char.toLower = op.word.toList

/-- Parts with operators between them, and one space around every operator. -/
def spaced (first : String) (steps : List (String × String)) : String :=
  steps.foldl (fun text step => text ++ " " ++ step.1 ++ " " ++ step.2) first

theorem toList_spaced (first : String) (steps : List (String × String)) :
    (spaced first steps).toList = first.toList ++ steps.flatMap (Tree.stepForm id id) :=
  Tree.toList_steps id id steps first

theorem eq_or_eq_toUpper {c d : Char} (h : c.toLower = d) : c = d ∨ c = d.toUpper := by
  unfold Char.toLower at h
  split at h
  · rename_i hupper
    have hlower : 'a'.val ≤ d.val ∧ d.val ≤ 'z'.val := by
      subst h
      simp only [UInt32.le_iff_toNat_le, UInt32.toNat_add] at hupper ⊢
      have hgap : ('a'.val - 'A'.val).toNat = 32 := by decide
      have hletters : 'A'.val.toNat = 65 ∧ 'Z'.val.toNat = 90 ∧ 'a'.val.toNat = 97 ∧
          'z'.val.toNat = 122 := by decide
      omega
    have hback : ('a'.val - 'A'.val) + ('A'.val - 'a'.val) = 0 := by decide
    have hval : c.val = d.toUpper.val := by
      unfold Char.toUpper
      rw [dif_pos hlower]
      subst h
      simp only [UInt32.add_assoc, hback, UInt32.add_zero]
    exact .inr (Char.ext hval)
  · exact .inl h

def BoolOp.spellings : BoolOp → List String
  | .and => ["&&", "and", "anD", "aNd", "aND", "And", "AnD", "ANd", "AND"]
  | .or => ["||", "or", "oR", "Or", "OR"]

theorem BoolOp.IsSpelling.mem {op : BoolOp} {text : String} (h : op.IsSpelling text) :
    text ∈ op.spellings := by
  rcases h with rfl | hword
  · cases op <;> decide
  · rw [← String.ofList_toList (s := text)]
    generalize text.toList = letters at hword
    cases op with
    | and =>
      obtain ⟨a, _, rfl, ha, hword⟩ := List.map_eq_cons_iff.mp hword
      obtain ⟨n, _, rfl, hn, hword⟩ := List.map_eq_cons_iff.mp hword
      obtain ⟨d, _, rfl, hd, hword⟩ := List.map_eq_cons_iff.mp hword
      cases List.map_eq_nil_iff.mp hword
      rcases eq_or_eq_toUpper ha with rfl | rfl <;> rcases eq_or_eq_toUpper hn with rfl | rfl <;>
        rcases eq_or_eq_toUpper hd with rfl | rfl <;> decide
    | or =>
      obtain ⟨o, _, rfl, ho, hword⟩ := List.map_eq_cons_iff.mp hword
      obtain ⟨r, _, rfl, hr, hword⟩ := List.map_eq_cons_iff.mp hword
      cases List.map_eq_nil_iff.mp hword
      rcases eq_or_eq_toUpper ho with rfl | rfl <;> rcases eq_or_eq_toUpper hr with rfl | rfl <;>
        decide

namespace Grammar

open FieldScript.Parser FieldScript.Source FieldScript.Tree

variable {op : BoolOp} {text : String} {rest : List Char}

theorem parse_spelling (h : op.IsSpelling text) (more : List Char) :
    boolOp.parse (text.toList ++ ' ' :: more) = some (op, ' ' :: more) := by
  have hmem := h.mem
  cases op with
  | and =>
    simp only [BoolOp.spellings, List.mem_cons, List.not_mem_nil, or_false] at hmem
    rcases hmem with rfl | rfl | rfl | rfl | rfl | rfl | rfl | rfl | rfl <;> rfl
  | or =>
    simp only [BoolOp.spellings, List.mem_cons, List.not_mem_nil, or_false] at hmem
    rcases hmem with rfl | rfl | rfl | rfl | rfl <;> rfl

theorem plain_spelling (h : op.IsSpelling text) : text.toList ≠ [] ∧ '(' ∉ text.toList ∧
    ')' ∉ text.toList ∧ Plain isSkipped text.toList := by
  have hall : ∀ spelling ∈ op.spellings, spelling.toList ≠ [] ∧ '(' ∉ spelling.toList ∧
      ')' ∉ spelling.toList ∧ Plain isSkipped spelling.toList := by
    cases op <;> decide
  exact hall text h.mem

theorem level_spelling (h : op.IsSpelling text) : Level text.toList :=
  level_text (plain_spelling h).1 (plain_spelling h).2.1 (plain_spelling h).2.2.1

theorem solid_spelling (h : op.IsSpelling text) (more : List Char) :
    Solid (text.toList ++ more) := by
  obtain ⟨hne, -, -, hsolid⟩ := plain_spelling h
  cases hlist : text.toList with
  | nil => exact absurd hlist hne
  | cons c cs =>
    have hc : isSkipped c = false := hsolid c (hlist ▸ List.mem_cons_self)
    simpa [Solid, isSkipped] using hc

abbrev SpelledStep := BoolOp × String × Test

def spelledForm (step : SpelledStep) : List Char := stepForm id id (step.2.1, step.2.2.text)

theorem parse_spelledStep {step : SpelledStep} (hop : step.1.IsSpelling step.2.1)
    (htest : step.2.2.WellFormed) (hrest : Apart rest) :
    testStep.parse (spelledForm step ++ rest) = some ((step.1, .ok step.2.2), rest) := by
  have hform : spelledForm step ++ rest =
      ' ' :: (step.2.1.toList ++ ' ' :: (step.2.2.text.toList ++ rest)) := by
    simp [spelledForm, stepForm]
  unfold testStep Grammar.step
  rw [hform, parse_bind_some (parse_skip_blank (solid_spelling hop _)),
    parse_bind_some (parse_spelling hop _),
    parse_bind_some (parse_skip_blank (readsParts_test.solid _ htest rest)),
    parse_bind_some (readsParts_test.parse _ htest rest hrest), parse_pure]

def spelledText (first : Test) (steps : List SpelledStep) : String :=
  spaced first.text (steps.map fun step => (step.2.1, step.2.2.text))

theorem toList_spelledText (first : Test) (steps : List SpelledStep) :
    (spelledText first steps).toList = first.text.toList ++ steps.flatMap spelledForm := by
  rw [spelledText, toList_spaced, List.flatMap_map]
  rfl

variable {first : Test} {steps : List SpelledStep}

def meant (first : Test) (steps : List SpelledStep) : TestChain :=
  ⟨first, steps.map fun step => (step.1, step.2.2)⟩

theorem parse_spelledTests (hfirst : first.WellFormed)
    (hsteps : ∀ step ∈ steps, step.1.IsSpelling step.2.1 ∧ step.2.2.WellFormed)
    (hrest : Closing rest) :
    tests.parse ((spelledText first steps).toList ++ rest) =
      some (.ok (meant first steps), rest) := by
  have hrow : testStep.many.parse (steps.flatMap spelledForm ++ rest) =
      some (steps.map fun step => (step.1, .ok step.2.2), rest) := by
    refine parse_many_row hrest.testStep hrest.apart ?_ ?_ ?_
    · exact fun _ _ => List.cons_ne_nil _ _
    · exact fun _ _ _ => apart_blank _
    · exact fun step hstep _ hmore =>
        parse_spelledStep (hsteps step hstep).1 (hsteps step hstep).2 hmore
  have hmore : Apart (steps.flatMap spelledForm ++ rest) :=
    follows_row hrest.apart fun _ _ _ => apart_blank _
  have hchain : chain (steps.map fun step => (step.1, (.ok step.2.2 : Checked Test))) =
      .ok (steps.map fun step => (step.1, step.2.2)) := by
    rw [← chain_ok, List.map_map]
    rfl
  rw [toList_spelledText, List.append_assoc, tests_eq, parse_named,
    parse_bind_some (readsParts_test.parse _ hfirst _ hmore), parse_bind_some hrow, parse_pure, hchain]
  rfl

theorem parse_spelledValue (levels : Nat) (hfirst : first.WellFormed)
    (hsteps : ∀ step ∈ steps, step.1.IsSpelling step.2.1 ∧ step.2.2.WellFormed)
    (hrest : Closing rest) :
    (value levels).parse ((spelledText first steps).toList ++ rest) =
      some (.ok (.tests (meant first steps)), rest) := by
  have hread : testsValue.parse ((spelledText first steps).toList ++ rest) =
      some (.ok (.tests (meant first steps)), rest) :=
    parse_bind_some (parse_spelledTests hfirst hsteps hrest)
  have hform : (spelledText first steps).toList ++ rest = first.left.text.toList ++
      ' ' :: (first.comparison.symbol.toList ++ ' ' :: (first.right.text.toList ++
        (steps.flatMap spelledForm ++ rest))) := by
    simp only [toList_spelledText, toList_test, List.append_assoc, List.cons_append]
  have hcall (inner : Parser (Checked Tree)) :
      (call inner).parse ((spelledText first steps).toList ++ rest) = none := by
    rw [hform]
    exact call_none hfirst.1 (apart_blank _) (comparison_opening _ _)
  cases levels <;> exact (parse_orElse_none (hcall _)).trans (parse_orElse_some hread)

theorem level_leaf {leaf : Leaf} (h : leaf.WellFormed) : Level leaf.text.toList := by
  rcases leaf with name | ⟨label, value⟩ | _
  · exact level_of_name? h
  · exact level_of_number? h.1
  · exact level_text (by decide) (by decide) (by decide)

theorem nests_symbol (symbol : String) (h : Level symbol.toList) {part : List Char}
    (hpart : Nests 0 part) : Nests 0 (' ' :: (symbol.toList ++ ' ' :: part)) := by
  have hblank : Nests 0 [' '] := nests_of_not_mem (by decide) (by decide)
  exact ((hpart.after hblank).after h.nests).after hblank

theorem nests_test {test : Test} (h : test.WellFormed) : Nests 0 test.text.toList := by
  have hsymbol : Level test.comparison.symbol.toList := by
    cases test.comparison <;> exact level_text (by decide) (by decide) (by decide)
  rw [toList_test]
  exact (nests_symbol _ hsymbol (level_leaf h.2).nests).after (level_leaf h.1).nests

theorem nests_steps {ι : Type} {items : List ι} {form : ι → List Char} {front : List Char}
    (hfront : Nests 0 front) (h : ∀ i ∈ items, Nests 0 (form i)) :
    Nests 0 (front ++ items.flatMap form) := by
  induction items generalizing front with
  | nil => simpa using hfront
  | cons i items ih =>
    obtain ⟨hi, hitems⟩ := List.forall_mem_cons.mp h
    rw [List.flatMap_cons, ← List.append_assoc]
    exact ih (hfront.before hi) hitems

theorem nests_spelledText (hfirst : first.WellFormed)
    (hsteps : ∀ step ∈ steps, step.1.IsSpelling step.2.1 ∧ step.2.2.WellFormed) :
    Nests 0 (spelledText first steps).toList := by
  rw [toList_spelledText]
  exact nests_steps (nests_test hfirst) fun step hstep =>
    nests_symbol _ (level_spelling (hsteps step hstep).1) (nests_test (hsteps step hstep).2)

theorem nests_arith {chain : ArithChain} (h : chain.WellFormed) :
    Nests 0 (Tree.text (.arith chain)).toList := by
  have hsymbol (op : ArithOp) : Level op.symbol.toList := by
    cases op <;> exact level_text (by decide) (by decide) (by decide)
  rw [toList_arith]
  exact nests_steps (level_leaf h.1).nests fun step hstep =>
    nests_symbol _ (hsymbol step.1) (level_leaf (h.2.2 step hstep)).nests

end Grammar

end FieldScript
