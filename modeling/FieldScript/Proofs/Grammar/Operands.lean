import FieldScript.Grammar
import FieldScript.Proofs.Grammar.Reading
import FieldScript.Proofs.Tree.WellFormed

/-! Blanks and operands. An operand is read back from its text, unless what follows could belong
to it; nothing is skipped in front of it. -/
namespace FieldScript.Grammar

open FieldScript.Parser FieldScript.Source

variable {rest : List Char}

/-- Nothing is skipped in front of this text. -/
def Solid : List Char → Prop
  | [] => True
  | c :: _ => isBlank c = false ∧ c ≠ '#'

def unblanked (cs : List Char) : List Char := (splitBlanks false cs).2

theorem parse_skip (cs : List Char) : skip.parse cs = some ((), unblanked cs) := rfl

@[simp] theorem unblanked_blank (cs : List Char) : unblanked (' ' :: cs) = unblanked cs := rfl

theorem Solid.unblanked {cs : List Char} (h : Solid cs) : unblanked cs = cs := by
  cases cs with
  | nil => rfl
  | cons c cs =>
    have hstop : ¬(isBlank c || c == '#') = true := by simp [h.1, h.2]
    simp only [Grammar.unblanked, splitBlanks, Bool.false_or, hstop, Bool.false_eq_true, if_false]

theorem solid_splitBlanks (inside : Bool) (cs : List Char) : Solid (splitBlanks inside cs).2 := by
  induction cs generalizing inside with
  | nil => exact trivial
  | cons c cs ih =>
    rw [splitBlanks]
    split
    · exact ih _
    · rename_i hstop
      simp only [Bool.or_eq_true, not_or, Bool.not_eq_true, beq_eq_false_iff_ne] at hstop
      exact ⟨hstop.1.2, hstop.2⟩

theorem solid_unblanked (cs : List Char) : Solid (unblanked cs) := solid_splitBlanks false cs

theorem parse_skip_solid {cs : List Char} (h : Solid cs) : skip.parse cs = some ((), cs) := by
  rw [parse_skip, h.unblanked]

theorem parse_skip_blank {cs : List Char} (h : Solid cs) :
    skip.parse (' ' :: cs) = some ((), cs) := by
  rw [parse_skip, unblanked_blank, h.unblanked]

theorem solid_cons {c : Char} {cs : List Char} (h : c ∉ [' ', '\t', '\r', '\n', '#']) :
    Solid (c :: cs) := by
  simp only [List.mem_cons, List.not_mem_nil, or_false, not_or] at h
  simp [Solid, isBlank, h]

theorem solid_of_isNameStart {c : Char} {cs : List Char} (h : isNameStart c = true) :
    Solid (c :: cs) := by
  apply solid_cons
  intro hmem
  simp only [List.mem_cons, List.not_mem_nil, or_false] at hmem
  rcases hmem with rfl | rfl | rfl | rfl | rfl <;> exact absurd h (by decide)

theorem solid_name {name : String} (h : IsName name) : Solid (name.toList ++ rest) := by
  obtain ⟨c, cs, hname, hstart⟩ := h.head
  rw [hname]
  exact solid_of_isNameStart hstart

theorem solid_number {label : String} (h : IsNumber label) : Solid (label.toList ++ rest) := by
  unfold IsNumber at h
  cases hlabel : label.toList with
  | nil =>
    rw [hlabel] at h
    cases h
  | cons c cs =>
    rw [hlabel] at h
    apply solid_cons
    intro hmem
    simp only [List.mem_cons, List.not_mem_nil, or_false] at hmem
    rcases hmem with rfl | rfl | rfl | rfl | rfl <;> cases h

theorem solid_leaf {leaf : Leaf} (h : leaf.WellFormed) : Solid (leaf.text.toList ++ rest) := by
  rcases leaf with name | ⟨label, value⟩ | _
  · exact solid_name h
  · exact solid_number h.1
  · exact ⟨rfl, by decide⟩

theorem parse_nameText {name : String} (h : IsName name) (hrest : Apart rest) :
    nameText.parse (name.toList ++ rest) = some (name, rest) := by
  have hread : (named .name (lexeme name?)).parse (name.toList ++ rest) =
      some (name.toList, rest) := name?_append h hrest
  unfold nameText
  rw [parse_bind_some hread, String.ofList_toList, parse_pure]

theorem parse_number_none {name : String} (h : IsName name) :
    number.parse (name.toList ++ rest) = none := by
  have hread : (named .number (lexeme number?)).parse (name.toList ++ rest) = none :=
    number?_name h
  exact parse_bind_none (parse_located_none hread)

theorem parse_number {label : String} {value : Binary64}
    (h : (Leaf.number label value).WellFormed) (hrest : Apart rest) :
    number.parse (label.toList ++ rest) = some (.ok (.number label value), rest) := by
  obtain ⟨hnumber, hvalue, hfinite⟩ := h
  have hread : (named .number (lexeme number?)).parse (label.toList ++ rest) =
      some (label.toList, rest) := number?_append hnumber hrest
  unfold number
  rw [parse_bind_some (parse_located_some hread)]
  simp only [parse_pure, numberLeaf, String.ofList_toList, hvalue, hfinite, if_true]

theorem parse_missing (hrest : Apart rest) :
    missing.parse ("missing".toList ++ rest) = some (.ok .missing, rest) := by
  have hread : exactly? "missing" ("missing".toList ++ rest) = some ("missing".toList, rest) := by
    rw [exactly?, splitWord_append hrest]
    rfl
  have hkeyword : (keyword .missing "missing").parse ("missing".toList ++ rest) = some ((), rest) :=
    parse_token_some hread
  exact parse_bind_some hkeyword

theorem parse_keyword_none {rule : Rule} {name word : String} (h : IsName name)
    (hrest : Apart rest) (hword : word ∈ reserved) :
    (keyword rule word).parse (name.toList ++ rest) = none :=
  parse_token_none (exactly?_name h hrest hword)

theorem parse_operand {leaf : Leaf} (h : leaf.WellFormed) (hrest : Apart rest) :
    operand.parse (leaf.text.toList ++ rest) = some (.ok leaf, rest) := by
  unfold operand
  rcases leaf with name | ⟨label, value⟩ | _
  · have hmissing : missing.parse (name.toList ++ rest) = none :=
      parse_bind_none (parse_keyword_none h hrest (by decide))
    rw [Leaf.text, parse_orElse_none (parse_number_none h), parse_orElse_none hmissing]
    exact parse_bind_some (parse_nameText h hrest)
  · exact parse_orElse_some (parse_number h hrest)
  · rw [parse_orElse_none rfl]
    exact parse_orElse_some (parse_missing hrest)

end FieldScript.Grammar
