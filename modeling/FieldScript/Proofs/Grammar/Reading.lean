import FieldScript.Grammar.Parser

/-! What combined parsers read, from what their parts read. A repetition reads a row of items when
each is read before whatever may follow it, and nothing more can be read behind the last. -/
namespace FieldScript.Parser

variable {α β ι : Type} {p q : Parser α} {cs rest : List Char} {a : α}

@[simp] theorem parse_pure (a : α) (cs : List Char) : (pure a : Parser α).parse cs = some (a, cs) :=
  rfl

@[simp] theorem parse_named (rule : Rule) (p : Parser α) (cs : List Char) :
    (named rule p).parse cs = p.parse cs := rfl

theorem parse_bind_some {f : α → Parser β} (h : p.parse cs = some (a, rest)) :
    (p >>= f).parse cs = (f a).parse rest := by
  simp only [bind, Parser.bind, h]

theorem parse_bind_none {f : α → Parser β} (h : p.parse cs = none) : (p >>= f).parse cs = none := by
  simp only [bind, Parser.bind, h]

theorem bind_eq_some {f : α → Parser β} {b : β} :
    (p >>= f).parse cs = some (b, rest) ↔
      ∃ a middle, p.parse cs = some (a, middle) ∧ (f a).parse middle = some (b, rest) := by
  cases h : p.parse cs with
  | none => simp [parse_bind_none h]
  | some result =>
    obtain ⟨a, middle⟩ := result
    rw [parse_bind_some h]
    constructor
    · exact fun hb => ⟨a, middle, rfl, hb⟩
    · rintro ⟨_, _, ⟨⟩, hb⟩
      exact hb

theorem parse_orElse_some (h : p.parse cs = some (a, rest)) :
    (p <|> q).parse cs = some (a, rest) := by
  simp only [HOrElse.hOrElse, OrElse.orElse, Parser.orElse, h]

theorem parse_orElse_none (h : p.parse cs = none) : (p <|> q).parse cs = q.parse cs := by
  simp only [HOrElse.hOrElse, OrElse.orElse, Parser.orElse, h]

theorem parse_located_some (h : p.parse cs = some (a, rest)) :
    (located p).parse cs = some ((a, ⟨cs, rest⟩), rest) := by
  simp only [located, h, Option.map_some]

theorem parse_located_none (h : p.parse cs = none) : (located p).parse cs = none := by
  simp only [located, h, Option.map_none]

theorem parse_optional_some (h : p.parse cs = some (a, rest)) :
    (optional p).parse cs = some (some a, rest) :=
  parse_orElse_some (parse_bind_some h)

theorem parse_optional_none (h : p.parse cs = none) : (optional p).parse cs = some (none, cs) :=
  parse_orElse_none (parse_bind_none h)

theorem parse_token_some {read : List Char → Option (List Char × List Char)} {piece : List Char}
    (h : read cs = some (piece, rest)) : (token read).parse cs = some ((), rest) :=
  parse_bind_some (p := lexeme read) h

theorem parse_token_none {read : List Char → Option (List Char × List Char)}
    (h : read cs = none) : (token read).parse cs = none :=
  parse_bind_none (p := lexeme read) h

section Row

variable {items : List ι} {form : ι → List Char} {result : ι → α} {Follows : List Char → Prop}

theorem follows_row (hrest : Follows rest)
    (hforms : ∀ i ∈ items, ∀ more, Follows (form i ++ more)) :
    Follows (items.flatMap form ++ rest) := by
  cases items with
  | nil => exact hrest
  | cons i items =>
    rw [List.flatMap_cons, List.append_assoc]
    exact hforms i List.mem_cons_self _

theorem parseMany_row (fuel : Nat) (hfuel : items.length < fuel) (hend : p.parse rest = none)
    (hrest : Follows rest) (hforms : ∀ i ∈ items, ∀ more, Follows (form i ++ more))
    (hitems : ∀ i ∈ items, ∀ more, Follows more →
      p.parse (form i ++ more) = some (result i, more)) :
    p.parseMany fuel (items.flatMap form ++ rest) = (items.map result, rest) := by
  induction items generalizing fuel with
  | nil =>
    cases fuel with
    | zero => rfl
    | succ fuel => simp only [List.flatMap_nil, List.nil_append, parseMany, hend, List.map_nil]
  | cons i items ih =>
    cases fuel with
    | zero => exact absurd hfuel (Nat.not_lt_zero _)
    | succ fuel =>
      have hothersForms := fun j hj => hforms j (List.mem_cons_of_mem i hj)
      have hread := hitems i List.mem_cons_self _ (follows_row hrest hothersForms)
      have hothers := ih fuel (Nat.lt_of_succ_lt_succ hfuel) hothersForms
        fun j hj => hitems j (List.mem_cons_of_mem i hj)
      rw [List.flatMap_cons, List.append_assoc]
      simp only [parseMany, hread, hothers, List.map_cons]

theorem length_le_row (hforms : ∀ i ∈ items, form i ≠ []) :
    items.length ≤ (items.flatMap form).length := by
  induction items with
  | nil => exact Nat.le_refl 0
  | cons i items ih =>
    have hpos := List.length_pos_iff.mpr (hforms i List.mem_cons_self)
    have hothers := ih fun j hj => hforms j (List.mem_cons_of_mem i hj)
    rw [List.flatMap_cons, List.length_append, List.length_cons]
    omega

theorem parse_many_row (hend : p.parse rest = none) (hrest : Follows rest)
    (hnonempty : ∀ i ∈ items, form i ≠ [])
    (hforms : ∀ i ∈ items, ∀ more, Follows (form i ++ more))
    (hitems : ∀ i ∈ items, ∀ more, Follows more →
      p.parse (form i ++ more) = some (result i, more)) :
    p.many.parse (items.flatMap form ++ rest) = some (items.map result, rest) := by
  have hlength := length_le_row hnonempty
  have hread := parseMany_row ((items.flatMap form ++ rest).length + 1)
    (by rw [List.length_append]; omega) hend hrest hforms hitems
  exact congrArg some hread

theorem parse_many_none (h : p.parse cs = none) : p.many.parse cs = some ([], cs) := by
  simp only [many, parseMany, h]

end Row

theorem parse_oneOrMore {as : List α} {middle : List Char} (h : p.parse cs = some (a, middle))
    (hmany : p.many.parse middle = some (as, rest)) :
    p.oneOrMore.parse cs = some (a :: as, rest) := by
  unfold oneOrMore
  rw [parse_bind_some h, parse_bind_some hmany, parse_pure]

theorem parse_oneOrMore_none (h : p.parse cs = none) : p.oneOrMore.parse cs = none :=
  parse_bind_none h

end FieldScript.Parser
