import FieldScript.Proofs.Grammar.Statements
import FieldScript.Proofs.Outcome
import FieldScript.Proofs.Source.Nesting
import FieldScript.Proofs.Source.Pieces
import FieldScript.Proofs.Tree.Calls

/-! What the rules of the grammar take off a text without comments. `Takes` relates a result to the
piece it was read from and passes through every way to combine parsers. The parentheses of a piece
match: those of a value nest as deep as its calls, those of a statement as its calls or its test. -/
namespace FieldScript

open Outcome

namespace Parser

variable {α β : Type} {p q : Parser α} {P : α → List Char → Prop} {R : β → List Char → Prop}

/-- Whatever the parser reads off a text without comments was read from a piece that suits it. -/
def Takes (p : Parser α) (P : α → List Char → Prop) : Prop :=
  ∀ cs a rest, '#' ∉ cs → p.parse cs = some (a, rest) → ∃ piece, piece ++ rest = cs ∧ P a piece

theorem Takes.mono {Q : α → List Char → Prop} (h : p.Takes P)
    (h' : ∀ a piece, P a piece → Q a piece) : p.Takes Q := by
  intro cs a rest hmark ha
  obtain ⟨piece, hpiece, hP⟩ := h cs a rest hmark ha
  exact ⟨piece, hpiece, h' a piece hP⟩

theorem takes_pure {a : α} (h : P a []) : (pure a : Parser α).Takes P := by
  intro cs b rest _ hb
  cases hb
  exact ⟨[], rfl, h⟩

theorem takes_fail (P : α → List Char → Prop) : (fail : Parser α).Takes P := by
  intro cs a rest _ h
  cases h

theorem Takes.bind {f : α → Parser β} (h : p.Takes P)
    (h' : ∀ a x, P a x → (f a).Takes fun b y => R b (x ++ y)) : (p >>= f).Takes R := by
  intro cs b rest hmark hb
  obtain ⟨a, middle, ha, hrest⟩ := bind_eq_some.mp hb
  obtain ⟨x, rfl, hx⟩ := h cs a middle hmark ha
  have hmiddle : '#' ∉ middle := fun hmem => hmark (List.mem_append_right x hmem)
  obtain ⟨y, rfl, hy⟩ := h' a x hx middle b rest hmiddle hrest
  exact ⟨x ++ y, List.append_assoc x y rest, hy⟩

theorem Takes.bind_pure {f : α → β} (h : p.Takes P) (h' : ∀ a x, P a x → R (f a) x) :
    (p >>= fun a => pure (f a)).Takes R :=
  h.bind fun a x hx => takes_pure (by rw [List.append_nil]; exact h' a x hx)

theorem Takes.orElse (h : p.Takes P) (h' : q.Takes P) : (p <|> q).Takes P := by
  intro cs a rest hmark ha
  cases hp : p.parse cs with
  | none =>
    rw [parse_orElse_none hp] at ha
    exact h' cs a rest hmark ha
  | some result =>
    rw [parse_orElse_some hp] at ha
    cases ha
    exact h cs _ _ hmark hp

theorem Takes.named {rule : Rule} (h : p.Takes P) : (named rule p).Takes P := h

theorem Takes.located (h : p.Takes P) : (located p).Takes fun result => P result.1 := by
  intro cs result rest hmark hresult
  obtain ⟨⟨a, left⟩, ha, heq⟩ := Option.map_eq_some_iff.mp hresult
  cases heq
  exact h cs a rest hmark ha

theorem takes_lexeme {read : List Char → Option (List Char × List Char)} {Q : List Char → Prop}
    (h : ∀ {cs piece rest}, '#' ∉ cs → read cs = some (piece, rest) →
      piece ++ rest = cs ∧ Q piece) :
    (lexeme read).Takes fun _ piece => Q piece :=
  fun _ piece _ hmark hread => ⟨piece, h hmark hread⟩

theorem takes_token {read : List Char → Option (List Char × List Char)} {Q : List Char → Prop}
    (h : ∀ {cs piece rest}, '#' ∉ cs → read cs = some (piece, rest) →
      piece ++ rest = cs ∧ Q piece) :
    (token read).Takes fun _ piece => Q piece :=
  (takes_lexeme h).bind_pure fun _ _ hx => hx

theorem Takes.many {S : List α → List Char → Prop} (h : p.Takes P) (nil : S [] [])
    (cons : ∀ a as x y, P a x → S as y → S (a :: as) (x ++ y)) : p.many.Takes S := by
  have hrow (fuel : Nat) (cs : List Char) (hmark : '#' ∉ cs) :
      ∃ piece, piece ++ (p.parseMany fuel cs).2 = cs ∧ S (p.parseMany fuel cs).1 piece := by
    induction fuel generalizing cs with
    | zero => exact ⟨[], rfl, nil⟩
    | succ fuel ih =>
      rw [parseMany]
      cases hp : p.parse cs with
      | none => exact ⟨[], rfl, nil⟩
      | some result =>
        obtain ⟨a, middle⟩ := result
        obtain ⟨x, rfl, hx⟩ := h cs a middle hmark hp
        obtain ⟨y, hy, hS⟩ := ih middle fun hmem => hmark (List.mem_append_right x hmem)
        exact ⟨x ++ y, by rw [List.append_assoc, hy], cons a _ x y hx hS⟩
  intro cs as rest hmark has
  have hread : p.parseMany (cs.length + 1) cs = (as, rest) := Option.some.inj has
  simpa only [hread] using hrow (cs.length + 1) cs hmark

theorem Takes.optional {S : Option α → List Char → Prop} (h : p.Takes P) (none : S none [])
    (some : ∀ a piece, P a piece → S (some a) piece) : (optional p).Takes S :=
  (h.bind_pure some).orElse (takes_pure none)

theorem Takes.shortens (h : p.Takes fun _ piece => piece ≠ []) {cs rest : List Char} {a : α}
    (hmark : '#' ∉ cs) (ha : p.parse cs = some (a, rest)) : rest.length < cs.length := by
  obtain ⟨piece, rfl, hne⟩ := h cs a rest hmark ha
  have hpos := List.length_pos_iff.mpr hne
  rw [List.length_append]
  omega

end Parser

namespace Source

/-- A piece that is not empty and adds nothing to the nesting of the text around it. -/
structure Level (piece : List Char) : Prop where
  nonempty : piece ≠ []
  nests : Nests 0 piece

variable {n : Nat} {x y : List Char}

theorem Nests.after (h : Nests n y) (h' : Nests 0 x) : Nests n (x ++ y) := by
  simpa using h'.append h

theorem Nests.before (h : Nests n x) (h' : Nests 0 y) : Nests n (x ++ y) := by
  simpa using h.append h'

theorem Level.append (h : Level x) (h' : Nests 0 y) : Level (x ++ y) where
  nonempty := by simp [h.nonempty]
  nests := h.nests.before h'

theorem nests_of_isNameChar (h : ∀ c ∈ x, isNameChar c = true) : Nests 0 x :=
  nests_of_not_mem (fun hmem => absurd (h _ hmem) (by decide))
    fun hmem => absurd (h _ hmem) (by decide)

theorem level_splitWord {cs : List Char} (h : (splitWord cs).1 ≠ []) : Level (splitWord cs).1 :=
  ⟨h, nests_of_isNameChar (List.all_eq_true.mp List.all_takeWhile)⟩

theorem level_of_name? {cs rest : List Char} (h : name? cs = some (x, rest)) : Level x := by
  simp only [name?] at h
  split at h
  · rename_i hname
    cases h
    refine level_splitWord fun hnil => ?_
    rw [hnil] at hname
    cases hname
  · cases h

theorem level_of_exactly? {word : String} {cs rest : List Char} (hword : word ≠ "")
    (h : exactly? word cs = some (x, rest)) : Level x := by
  simp only [exactly?] at h
  split at h
  · rename_i heq
    cases h
    refine level_splitWord fun hnil => hword ?_
    exact String.toList_eq_nil_iff.mp (heq.symm.trans hnil)
  · cases h

theorem level_of_ignoringCase? {word : String} {cs rest : List Char} (hword : word ≠ "")
    (h : ignoringCase? word cs = some (x, rest)) : Level x := by
  simp only [ignoringCase?] at h
  split at h
  · rename_i heq
    cases h
    refine level_splitWord fun hnil => hword ?_
    rw [hnil] at heq
    exact String.toList_eq_nil_iff.mp heq.symm
  · cases h

theorem nests_of_isDigit (h : ∀ c ∈ x, c.isDigit = true) : Nests 0 x :=
  nests_of_isNameChar fun c hc => isNameChar_of_isDigit (h c hc)

theorem Mantissa.level (h : Mantissa x) : Level x := by
  cases h with
  | whole nonempty digit => exact ⟨nonempty, nests_of_isDigit digit⟩
  | pointed nonempty digit digit' =>
    have hpoint : Nests 0 ['.'] := nests_of_not_mem (by decide) (by decide)
    exact ⟨by simp, (hpoint.before (nests_of_isDigit digit')).after (nests_of_isDigit digit)⟩

theorem nests_splitOne {accepted : List Char} (h : '(' ∉ accepted) (h' : ')' ∉ accepted)
    (cs : List Char) : Nests 0 (splitOne accepted cs).1 := by
  rcases splitOne_fst accepted cs with hnil | ⟨c, hc, hone⟩
  · rw [hnil]
    exact nests_nil
  · rw [hone]
    refine nests_of_not_mem ?_ ?_
    · intro hmem
      exact h (List.mem_singleton.mp hmem ▸ hc)
    · intro hmem
      exact h' (List.mem_singleton.mp hmem ▸ hc)

theorem Power.nests (h : Power x) : Nests 0 x := by
  cases h with
  | absent => exact nests_nil
  | @given mark sign digits marked signed nonempty digit =>
    have hmark : Nests 0 [mark] := by
      simp only [List.mem_cons, List.not_mem_nil, or_false] at marked
      rcases marked with rfl | rfl <;> exact nests_of_not_mem (by decide) (by decide)
    have hsign : Nests 0 sign := by
      rcases signed with rfl | ⟨c, hc, rfl⟩
      · exact nests_nil
      · simp only [List.mem_cons, List.not_mem_nil, or_false] at hc
        rcases hc with rfl | rfl <;> exact nests_of_not_mem (by decide) (by decide)
    exact hmark.before (hsign.before (nests_of_isDigit digit))

theorem level_of_number? {cs rest : List Char} (h : number? cs = some (x, rest)) : Level x := by
  simp only [number?, Option.bind_eq_bind, Option.bind_eq_some_iff, Prod.exists,
    Option.some.injEq, Prod.mk.injEq] at h
  obtain ⟨digits, more, hdigits, rfl, rfl⟩ := h
  have hmantissa := (mantissa_of_mantissa? hdigits).level
  refine ⟨by simp [hmantissa.nonempty], ?_⟩
  exact (hmantissa.nests.after (nests_splitOne (by decide) (by decide) cs)).before
    (power_of_splitExponent more).nests

theorem nests_splitBlanks {cs : List Char} (h : '#' ∉ cs) : Nests 0 (splitBlanks false cs).1 := by
  have hblank : ∀ c ∈ (splitBlanks false cs).1, isBlank c = true := by
    induction cs with
    | nil => simp [splitBlanks]
    | cons c cs ih =>
      rw [List.mem_cons, not_or] at h
      have hother : (c == '#') = false := by simpa using Ne.symm h.1
      cases hc : isBlank c with
      | true =>
        simp only [splitBlanks, hc, hother, Bool.or_true, Bool.true_or, if_true]
        exact List.forall_mem_cons.mpr ⟨hc, ih h.2⟩
      | false => simp [splitBlanks, hc, hother]
  exact nests_of_not_mem (fun hmem => absurd (hblank _ hmem) (by decide))
    fun hmem => absurd (hblank _ hmem) (by decide)

end Source

namespace Grammar

open FieldScript.Parser FieldScript.Source FieldScript.Tree

variable {α : Type}

/-! ### Words, signs and operands -/

theorem takes_skip : skip.Takes fun _ piece => Nests 0 piece :=
  takes_token fun {cs piece rest} hmark hread => by
    obtain ⟨hpiece, hrest⟩ := Prod.mk.inj (Option.some.inj hread)
    rw [← hpiece, ← hrest]
    exact ⟨append_splitBlanks false cs, nests_splitBlanks hmark⟩

theorem takes_symbol (text : String) : (symbol text).Takes fun _ piece => piece = text.toList :=
  takes_token fun _ hread => (literal?_eq_some hread).symm

theorem takes_levelSymbol {text : String} (h : Level text.toList) :
    (symbol text).Takes fun _ piece => Level piece :=
  (takes_symbol text).mono fun _ _ heq => heq ▸ h

theorem takes_nameText : nameText.Takes fun _ piece => Level piece :=
  (takes_lexeme fun _ hread => ⟨append_of_name? hread, level_of_name? hread⟩).named.bind_pure
    fun _ _ hx => hx

theorem takes_number : number.Takes fun _ piece => Level piece :=
  (takes_lexeme fun _ hread =>
    ⟨append_of_number? hread, level_of_number? hread⟩).named.located.bind_pure fun _ _ hx => hx

theorem takes_keyword (rule : Rule) {word : String} (h : word ≠ "") :
    (keyword rule word).Takes fun _ piece => Level piece :=
  (takes_token fun _ hread => ⟨append_of_exactly? hread, level_of_exactly? h hread⟩).named

theorem takes_operand : operand.Takes fun _ piece => Level piece := by
  refine takes_number.orElse (Takes.orElse ?_ ?_)
  · exact (takes_keyword .missing (by decide)).bind_pure fun _ _ hx => hx
  · exact takes_nameText.bind_pure fun _ _ hx => hx

theorem takes_sign {rule : Rule} {text : String} {a : α} (h : Level text.toList) :
    (sign rule text a).Takes fun _ piece => Level piece :=
  (takes_levelSymbol h).named.bind_pure fun _ _ hx => hx

theorem level_text {text : List Char} (h : text ≠ []) (h' : '(' ∉ text) (h'' : ')' ∉ text) :
    Level text :=
  ⟨h, nests_of_not_mem h' h''⟩

theorem takes_arithOp : arithOp.Takes fun _ piece => Level piece := by
  refine (takes_sign ?_).orElse ((takes_sign ?_).orElse ((takes_sign ?_).orElse (takes_sign ?_)))
  all_goals exact level_text (by decide) (by decide) (by decide)

theorem takes_comparison : comparison.Takes fun _ piece => Level piece := by
  refine (takes_sign ?_).orElse ((takes_sign ?_).orElse ((takes_sign ?_).orElse
    ((takes_sign ?_).orElse ((takes_sign ?_).orElse (takes_sign ?_)))))
  all_goals exact level_text (by decide) (by decide) (by decide)

theorem takes_boolWord {rule : Rule} {text spelled : String} {op : BoolOp} (h : Level text.toList)
    (h' : spelled ≠ "") : (boolWord rule text spelled op).Takes fun _ piece => Level piece := by
  have hword : (token (ignoringCase? spelled)).Takes fun _ piece => Level piece :=
    takes_token fun _ hread => ⟨append_of_ignoringCase? hread, level_of_ignoringCase? h' hread⟩
  exact ((takes_levelSymbol h).orElse hword).named.bind_pure fun _ _ hx => hx

theorem takes_boolOp : boolOp.Takes fun _ piece => Level piece := by
  refine (takes_boolWord ?_ (by decide)).orElse (takes_boolWord ?_ (by decide))
  all_goals exact level_text (by decide) (by decide) (by decide)

/-! ### Chains -/

theorem takes_step {β : Type} {op : Parser α} {part : Parser (Checked β)}
    (hop : op.Takes fun _ piece => Level piece) (hpart : part.Takes fun _ piece => Level piece) :
    (step op part).Takes fun _ piece => Level piece := by
  refine takes_skip.bind fun _ w hw => hop.bind fun _ x hx => takes_skip.bind fun _ y hy =>
    hpart.bind_pure fun _ z hz => ?_
  exact ⟨by simp [hx.nonempty], (hx.append (hz.nests.after hy)).nests.after hw⟩

theorem takes_steps {β : Type} {op : Parser α} {part : Parser (Checked β)}
    (hop : op.Takes fun _ piece => Level piece) (hpart : part.Takes fun _ piece => Level piece) :
    (step op part).many.Takes fun _ piece => Nests 0 piece :=
  (takes_step hop hpart).many nests_nil fun _ _ _ _ hx hy => hy.after hx.nests

/-- The parentheses of a piece match, even if what was read from it has a fault; without one they
nest as deep as the measure says. -/
def Shows (measure : α → Nat) (part : Checked α) (piece : List Char) : Prop :=
  ∃ height, Nests height piece ∧ ∀ a, part = .ok a → height = measure a

namespace Shows

variable {β : Type} {measure : α → Nat} {part : Checked α} {x y : List Char}

theorem after (h : Shows measure part y) (h' : Nests 0 x) : Shows measure part (x ++ y) := by
  obtain ⟨height, hnests, hmeasure⟩ := h
  exact ⟨height, hnests.after h', hmeasure⟩

theorem before (h : Shows measure part x) (h' : Nests 0 y) : Shows measure part (x ++ y) := by
  obtain ⟨height, hnests, hmeasure⟩ := h
  exact ⟨height, hnests.before h', hmeasure⟩

theorem build {measure' : β → Nat} {whole : Checked β} (h : Shows measure part x)
    (built : ∀ b, whole = .ok b → ∃ a, part = .ok a ∧ measure' b = measure a) :
    Shows measure' whole x := by
  obtain ⟨height, hnests, hmeasure⟩ := h
  refine ⟨height, hnests, fun b hb => ?_⟩
  obtain ⟨a, ha, heq⟩ := built b hb
  rw [hmeasure a ha, heq]

end Shows

/-- What a value is read from: its parentheses show how deep its calls nest. -/
def ValueTaken (part : Checked Tree) (piece : List Char) : Prop :=
  piece ≠ [] ∧ Shows callDepth part piece

theorem valueTaken_of_level {part : Checked Tree} {piece : List Char} (h : Level piece)
    (hdepth : ∀ tree, part = .ok tree → tree.callDepth = 0) : ValueTaken part piece :=
  ⟨h.nonempty, 0, h.nests, fun tree htree => (hdepth tree htree).symm⟩

theorem takes_arith : arith.Takes ValueTaken := by
  have hrest : arithStep.oneOrMore.Takes fun _ piece => Nests 0 piece :=
    (takes_step takes_arithOp takes_operand).bind fun _ x hx =>
      (takes_steps takes_arithOp takes_operand).bind_pure fun _ y hy => hy.after hx.nests
  rw [arith_eq]
  refine Takes.named <| takes_operand.bind fun first x hx => hrest.bind_pure fun rest y hy =>
    valueTaken_of_level (hx.append hy) fun tree htree => ?_
  obtain ⟨_, _, htree⟩ := bind_eq_ok.mp htree
  obtain ⟨_, _, htree⟩ := bind_eq_ok.mp htree
  cases htree
  rfl

theorem takes_test : test.Takes fun _ piece => Level piece := by
  refine Takes.named <| takes_operand.bind fun _ v hv => takes_skip.bind fun _ w hw =>
    takes_comparison.bind fun _ x hx => takes_skip.bind fun _ y hy =>
      takes_operand.bind_pure fun _ z hz => ?_
  exact hv.append ((hx.append (hz.nests.after hy)).nests.after hw)

theorem takes_tests : tests.Takes fun _ piece => Level piece := by
  rw [tests_eq]
  exact Takes.named <| takes_test.bind fun _ x hx =>
    (takes_steps takes_boolOp takes_test).bind_pure fun _ y hy => hx.append hy

/-! ### Values -/

def RowTaken (measure : Tree → Nat) (parts : List (Checked Tree)) (piece : List Char) : Prop :=
  Shows (deepest measure) (parts.mapM id) piece

variable {measure : Tree → Nat} {part : Checked Tree} {parts : List (Checked Tree)}
  {x y : List Char}

theorem rowTaken_nil : RowTaken measure [] [] := by
  refine ⟨0, nests_nil, fun trees htrees => ?_⟩
  cases htrees
  rfl

theorem RowTaken.cons (h : Shows measure part x) (h' : RowTaken measure parts y) :
    RowTaken measure (part :: parts) (x ++ y) := by
  obtain ⟨m, hm, hfirst⟩ := h
  obtain ⟨n, hn, hothers⟩ := h'
  refine ⟨max m n, hm.append hn, fun trees htrees => ?_⟩
  obtain ⟨tree, rest, htree, hrest, rfl⟩ := mapM_cons_eq_ok.mp htrees
  rw [hfirst tree htree, hothers rest hrest]
  rfl

section Calls

variable {inner : Parser (Checked Tree)} (h : inner.Takes ValueTaken)

include h

theorem takes_argStep : (argStep inner).Takes ValueTaken := by
  have hcomma : Level ",".toList := level_text (by decide) (by decide) (by decide)
  refine takes_skip.bind fun _ w hw => (takes_levelSymbol hcomma).bind fun _ x hx =>
    takes_skip.bind fun _ y hy => h.mono fun part z hz => ⟨by simp [hz.1], ?_⟩
  exact ((hz.2.after hy).after hx.nests).after hw

theorem takes_arguments : (arguments inner).Takes (RowTaken callDepth) := by
  rw [arguments_eq]
  refine h.bind fun first x hx => ((takes_argStep h).many rowTaken_nil
    fun _ _ _ _ harg hargs => RowTaken.cons harg.2 hargs).bind_pure fun rest y hy => ?_
  exact RowTaken.cons hx.2 hy

theorem takes_callParts : (callParts inner).Takes fun parts piece => piece ≠ [] ∧
    Shows (fun args => argsDepth args + 1) (parts.2.mapM id) piece := by
  have hargs : (optional (arguments inner)).Takes fun read => RowTaken callDepth (read.getD []) :=
    (takes_arguments h).optional rowTaken_nil fun _ _ hparts => hparts
  refine takes_nameText.bind fun _ u hu => takes_skip.bind fun _ v hv =>
    (takes_symbol "(").bind fun _ opening hopening => takes_skip.bind fun _ w hw =>
      hargs.bind fun read x hx => takes_skip.bind fun _ y hy =>
        (takes_symbol ")").bind_pure fun _ closing hclosing => ?_
  subst hopening hclosing
  obtain ⟨height, hinside, hdeepest⟩ := (hx.before hy).after hw
  refine ⟨by simp [hu.nonempty], height + 1, ?_,
    fun args hok => by simp only [hdeepest args hok, argsDepth_eq]⟩
  have hform : "(".toList ++ (w ++ (x ++ (y ++ ")".toList))) =
      '(' :: ((w ++ (x ++ y)) ++ [')']) := by simp
  rw [hform]
  exact (hinside.enclosed.after hv).after hu.nests

omit h in
theorem buildCall_eq_ok {keyword : String} {parts : List (Checked Tree)} {extent : Extent}
    {tree : Tree} (h : buildCall keyword parts extent = .ok tree) :
    ∃ callee args, parts.mapM id = .ok args ∧ tree = .call callee args := by
  obtain ⟨args, hargs, hbuild⟩ := bind_eq_ok.mp h
  cases hop : Builtin.ofKeyword? keyword with
  | none =>
    simp only [Tree.buildCall, hop] at hbuild
    cases hbuild
    exact ⟨_, args, hargs, rfl⟩
  | some op =>
    simp only [Tree.buildCall, hop, Tree.buildBuiltin] at hbuild
    cases hchecked : op.checkArgs args with
    | error e =>
      rw [hchecked] at hbuild
      cases hbuild
    | ok checked =>
      rw [hchecked] at hbuild
      cases hbuild
      exact ⟨_, args, hargs, rfl⟩

theorem takes_call : (call inner).Takes ValueTaken := by
  rw [call_eq]
  refine (takes_callParts h).named.located.bind_pure fun result x hx =>
    ⟨hx.1, hx.2.build fun tree htree => ?_⟩
  obtain ⟨callee, args, hargs, rfl⟩ := buildCall_eq_ok htree
  exact ⟨args, hargs, callDepth.eq_def _⟩

theorem takes_valueOver : (valueOver inner).Takes ValueTaken := by
  refine (takes_call h).orElse (Takes.orElse ?_ (takes_arith.orElse ?_))
  · refine takes_tests.bind_pure fun chain x hx => valueTaken_of_level hx fun tree htree => ?_
    cases chain with
    | error fault => cases htree
    | ok chain =>
      cases htree
      rfl
  · refine takes_operand.bind_pure fun leaf x hx => valueTaken_of_level hx fun tree htree => ?_
    cases leaf with
    | error fault => cases htree
    | ok leaf =>
      cases htree
      rfl

end Calls

theorem takes_value (levels : Nat) : (value levels).Takes ValueTaken := by
  induction levels with
  | zero => exact takes_valueOver (takes_fail _)
  | succ levels ih => exact takes_valueOver ih

/-! ### Statements -/

section Statements

variable {inner : Parser (Checked Tree)} (h : inner.Takes ValueTaken)

include h

theorem takes_assignment : (assignment inner).Takes fun parts => ValueTaken parts.2 := by
  have hequals : Level "=".toList := level_text (by decide) (by decide) (by decide)
  refine Takes.named <| takes_nameText.bind fun _ v hv => takes_skip.bind fun _ w hw =>
    (takes_levelSymbol hequals).bind fun _ x hx => takes_skip.bind fun _ y hy =>
      h.bind_pure fun part z hz => ⟨by simp [hz.1], ?_⟩
  exact (((hz.2.after hy).after hx.nests).after hw).after hv.nests

theorem takes_elseBranch : (elseBranch inner).Takes fun parts => ValueTaken parts.2 := by
  refine takes_skip.bind fun _ w hw => (takes_keyword .elseWord (by decide)).bind fun _ x hx =>
    takes_skip.bind fun _ y hy => (takes_assignment h).mono fun parts z hz => ?_
  exact ⟨by simp [hz.1], ((hz.2.after hy).after hx.nests).after hw⟩

abbrev StatementTaken (part : Checked Tree) (piece : List Char) : Prop :=
  piece ≠ [] ∧ Shows parenDepth part piece

omit h in
theorem branches_nests {test : Checked TestChain} {target : Leaf} {result : Checked Tree}
    {other : Option (Leaf × Checked Tree)} (hx : ValueTaken result x)
    (hy : ∀ branch ∈ other, ValueTaken branch.2 y) (hnone : other = none → Nests 0 y) :
    ∃ depth, Nests depth (x ++ y) ∧
      ∀ tree, branches test target result other = .ok tree → tree.parenDepth = max 1 depth := by
  obtain ⟨-, height, hnests, hmeasure⟩ := hx
  cases other with
  | none =>
    refine ⟨height, hnests.before (hnone rfl), fun tree htree => ?_⟩
    obtain ⟨chain, _, htree⟩ := bind_eq_ok.mp htree
    obtain ⟨value, hvalue, htree⟩ := bind_eq_ok.mp htree
    cases htree
    rw [hmeasure value hvalue]
    rfl
  | some branch =>
    obtain ⟨-, height', hnests', hmeasure'⟩ := hy branch rfl
    refine ⟨max height height', hnests.append hnests', fun tree htree => ?_⟩
    obtain ⟨chain, _, htree⟩ := bind_eq_ok.mp htree
    obtain ⟨value, hvalue, htree⟩ := bind_eq_ok.mp htree
    obtain ⟨value', hvalue', htree⟩ := bind_eq_ok.mp htree
    cases htree
    rw [hmeasure value hvalue, hmeasure' value' hvalue']
    rfl

theorem takes_conditional : (conditional inner).Takes StatementTaken := by
  have hother : (optional (elseBranch inner)).Takes fun other y =>
      (∀ branch ∈ other, ValueTaken branch.2 y) ∧ (other = none → Nests 0 y) := by
    refine (takes_elseBranch h).optional ⟨by simp, fun _ => nests_nil⟩
      fun parts y hy => ⟨?_, by simp⟩
    rintro branch ⟨⟩
    exact hy
  rw [conditional_eq]
  refine Takes.named <| (takes_keyword .ifWord (by decide)).bind fun _ a ha =>
    takes_skip.bind fun _ b hb => (takes_symbol "(").bind fun _ opening hopening =>
      takes_skip.bind fun _ c hc => takes_tests.bind fun test d hd => takes_skip.bind fun _ e he =>
        (takes_symbol ")").bind fun _ closing hclosing => takes_skip.bind fun _ f hf =>
          (takes_keyword .thenWord (by decide)).bind fun _ g hg => takes_skip.bind fun _ i hi =>
            (takes_assignment h).bind fun first x hx => hother.bind_pure fun other y hy =>
              ⟨by simp [ha.nonempty], ?_⟩
  subst hopening hclosing
  obtain ⟨depth, hdepth, hparens⟩ := branches_nests hx hy.1 hy.2
  have htest : Nests 1 ('(' :: ((c ++ (d ++ e)) ++ [')'])) :=
    ((hd.append he).nests.after hc).enclosed
  have hrest : Nests depth (f ++ (g ++ (i ++ (x ++ y)))) :=
    ((hdepth.after hi).after hg.nests).after hf
  have hform : "(".toList ++
        (c ++ (d ++ (e ++ (")".toList ++ (f ++ (g ++ (i ++ (x ++ y)))))))) =
      '(' :: ((c ++ (d ++ e)) ++ [')']) ++ (f ++ (g ++ (i ++ (x ++ y)))) := by simp
  rw [hform]
  exact ⟨max 1 depth, ((htest.append hrest).after hb).after ha.nests,
    fun tree htree => (hparens tree htree).symm⟩

theorem takes_statement : (statement inner).Takes StatementTaken := by
  refine Takes.named <| (takes_conditional h).orElse <|
    (takes_assignment h).bind_pure fun parts x hx => ⟨hx.1, hx.2.build fun tree htree => ?_⟩
  obtain ⟨target, part⟩ := parts
  cases part with
  | error fault => cases htree
  | ok value =>
    cases htree
    exact ⟨value, rfl, rfl⟩

omit h in
theorem takes_semicolon : semicolon.Takes fun _ piece => Level piece := by
  have hseparator : Level ";".toList := level_text (by decide) (by decide) (by decide)
  refine takes_skip.bind fun _ x hx => (takes_levelSymbol hseparator).mono fun _ y hy => ?_
  exact ⟨by simp [hy.nonempty], hy.nests.after hx⟩

omit h in
theorem takes_semicolons : semicolon.many.Takes fun _ piece => Nests 0 piece :=
  takes_semicolon.many nests_nil fun _ _ _ _ hx hy => hy.after hx.nests

theorem takes_nextStatement : (nextStatement inner).Takes StatementTaken := by
  have hseparators : semicolon.oneOrMore.Takes fun _ piece => Nests 0 piece :=
    takes_semicolon.bind fun _ x hx => takes_semicolons.bind_pure fun _ y hy => hy.after hx.nests
  refine hseparators.bind fun _ x hx => takes_skip.bind fun _ y hy =>
    (takes_statement h).mono fun part z hz => ?_
  exact ⟨by simp [hz.1], (hz.2.after hy).after hx⟩

theorem takes_statements : (statements inner).Takes (RowTaken parenDepth) := by
  refine takes_skip.bind fun _ w hw => (takes_statement h).bind fun first x hx =>
    ((takes_nextStatement h).many rowTaken_nil fun _ _ _ _ hpart hparts =>
      RowTaken.cons hpart.2 hparts).bind fun rest y hy =>
        takes_semicolons.bind_pure fun _ z hz => ?_
  rw [← List.append_assoc x]
  exact ((RowTaken.cons hx.2 hy).before hz).after hw

theorem takes_script : (script inner).Takes (RowTaken parenDepth) := by
  have hread : (optional (statements inner)).Takes fun read =>
      RowTaken parenDepth (read.getD []) :=
    (takes_statements h).optional rowTaken_nil fun _ _ hparts => hparts
  have hend : endOfInput.Takes fun _ piece => piece = [] := by
    refine Takes.named <| takes_token fun {cs piece rest} _ hend => ?_
    unfold end? at hend
    split at hend
    · rename_i hempty
      cases hend
      exact ⟨(List.isEmpty_iff.mp hempty).symm, rfl⟩
    · cases hend
  rw [script_eq]
  refine Takes.named <| takes_semicolons.bind fun _ w hw => hread.bind fun read x hx =>
    takes_skip.bind fun _ y hy => hend.bind_pure fun _ z hz => ?_
  subst hz
  rw [List.append_nil]
  exact (hx.before hy).after hw

end Statements

end Grammar

end FieldScript
