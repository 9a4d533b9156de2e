import FieldScript.Parse
import FieldScript.Proofs.Grammar.Reading
import FieldScript.Proofs.Outcome
import FieldScript.Proofs.Source.Nesting
import FieldScript.Proofs.Source.Pieces
import FieldScript.Proofs.Tree.WellFormed

/-! What texts of any origin can parse to. `Yields` bounds what a parser can give and passes through
every way to combine parsers; a part that may hold a fault is bounded only where it holds none. So
every rule of the grammar gives well-formed parts, and a script well-formed statements. -/
namespace FieldScript

open Outcome

namespace Parser

variable {α β : Type} {p q : Parser α} {P : α → Prop} {Q : β → Prop}

def Yields (p : Parser α) (P : α → Prop) : Prop :=
  ∀ cs a rest, p.parse cs = some (a, rest) → P a

theorem Yields.pure {a : α} (h : P a) : (pure a : Parser α).Yields P := by
  intro cs b rest hb
  cases hb
  exact h

theorem yields_fail (P : α → Prop) : (fail : Parser α).Yields P := by
  intro cs a rest h
  cases h

theorem Yields.bind {f : α → Parser β} (h : p.Yields P) (h' : ∀ a, P a → (f a).Yields Q) :
    (p >>= f).Yields Q := by
  intro cs b rest hb
  obtain ⟨a, middle, ha, hb⟩ := bind_eq_some.mp hb
  exact h' a (h cs a middle ha) middle b rest hb

theorem Yields.after {f : α → Parser β} (h : ∀ a, (f a).Yields Q) : (p >>= f).Yields Q := by
  intro cs b rest hb
  obtain ⟨a, middle, _, hb⟩ := bind_eq_some.mp hb
  exact h a middle b rest hb

theorem Yields.orElse (h : p.Yields P) (h' : q.Yields P) : (p <|> q).Yields P := by
  intro cs a rest ha
  cases hp : p.parse cs with
  | none =>
    rw [parse_orElse_none hp] at ha
    exact h' cs a rest ha
  | some result =>
    rw [parse_orElse_some hp] at ha
    cases ha
    exact h cs _ _ hp

theorem yields_lexeme {read : List Char → Option (List Char × List Char)}
    {P : List Char → Prop} (h : ∀ {cs piece rest}, read cs = some (piece, rest) → P piece) :
    (lexeme read).Yields P := fun _ _ _ => h

theorem Yields.named {rule : Rule} (h : p.Yields P) : (named rule p).Yields P := h

theorem Yields.located (h : p.Yields P) : (located p).Yields fun result => P result.1 := by
  intro cs result rest hresult
  obtain ⟨⟨a, left⟩, ha, heq⟩ := Option.map_eq_some_iff.mp hresult
  cases heq
  exact h cs a rest ha

theorem Yields.many (h : p.Yields P) : p.many.Yields fun as => ∀ a ∈ as, P a := by
  have hrow (fuel : Nat) (cs : List Char) : ∀ a ∈ (p.parseMany fuel cs).1, P a := by
    induction fuel generalizing cs with
    | zero => simp [parseMany]
    | succ fuel ih =>
      rw [parseMany]
      cases hp : p.parse cs with
      | none => simp
      | some result => exact List.forall_mem_cons.mpr ⟨h cs _ _ hp, ih result.2⟩
  intro cs as rest has
  have hread : p.parseMany (cs.length + 1) cs = (as, rest) := Option.some.inj has
  simpa only [hread] using hrow (cs.length + 1) cs

theorem Yields.oneOrMore (h : p.Yields P) :
    p.oneOrMore.Yields fun as => as ≠ [] ∧ ∀ a ∈ as, P a :=
  h.bind fun a ha => h.many.bind fun as has =>
    Yields.pure ⟨List.cons_ne_nil a as, List.forall_mem_cons.mpr ⟨ha, has⟩⟩

theorem Yields.optional (h : p.Yields P) : (optional p).Yields fun result => ∀ a ∈ result, P a := by
  refine Yields.orElse (h.bind fun a ha => Yields.pure ?_) (Yields.pure ?_)
  · rintro b ⟨⟩
    exact ha
  · rintro b ⟨⟩

end Parser

namespace Grammar

open FieldScript.Parser FieldScript.Source

variable {α β : Type} {P : α → Prop} {Q : β → Prop}

/-- A part that has the property if there is no fault in it. -/
def Sound (P : α → Prop) (part : Checked α) : Prop := ∀ a, part = .ok a → P a

theorem Sound.pure {a : α} (h : P a) : Sound P (pure a) := by
  intro b hb
  exact pure_eq_ok.mp hb ▸ h

theorem Sound.bind {part : Checked α} {f : α → Checked β} (h : Sound P part)
    (h' : ∀ a, P a → Sound Q (f a)) : Sound Q (part >>= f) := by
  intro b hb
  obtain ⟨a, ha, hb⟩ := bind_eq_ok.mp hb
  exact h' a (h a ha) b hb

theorem Sound.map {part : Checked α} {f : α → β} (h : Sound P part) (h' : ∀ a, P a → Q (f a)) :
    Sound Q (part.map f) := by
  cases part with
  | error fault =>
    intro b hb
    cases hb
  | ok a => exact Sound.pure (h' a (h a rfl))

theorem Sound.mapM {parts : List (Checked α)} (h : ∀ part ∈ parts, Sound P part) :
    Sound (fun as => ∀ a ∈ as, P a) (parts.mapM id) := by
  induction parts with
  | nil => exact Sound.pure (by simp)
  | cons part parts ih =>
    obtain ⟨hpart, hparts⟩ := List.forall_mem_cons.mp h
    rw [List.mapM_cons]
    exact hpart.bind fun a ha => (ih hparts).bind fun as has =>
      Sound.pure (List.forall_mem_cons.mpr ⟨ha, has⟩)

theorem yields_nameText : nameText.Yields IsName :=
  (yields_lexeme isName_of_name?).named.bind fun _ hname => Yields.pure hname

theorem sound_numberLeaf {text : List Char} (h : IsNumber (String.ofList text)) (extent : Extent) :
    Sound Leaf.WellFormed (numberLeaf text extent) := by
  intro leaf hleaf
  simp only [numberLeaf] at hleaf
  split at hleaf
  · rename_i value hvalue
    obtain ⟨hfinite, rfl⟩ := ite_eq_ok.mp hleaf
    exact ⟨h, hvalue, hfinite⟩
  · cases hleaf

theorem yields_number : number.Yields (Sound Leaf.WellFormed) :=
  (yields_lexeme isNumber_of_number?).named.located.bind fun result hnumber =>
    Yields.pure (sound_numberLeaf hnumber result.2)

theorem yields_operand : operand.Yields (Sound Leaf.WellFormed) := by
  refine yields_number.orElse (Yields.orElse ?_ ?_)
  · exact Yields.after fun _ => Yields.pure (Sound.pure trivial)
  · exact yields_nameText.bind fun name hname => Yields.pure (Sound.pure hname)

theorem sound_chain {ops : List (α × Checked β)} (h : ∀ step ∈ ops, Sound Q step.2) :
    Sound (fun steps => steps.length = ops.length ∧ ∀ step ∈ steps, Q step.2) (chain ops) := by
  induction ops with
  | nil => exact Sound.pure (by simp)
  | cons step ops ih =>
    obtain ⟨hstep, hops⟩ := List.forall_mem_cons.mp h
    exact hstep.bind fun part hpart => (ih hops).bind fun steps hsteps =>
      Sound.pure ⟨by simp [hsteps.1], List.forall_mem_cons.mpr ⟨hpart, hsteps.2⟩⟩

theorem yields_arith : arith.Yields (Sound Tree.WellFormedValue) := by
  refine Yields.named (yields_operand.bind fun first hfirst => ?_)
  have hstep : Parser.Yields (do skip; let op ← arithOp; skip; let part ← operand; return (op, part))
      fun step => Sound Leaf.WellFormed step.2 :=
    Yields.after fun _ => Yields.after fun _ => Yields.after fun _ =>
      yields_operand.bind fun _ hpart => Yields.pure hpart
  refine hstep.oneOrMore.bind fun ops hops => Yields.pure ?_
  refine hfirst.bind fun leaf hleaf => (sound_chain hops.2).bind fun steps hsteps => Sound.pure ?_
  have hnonempty : steps ≠ [] := by
    rw [← List.length_pos_iff, hsteps.1, List.length_pos_iff]
    exact hops.1
  exact ⟨rfl, hleaf, hnonempty, hsteps.2⟩

theorem yields_test : test.Yields (Sound Test.WellFormed) :=
  Yields.named <| yields_operand.bind fun _ hleft => Yields.after fun _ => Yields.after fun _ =>
    Yields.after fun _ => yields_operand.bind fun _ hright => Yields.pure <|
      hleft.bind fun _ hleft => hright.bind fun _ hright => Sound.pure ⟨hleft, hright⟩

theorem yields_tests : tests.Yields (Sound TestChain.WellFormed) := by
  refine Yields.named (yields_test.bind fun first hfirst => ?_)
  have hstep : Parser.Yields (do skip; let op ← boolOp; skip; let part ← test; return (op, part))
      fun step => Sound Test.WellFormed step.2 :=
    Yields.after fun _ => Yields.after fun _ => Yields.after fun _ =>
      yields_test.bind fun _ hpart => Yields.pure hpart
  refine hstep.many.bind fun ops hops => Yields.pure ?_
  exact hfirst.bind fun leaf hleaf => (sound_chain hops).bind fun steps hsteps =>
    Sound.pure ⟨hleaf, hsteps.2⟩

theorem wellFormedValue_call {callee : Callee} {args : List Tree} (hcallee : callee.WellFormed)
    (hchecked : Tree.CallChecked (.call callee args)) (hargs : ∀ arg ∈ args, arg.WellFormedValue) :
    (Tree.call callee args).WellFormedValue :=
  ⟨rfl, Tree.every_call.mpr
    ⟨⟨hcallee, hchecked, fun arg harg => (hargs arg harg).value⟩,
      fun arg harg => (hargs arg harg).nodes⟩⟩

theorem sound_buildCall {keyword : String} {parts : List (Checked Tree)} {extent : Extent}
    (hkeyword : IsName keyword) (h : ∀ part ∈ parts, Sound Tree.WellFormedValue part) :
    Sound Tree.WellFormedValue (buildCall keyword parts extent) := by
  refine (Sound.mapM h).bind fun args hargs tree htree => ?_
  cases hop : Builtin.ofKeyword? keyword with
  | none =>
    simp only [Tree.buildCall, hop] at htree
    cases htree
    exact wellFormedValue_call ⟨hkeyword, hop⟩ trivial hargs
  | some op =>
    simp only [Tree.buildCall, hop, Tree.buildBuiltin] at htree
    cases hchecked : op.checkArgs args with
    | error e =>
      rw [hchecked] at htree
      cases htree
    | ok checked =>
      rw [hchecked] at htree
      cases htree
      exact wellFormedValue_call trivial hchecked hargs

theorem yields_arguments {value : Parser (Checked Tree)}
    (h : value.Yields (Sound Tree.WellFormedValue)) :
    (arguments value).Yields fun parts => ∀ part ∈ parts, Sound Tree.WellFormedValue part := by
  refine h.bind fun first hfirst => ?_
  have hnext : Parser.Yields (do skip; symbol ","; skip; value) (Sound Tree.WellFormedValue) :=
    Yields.after fun _ => Yields.after fun _ => Yields.after fun _ => h
  exact hnext.many.bind fun rest hrest => Yields.pure (List.forall_mem_cons.mpr ⟨hfirst, hrest⟩)

theorem yields_call {value : Parser (Checked Tree)}
    (h : value.Yields (Sound Tree.WellFormedValue)) :
    (call value).Yields (Sound Tree.WellFormedValue) := by
  have hparts : Parser.Yields
      (do
        let keyword ← nameText
        skip
        symbol "("
        skip
        let args ← optional (arguments value)
        skip
        symbol ")"
        return (keyword, args.getD []))
      fun parts => IsName parts.1 ∧ ∀ part ∈ parts.2, Sound Tree.WellFormedValue part := by
    refine yields_nameText.bind fun keyword hkeyword => Yields.after fun _ => Yields.after fun _ =>
      Yields.after fun _ => (yields_arguments h).optional.bind fun args hargs =>
        Yields.after fun _ => Yields.after fun _ => Yields.pure ⟨hkeyword, ?_⟩
    cases args with
    | none => simp
    | some parts => exact hargs parts rfl
  exact hparts.named.located.bind fun result hresult =>
    Yields.pure (sound_buildCall hresult.1 hresult.2)

theorem yields_valueOver {inner : Parser (Checked Tree)}
    (h : inner.Yields (Sound Tree.WellFormedValue)) :
    (valueOver inner).Yields (Sound Tree.WellFormedValue) := by
  refine (yields_call h).orElse (Yields.orElse ?_ (yields_arith.orElse ?_))
  · exact yields_tests.bind fun _ hchain => Yields.pure (hchain.map fun _ hchain => ⟨rfl, hchain⟩)
  · exact yields_operand.bind fun _ hleaf => Yields.pure (hleaf.map fun _ hleaf => ⟨rfl, hleaf⟩)

theorem yields_value (levels : Nat) : (value levels).Yields (Sound Tree.WellFormedValue) := by
  induction levels with
  | zero => exact yields_valueOver (yields_fail _)
  | succ levels ih => exact yields_valueOver ih

section Statements

variable {value : Parser (Checked Tree)} (h : value.Yields (Sound Tree.WellFormedValue))

include h

theorem yields_assignment : (assignment value).Yields fun parts =>
    parts.1.IsTarget ∧ Sound Tree.WellFormedValue parts.2 :=
  Yields.named <| yields_nameText.bind fun _ hname => Yields.after fun _ => Yields.after fun _ =>
    Yields.after fun _ => h.bind fun _ hvalue => Yields.pure ⟨hname, hvalue⟩

theorem yields_conditional : (conditional value).Yields (Sound Tree.WellFormedStatement) := by
  refine Yields.named <| Yields.after fun _ => Yields.after fun _ => Yields.after fun _ =>
    Yields.after fun _ => yields_tests.bind fun test htest => Yields.after fun _ =>
      Yields.after fun _ => Yields.after fun _ => Yields.after fun _ => Yields.after fun _ =>
        (yields_assignment h).bind fun first hfirst => ?_
  have helse : Parser.Yields (do skip; keyword .elseWord "else"; skip; assignment value)
      fun parts => parts.1.IsTarget ∧ Sound Tree.WellFormedValue parts.2 :=
    Yields.after fun _ => Yields.after fun _ => Yields.after fun _ => yields_assignment h
  refine helse.optional.bind fun other hother => Yields.pure <|
    htest.bind fun test htest => hfirst.2.bind fun result hresult => ?_
  rcases other with _ | ⟨target', result'⟩
  · exact Sound.pure ⟨rfl, ⟨htest, hfirst.1, hresult.value⟩, hresult.nodes⟩
  · obtain ⟨htarget', hresult'⟩ := hother _ rfl
    exact hresult'.bind fun value' hvalue' => Sound.pure
      ⟨rfl, ⟨htest, ⟨hfirst.1, hresult.value⟩, htarget', hvalue'.value⟩, hresult.nodes,
        hvalue'.nodes⟩

theorem yields_statement : (statement value).Yields (Sound Tree.WellFormedStatement) :=
  Yields.named <| (yields_conditional h).orElse <| (yields_assignment h).bind fun _ hparts =>
    Yields.pure <| hparts.2.map fun _ hvalue =>
      ⟨rfl, ⟨hparts.1, hvalue.value⟩, hvalue.nodes⟩

theorem yields_script : (script value).Yields fun parts =>
    ∀ part ∈ parts, Sound Tree.WellFormedStatement part := by
  have hnext : Parser.Yields (do let _ ← oneOrMore semicolon; skip; statement value)
      (Sound Tree.WellFormedStatement) :=
    Yields.after fun _ => Yields.after fun _ => yields_statement h
  have hrow : Parser.Yields (do
      skip
      let first ← statement value
      let rest ← many do
        let _ ← oneOrMore semicolon
        skip
        statement value
      let _ ← many semicolon
      return first :: rest) fun parts => ∀ part ∈ parts, Sound Tree.WellFormedStatement part :=
    Yields.after fun _ => (yields_statement h).bind fun _ hfirst => hnext.many.bind fun _ hrest =>
      Yields.after fun _ => Yields.pure (List.forall_mem_cons.mpr ⟨hfirst, hrest⟩)
  refine Yields.named <| Yields.after fun _ => hrow.optional.bind fun parts hparts =>
    Yields.after fun _ => Yields.after fun _ => Yields.pure ?_
  cases parts with
  | none => simp
  | some parts => exact hparts parts rfl

theorem yields_expression : (expression value).Yields (Sound Tree.WellFormedValue) :=
  Yields.named <| Yields.after fun _ => h.bind fun _ hvalue => Yields.after fun _ =>
    Yields.after fun _ => Yields.pure hvalue

end Statements

end Grammar

namespace Parse

variable {α : Type} {source : String} {maxDepth : Nat}

theorem read_eq_ok {parser : Nat → Parser α} {a : α} : read parser source maxDepth = .ok a ↔
    Source.nesting source.toList ≤ maxDepth ∧
      ∃ rest, (parser (levels source.toList)).parse source.toList = some (a, rest) := by
  rw [← Source.tooDeep_eq_none]
  simp only [read]
  cases Source.tooDeep maxDepth source.toList with
  | some span => simp
  | none =>
    rcases (parser (levels source.toList)).parse source.toList with _ | ⟨result, rest⟩
    · simp
    · simp

theorem checked_eq_ok {part : Checked α} {a : α} : checked source part = .ok a ↔ part = .ok a := by
  cases part <;> simp [checked]

/-- By the grammar the text is a script of these statements, however deep its parentheses nest. -/
def Spells (source : List Char) (trees : List Tree) : Prop :=
  ∃ parts rest, (Grammar.script (Grammar.value (levels source))).parse source = some (parts, rest) ∧
    parts.mapM id = .ok trees

theorem script_eq_ok {trees : List Tree} : script source maxDepth = .ok trees ↔
    Source.nesting source.toList ≤ maxDepth ∧ Spells source.toList trees := by
  unfold script
  simp only [bind_eq_ok, read_eq_ok, checked_eq_ok]
  constructor
  · rintro ⟨parts, ⟨hdepth, rest, hread⟩, hparts⟩
    exact ⟨hdepth, parts, rest, hread, hparts⟩
  · rintro ⟨hdepth, parts, rest, hread, hparts⟩
    exact ⟨parts, ⟨hdepth, rest, hread⟩, hparts⟩

theorem script_wellFormed {trees : List Tree} (h : script source maxDepth = .ok trees) :
    ∀ tree ∈ trees, tree.WellFormedStatement := by
  obtain ⟨_, parts, rest, hread, htrees⟩ := script_eq_ok.mp h
  exact Grammar.Sound.mapM (Grammar.yields_script (Grammar.yields_value _) _ _ _ hread) trees htrees

theorem expression_wellFormed {tree : Tree} (h : expression source = .ok tree) :
    tree.WellFormedValue := by
  obtain ⟨part, hread, hchecked⟩ := bind_eq_ok.mp h
  obtain ⟨_, rest, hparse⟩ := read_eq_ok.mp hread
  exact Grammar.yields_expression (Grammar.yields_value _) _ _ _ hparse tree
    (checked_eq_ok.mp hchecked)

end Parse

end FieldScript
