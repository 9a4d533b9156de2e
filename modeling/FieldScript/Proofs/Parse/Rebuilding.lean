import FieldScript.Proofs.Grammar.Mirrors
import FieldScript.Proofs.Grammar.Statements
import FieldScript.Proofs.Outcome
import FieldScript.Proofs.Parse.Building
import FieldScript.Proofs.Source.Pieces

/-! The two stages against the grammar that builds as it reads, rule by rule. Every rule leaves the
phrases that the builder expects, so of its refusals only those remain that stand for a fault in the
source: a number beyond the range, or a built-in with arguments it cannot use. -/
namespace FieldScript

open Outcome Source

namespace Grammar

open FieldScript.Parser

/-- What the arguments of a call are read with, in a value of so many levels. -/
def argument : Nat → Parser (Checked Tree)
  | 0 => fail
  | levels + 1 => value levels

end Grammar

inductive FaultAt (source : List Char) : Fault → Prop where
  | number {label : String} {extent : Parser.Extent} (place : extent.Holds source label.toList)
    (number : IsNumber label)
    (beyond : ∀ x, Binary64.ofText? label = some x → x.isFinite = false) :
    FaultAt source (.number label extent)
  | call {op : Builtin} {levels : Nat} {parts : List (Checked Tree)} {args : List Tree}
    {between : List Char} {cause : EvalError} {extent : Parser.Extent}
    (place : extent.Holds source (op.keyword.toList ++ (between ++ [')'])))
    (read : (Grammar.callParts (Grammar.argument levels)).parse extent.before =
      some ((op.keyword, parts), extent.after))
    (sound : parts.mapM id = .ok args) (refused : op.checkArgs args = .error cause) :
    FaultAt source (.call cause extent)

/-- What was built is the part that was read, or is refused for the fault in that part, and the fault
lies in the source. -/
structure Rebuilds {α : Type} (source : String) (built : Built α) (part : Checked α) : Prop where
  same : built = (Parse.checked source part).mapError .ofParse
  located : ∀ fault, part = .error fault → FaultAt source.toList fault

namespace Rebuilds

variable {α β : Type} {source : String} {built : Built α} {part : Checked α}

theorem pure (a : α) : Rebuilds source (.ok a) (.ok a) := ⟨rfl, nofun⟩

theorem fault {fault : Fault} (h : FaultAt source.toList fault) :
    Rebuilds source (α := α) (.error (.ofParse (Parse.ofFault source fault))) (.error fault) := by
  refine ⟨rfl, ?_⟩
  rintro _ ⟨⟩
  exact h

theorem bind {f : α → Built β} {g : α → Checked β} (h : Rebuilds source built part)
    (h' : ∀ a, part = .ok a → Rebuilds source (f a) (g a)) :
    Rebuilds source (built >>= f) (part >>= g) := by
  obtain ⟨rfl, located⟩ := h
  cases part with
  | error fault => exact Rebuilds.fault (located fault rfl)
  | ok a => exact h' a rfl

theorem map {f : α → β} (h : Rebuilds source built part) :
    Rebuilds source (built >>= fun a => Pure.pure (f a)) (part.map f) :=
  h.bind fun a _ => Rebuilds.pure (f a)

theorem mapM_cons {build : Phrase → Built α} {phrase : Phrase} {phrases : List Phrase}
    {parts : List (Checked α)} (h : Rebuilds source (build phrase) part)
    (h' : Rebuilds source (phrases.mapM build) (parts.mapM id)) :
    Rebuilds source ((phrase :: phrases).mapM build) ((part :: parts).mapM id) := by
  rw [List.mapM_cons, List.mapM_cons]
  exact h.bind fun a _ => h'.bind fun as _ => Rebuilds.pure (a :: as)

end Rebuilds

namespace Building

open FieldScript.Parser FieldScript.Phrases

variable {α β : Type} {source : String}

def Forms (source : String) (rules : List Rule) (build : Phrase → Built α) (part : Checked α)
    (phrases : List Phrase) : Prop :=
  ∃ phrase, phrases = [phrase] ∧ phrase.rule ∈ rules ∧ Rebuilds source (build phrase) part

theorem next_cons (span : Span) (phrase : Phrase) (rest : List Phrase) :
    next source span (phrase :: rest) = pure (phrase, rest) := rfl

theorem mirrors_skip : Mirrors source.toList (fun _ _ _ => True) skip skip :=
  mirrors_token fun {cs piece rest} hread => by
    obtain ⟨hpiece, hrest⟩ := Prod.mk.inj (Option.some.inj hread)
    rw [← hpiece, ← hrest]
    exact ⟨append_splitBlanks false cs, trivial⟩

theorem mirrors_symbol (text : String) :
    Mirrors source.toList (fun _ _ piece => piece = text.toList) (symbol text) (symbol text) :=
  mirrors_token fun hread => (literal?_eq_some hread).symm

theorem mirrors_nameText :
    Mirrors source.toList (fun name phrases piece => ∃ phrase, phrases = [phrase] ∧
      phrase.rule = .name ∧ phrase.text = name ∧ piece = name.toList) Grammar.nameText name :=
  (mirrors_atom (mirrors_lexeme (Q := fun _ => True) fun hread =>
    ⟨append_of_name? hread, trivial⟩)).map_left fun word phrases piece h => by
      obtain ⟨phrase, hphrase, hmarks, _, ⟨rfl, _⟩, _⟩ := h
      exact ⟨phrase, hphrase, hmarks.rule, hmarks.text_eq, String.toList_ofList.symm⟩

theorem rebuilds_number {phrase : Phrase} {text : List Char}
    (h : Marks phrase .number source.toList text) (number : IsNumber (String.ofList text)) :
    Rebuilds source (leaf source phrase) (Grammar.numberLeaf text phrase.extent) := by
  have place : phrase.extent.Holds source.toList (String.ofList text).toList := by
    rw [String.toList_ofList]
    exact h.extent
  simp only [leaf, h.rule, h.text_eq, Grammar.numberLeaf]
  cases hvalue : Binary64.ofText? (String.ofList text) with
  | none => exact .fault (.number place number (by simp [hvalue]))
  | some value =>
    simp only
    cases hfinite : value.isFinite with
    | true => exact .pure _
    | false => exact .fault (.number place number (by simp [hvalue, hfinite]))

theorem mirrors_number :
    Mirrors source.toList (fun part phrases _ => Forms source [.number] (leaf source) part phrases)
      Grammar.number number := by
  -- One of the two takes the place from the parser, the other from the phrase: `hextent` joins them.
  have hread : Mirrors source.toList
      (fun a b piece => (a = piece ∧ b = piece) ∧ IsNumber (String.ofList piece))
      (lexeme number?) (lexeme number?) :=
    mirrors_lexeme fun hread => ⟨append_of_number? hread, isNumber_of_number? hread⟩
  refine (mirrors_located_phrase (hread.map_right
    (S := fun a _ piece => a = piece ∧ IsNumber (String.ofList piece))
      fun _ _ _ h => ⟨h.1.1, h.2⟩)).map_left fun result _ _ h => ?_
  obtain ⟨phrase, rfl, hmarks, hextent, _, rfl, number⟩ := h
  rw [← hextent]
  exact ⟨phrase, rfl, List.mem_singleton.mpr hmarks.rule, rebuilds_number hmarks number⟩

theorem mirrors_keyword (rule : Rule) (spelled : String) :
    Mirrors source.toList (fun _ phrases _ => ∃ phrase, phrases = [phrase] ∧ phrase.rule = rule)
      (Grammar.keyword rule spelled) (keyword rule spelled) :=
  (mirrors_atom (mirrors_token (Q := fun _ => True) fun hread =>
    ⟨append_of_exactly? hread, trivial⟩)).mono fun _ _ _ ⟨phrase, hphrase, hmarks, _⟩ =>
      ⟨phrase, hphrase, hmarks.rule⟩

theorem mirrors_operand :
    Mirrors source.toList
      (fun part phrases _ => Forms source [.number, .missing, .name] (leaf source) part phrases)
      Grammar.operand operand := by
  refine (mirrors_number.mono ?_).orElse (((mirrors_keyword _ _).map_left ?_).orElse
    (mirrors_nameText.map_left ?_))
  · rintro part _ _ ⟨phrase, rfl, hrule, hleaf⟩
    exact ⟨phrase, rfl, by simp [List.mem_singleton.mp hrule], hleaf⟩
  · rintro _ _ _ ⟨phrase, rfl, hrule⟩
    refine ⟨phrase, rfl, by simp [hrule], ?_⟩
    simp only [leaf, hrule]
    exact .pure _
  · rintro _ _ _ ⟨phrase, rfl, hrule, rfl, _⟩
    refine ⟨phrase, rfl, by simp [hrule], ?_⟩
    simp only [leaf, hrule]
    exact .pure _

def Signs (build : Phrase → Built α) (op : α) (phrases : List Phrase) : Prop :=
  ∃ phrase, phrases = [phrase] ∧ build phrase = .ok op

theorem mirrors_sign {rule : Rule} {text : String} {a : α} {build : Phrase → Built α}
    (h : ∀ phrase, phrase.rule = rule → build phrase = .ok a) :
    Mirrors source.toList (fun b phrases _ => Signs build b phrases) (Grammar.sign rule text a)
      (sign rule text) :=
  (mirrors_atom (mirrors_symbol text)).map_left fun _ _ _ ⟨phrase, hphrase, hmarks, _⟩ =>
    ⟨phrase, hphrase, h phrase hmarks.rule⟩

theorem mirrors_arithOp :
    Mirrors source.toList (fun op phrases _ => Signs (arithOp source) op phrases) Grammar.arithOp
      Phrases.arithOp := by
  refine (mirrors_sign ?_).orElse ((mirrors_sign ?_).orElse ((mirrors_sign ?_).orElse
    (mirrors_sign ?_)))
  all_goals exact fun phrase hrule => by simp only [arithOp, hrule]

theorem mirrors_comparison :
    Mirrors source.toList (fun op phrases _ => Signs (comparison source) op phrases)
      Grammar.comparison Phrases.comparison := by
  refine (mirrors_sign ?_).orElse ((mirrors_sign ?_).orElse ((mirrors_sign ?_).orElse
    ((mirrors_sign ?_).orElse ((mirrors_sign ?_).orElse (mirrors_sign ?_)))))
  all_goals exact fun phrase hrule => by simp only [comparison, hrule]

theorem mirrors_boolWord {rule : Rule} {text spelled : String} {op : BoolOp}
    (h : ∀ phrase, phrase.rule = rule → boolOp source phrase = .ok op) :
    Mirrors source.toList (fun op phrases _ => Signs (boolOp source) op phrases)
      (Grammar.boolWord rule text spelled op) (boolWord rule text spelled) := by
  have hword : Mirrors source.toList (fun _ _ _ => True) (token (ignoringCase? spelled))
      (token (ignoringCase? spelled)) :=
    mirrors_token fun hread => ⟨append_of_ignoringCase? hread, trivial⟩
  have hsymbol : Mirrors source.toList (fun _ _ _ => True) (symbol text) (symbol text) :=
    (mirrors_symbol text).mono fun _ _ _ _ => trivial
  exact (mirrors_atom (hsymbol.orElse hword)).map_left fun _ _ _ ⟨phrase, hphrase, hmarks, _⟩ =>
    ⟨phrase, hphrase, h phrase hmarks.rule⟩

theorem mirrors_boolOp :
    Mirrors source.toList (fun op phrases _ => Signs (boolOp source) op phrases) Grammar.boolOp
      Phrases.boolOp := by
  refine (mirrors_boolWord ?_).orElse (mirrors_boolWord ?_)
  all_goals exact fun phrase hrule => by simp only [boolOp, hrule]

theorem mirrors_forms {rule : Rule} {p : Parser (Checked α)} {q : Parser (List Phrase)}
    {build : Phrase → Built α}
    (h : Mirrors source.toList (fun part inside _ => ∀ phrase : Phrase, phrase.rule = rule →
      phrase.inside = inside → Rebuilds source (build phrase) part) p q) :
    Mirrors source.toList (fun part phrases _ => Forms source [rule] build part phrases)
      (named rule p) (phrase rule q) :=
  (mirrors_phrase h).mono fun _ _ _ ⟨phrase, hphrase, hmarks, hbuild⟩ =>
    ⟨phrase, hphrase, List.mem_singleton.mpr hmarks.rule, hbuild phrase hmarks.rule rfl⟩

section Steps

variable {rules : List Rule} {op : Parser α} {part : Parser (Checked β)}
  {op' part' : Parser (List Phrase)} {buildOp : Phrase → Built α} {build : Phrase → Built β}

theorem mirrors_step
    (hop : Mirrors source.toList (fun a phrases _ => Signs buildOp a phrases) op op')
    (hpart : Mirrors source.toList (fun b phrases _ => Forms source rules build b phrases) part
      part') :
    Mirrors source.toList (fun joined phrases _ => ∃ sign phrase, phrases = [sign, phrase] ∧
      buildOp sign = .ok joined.1 ∧ Rebuilds source (build phrase) joined.2)
      (Grammar.step op part) (step op' part') := by
  refine mirrors_skip.bind fun _ _ _ _ => hop.bind fun a phrases _ ha =>
    mirrors_skip.bind fun _ _ _ _ => hpart.map fun b phrases' _ hb => ?_
  obtain ⟨sign, rfl, hsign⟩ := ha
  obtain ⟨phrase, rfl, _, hphrase⟩ := hb
  exact ⟨sign, phrase, rfl, hsign, hphrase⟩

def Chains (source : String) (buildOp : Phrase → Built α) (build : Phrase → Built β)
    (joined : List (α × Checked β)) (rows : List (List Phrase)) : Prop :=
  ∀ span, Rebuilds source (steps source buildOp build span rows.flatten) (Grammar.chain joined)

theorem chains_nil : Chains source buildOp build [] [] := fun _ => .pure _

theorem chains_cons {joined : α × Checked β} {others : List (α × Checked β)} {row : List Phrase}
    {rows : List (List Phrase)}
    (h : ∃ sign phrase, row = [sign, phrase] ∧ buildOp sign = .ok joined.1 ∧
      Rebuilds source (build phrase) joined.2)
    (h' : Chains source buildOp build others rows) :
    Chains source buildOp build (joined :: others) (row :: rows) := by
  obtain ⟨sign, phrase, rfl, hsign, hphrase⟩ := h
  intro span
  have hsteps : steps source buildOp build span ([sign, phrase] :: rows).flatten = (do
      let part ← build phrase
      let others ← steps source buildOp build span rows.flatten
      pure ((joined.1, part) :: others)) := by
    rw [List.flatten_cons, List.cons_append, List.singleton_append, steps, hsign]
    rfl
  rw [hsteps]
  exact hphrase.bind fun part _ => (h' span).bind fun rest _ => .pure _

end Steps

theorem arith_eq {phrase first : Phrase} {rest : List Phrase} (h : phrase.inside = first :: rest) :
    arith source phrase = (do
      let first ← leaf source first
      let rest ← steps source (arithOp source) (leaf source) (spanOf source phrase) rest
      pure ⟨first, rest⟩) := by
  simp only [arith, h, next_cons, pure_bind]

theorem mirrors_arith :
    Mirrors source.toList (fun part phrases _ => Forms source [.arith]
      (fun phrase => do return Tree.arith (← arith source phrase)) part phrases)
      Grammar.arith Phrases.arith := by
  have hrest := (mirrors_step mirrors_arithOp mirrors_operand).oneOrMore
    (S := fun joined rows _ => Chains source (arithOp source) (leaf source) joined rows) chains_nil
    fun _ _ _ _ _ _ => chains_cons
  refine mirrors_forms (mirrors_operand.bind fun first phrases _ hfirst =>
    hrest.map fun joined rows _ hrows phrase _ hinside => ?_)
  obtain ⟨operand, rfl, _, hleaf⟩ := hfirst
  rw [arith_eq hinside]
  simp only [bind_assoc, pure_bind]
  exact hleaf.bind fun first _ => (hrows _).bind fun rest _ => .pure _

theorem test_eq {phrase left op right : Phrase} {comparison' : Comparison}
    (h : phrase.inside = [left, op, right]) (h' : comparison source op = .ok comparison') :
    test source phrase = (do
      let left ← leaf source left
      let right ← leaf source right
      pure ⟨left, comparison', right⟩) := by
  have hop : comparison source op = pure comparison' := h'
  simp only [test, h, next_cons, hop, pure_bind]

theorem mirrors_test :
    Mirrors source.toList (fun part phrases _ => Forms source [.test] (test source) part phrases)
      Grammar.test Phrases.test := by
  refine mirrors_forms (mirrors_operand.bind fun left _ _ hleft => mirrors_skip.bind fun _ _ _ _ =>
    mirrors_comparison.bind fun op _ _ hop => mirrors_skip.bind fun _ _ _ _ =>
      mirrors_operand.map fun right _ _ hright phrase _ hinside => ?_)
  obtain ⟨operand, rfl, _, hleaf⟩ := hleft
  obtain ⟨sign, rfl, hsign⟩ := hop
  obtain ⟨operand', rfl, _, hleaf'⟩ := hright
  rw [test_eq hinside hsign]
  exact hleaf.bind fun left _ => hleaf'.bind fun right _ => .pure _

theorem tests_eq {phrase first : Phrase} {rest : List Phrase} (h : phrase.inside = first :: rest) :
    tests source phrase = (do
      let first ← test source first
      let rest ← steps source (boolOp source) (test source) (spanOf source phrase) rest
      pure ⟨first, rest⟩) := by
  simp only [tests, h, next_cons, pure_bind]

theorem mirrors_tests :
    Mirrors source.toList (fun part phrases _ => Forms source [.tests] (tests source) part phrases)
      Grammar.tests Phrases.tests := by
  have hrest := (mirrors_step mirrors_boolOp mirrors_test).many
    (S := fun joined rows _ => Chains source (boolOp source) (test source) joined rows) chains_nil
    fun _ _ _ _ _ _ => chains_cons
  refine mirrors_forms (mirrors_test.bind fun first phrases _ hfirst =>
    hrest.map fun joined rows _ hrows phrase _ hinside => ?_)
  obtain ⟨test, rfl, _, htest⟩ := hfirst
  rw [tests_eq hinside]
  exact htest.bind fun first _ => (hrows _).bind fun rest _ => .pure _

section Values

variable {phrase : Phrase} {tree : Tree}

theorem values_eq (phrases : List Phrase) :
    values source phrases = phrases.mapM (value source) := by
  induction phrases with
  | nil => rfl
  | cons phrase rest ih => rw [values, ih, List.mapM_cons]

theorem value_call {keyword : Phrase} {args : List Phrase} (h : phrase.rule = .call)
    (h' : phrase.inside = keyword :: args) :
    value source phrase = (do
      let args ← args.mapM (value source)
      call source (spanOf source phrase) keyword.text args) := by
  obtain ⟨rule, extent, inside⟩ := phrase
  obtain rfl : rule = .call := h
  obtain rfl : inside = keyword :: args := h'
  rw [value, values_eq]
  rfl

theorem value_tests (h : phrase.rule = .tests) :
    value source phrase = (do return Tree.tests (← tests source phrase)) := by
  obtain ⟨rule, extent, inside⟩ := phrase
  obtain rfl : rule = .tests := h
  rw [value]

theorem value_arith (h : phrase.rule = .arith) :
    value source phrase = (do return Tree.arith (← arith source phrase)) := by
  obtain ⟨rule, extent, inside⟩ := phrase
  obtain rfl : rule = .arith := h
  rw [value]

theorem value_leaf (h : phrase.rule ∈ [.number, .missing, .name]) :
    value source phrase = (do return Tree.leaf (← leaf source phrase)) := by
  obtain ⟨rule, extent, inside⟩ := phrase
  have hrule : rule ∈ [.number, .missing, .name] := h
  simp only [List.mem_cons, List.not_mem_nil, or_false] at hrule
  rcases hrule with rfl | rfl | rfl <;> rw [value] <;> nofun

theorem buildCall_cases (keyword : String) (args : List Tree) :
    (∃ callee, Tree.buildCall keyword args = .ok (.call callee args)) ∨
      ∃ (op : Builtin) (cause : EvalError), op.keyword = keyword ∧
        op.checkArgs args = .error cause ∧ Tree.buildCall keyword args = .error cause := by
  unfold Tree.buildCall
  cases hop : Builtin.ofKeyword? keyword with
  | none => exact .inl ⟨.user keyword, rfl⟩
  | some op =>
    have hkeyword : op.keyword = keyword := by simpa using List.find?_some hop
    simp only [Tree.buildBuiltin]
    cases hchecked : op.checkArgs args with
    | ok checked => exact .inl ⟨.builtin op, rfl⟩
    | error cause => exact .inr ⟨op, cause, hkeyword, hchecked, rfl⟩

theorem isStatement_call {span : Span} {keyword : String} {args : List Tree}
    (h : call source span keyword args = .ok tree) : tree.isStatement = false := by
  unfold call at h
  rcases buildCall_cases keyword args with ⟨callee, hok⟩ | ⟨_, _, _, _, herror⟩
  · rw [hok] at h
    cases h
    rfl
  · rw [herror] at h
    cases h

theorem isStatement_value (h : value source phrase = .ok tree) : tree.isStatement = false := by
  unfold value at h
  split at h
  · obtain ⟨args, _, h⟩ := bind_eq_ok.mp h
    exact isStatement_call h
  · cases h
  all_goals
    obtain ⟨_, _, h⟩ := bind_eq_ok.mp h
    cases h
    rfl

def Values (source : String) (part : Checked Tree) (phrases : List Phrase) : Prop :=
  ∃ phrase, phrases = [phrase] ∧ Rebuilds source (value source phrase) part

def Rows (source : String) (parts : List (Checked Tree)) (phrases : List Phrase) : Prop :=
  Rebuilds source (phrases.mapM (value source)) (parts.mapM id)

theorem rows_cons {part : Checked Tree} {parts : List (Checked Tree)}
    {first phrases : List Phrase} (h : Values source part first) (h' : Rows source parts phrases) :
    Rows source (part :: parts) (first ++ phrases) := by
  obtain ⟨phrase, rfl, hphrase⟩ := h
  exact hphrase.mapM_cons h'

section Calls

variable {inner : Parser (Checked Tree)} {inner' : Parser (List Phrase)}
  (h : Mirrors source.toList (fun part phrases _ => Values source part phrases) inner inner')

include h

theorem mirrors_arguments :
    Mirrors source.toList (fun parts phrases _ => Rows source parts phrases)
      (Grammar.arguments inner) (arguments inner') := by
  have hstep : Mirrors source.toList (fun part phrases _ => Values source part phrases)
      (Grammar.argStep inner) (argStep inner') :=
    mirrors_skip.bind fun _ _ _ _ => (mirrors_symbol ",").bind fun _ _ _ _ =>
      mirrors_skip.bind fun _ _ _ _ => h
  have hrest := hstep.many (S := fun parts rows _ => Rows source parts rows.flatten) (.pure _)
    fun _ _ _ _ _ _ => rows_cons
  rw [Grammar.arguments_eq]
  exact h.bind fun first _ _ hfirst => hrest.map fun parts rows _ hrows => rows_cons hfirst hrows

theorem mirrors_callParts :
    Mirrors source.toList (fun parts inside piece => ∃ keyword args, inside = keyword :: args ∧
      keyword.text = parts.1 ∧ Rows source parts.2 args ∧
        ∃ between, piece = parts.1.toList ++ (between ++ [')']))
      (Grammar.callParts inner) (callParts inner') := by
  have hargs := (mirrors_arguments h).optional
    (S := fun parts phrases _ => Rows source (parts.getD []) (phrases.getD []))
    (.pure _) fun _ _ _ hrow => hrow
  refine mirrors_nameText.bind fun keyword phrases x hkeyword => mirrors_skip.bind fun _ _ u _ =>
    (mirrors_symbol "(").bind fun _ _ v _ => mirrors_skip.bind fun _ _ w _ =>
      hargs.bind fun parts args y hparts => mirrors_skip.bind fun _ _ z _ =>
        (mirrors_symbol ")").map fun _ _ closing hclosing => ?_
  obtain ⟨phrase, rfl, _, htext, rfl⟩ := hkeyword
  subst hclosing
  exact ⟨phrase, args.getD [], rfl, htext, hparts, u ++ (v ++ (w ++ (y ++ z))), by simp⟩

end Calls

theorem rebuilds_call {levels : Nat} {parts : String × List (Checked Tree)} {piece : List Char}
    {keyword : Phrase} {args : List Phrase} {between : List Char}
    (hmarks : Marks phrase .call source.toList piece)
    (read : (Grammar.callParts (Grammar.argument levels)).parse phrase.extent.before =
      some (parts, phrase.extent.after))
    (hinside : phrase.inside = keyword :: args) (htext : keyword.text = parts.1)
    (hargs : Rows source parts.2 args) (hpiece : piece = parts.1.toList ++ (between ++ [')'])) :
    Rebuilds source (value source phrase) (Grammar.buildCall parts.1 parts.2 phrase.extent) := by
  rw [value_call hmarks.rule hinside]
  -- A fault in an argument comes first, so where the call is refused all of them are sound.
  refine hargs.bind fun trees htrees => ?_
  rw [htext]
  unfold call
  rcases buildCall_cases parts.1 trees with ⟨callee, hok⟩ | ⟨op, cause, hop, hrefused, herror⟩
  · rw [hok]
    exact .pure _
  · rw [herror]
    obtain ⟨word, parts⟩ := parts
    obtain rfl : op.keyword = word := hop
    exact .fault (.call (hpiece ▸ hmarks.extent) read htrees hrefused)

theorem mirrors_valueOver {inner' : Parser (List Phrase)} (levels : Nat)
    (h : Mirrors source.toList (fun part phrases _ => Values source part phrases)
      (Grammar.argument levels) inner') :
    Mirrors source.toList (fun part phrases _ => Values source part phrases)
      (Grammar.valueOver (Grammar.argument levels)) (valueOver inner') := by
  refine Mirrors.orElse ?_ (Mirrors.orElse ?_ (Mirrors.orElse ?_ ?_))
  · rw [Grammar.call_eq]
    refine (mirrors_located_phrase (mirrors_callParts h)).map_left fun result _ _ hcall => ?_
    obtain ⟨phrase, rfl, hmarks, hextent, read, keyword, args, hinside, htext, hargs, between,
      hpiece⟩ := hcall
    rw [← hextent] at read ⊢
    exact ⟨phrase, rfl, rebuilds_call hmarks read hinside htext hargs hpiece⟩
  · refine mirrors_tests.map_left fun chain _ _ ⟨phrase, hphrase, hrule, hchain⟩ =>
      ⟨phrase, hphrase, ?_⟩
    rw [value_tests (List.mem_singleton.mp hrule)]
    exact hchain.map
  · refine mirrors_arith.mono fun part _ _ ⟨phrase, hphrase, hrule, hpart⟩ =>
      ⟨phrase, hphrase, ?_⟩
    rw [value_arith (List.mem_singleton.mp hrule)]
    exact hpart
  · refine mirrors_operand.map_left fun leaf _ _ ⟨phrase, hphrase, hrule, hleaf⟩ =>
      ⟨phrase, hphrase, ?_⟩
    rw [value_leaf hrule]
    exact hleaf.map

theorem mirrors_value (levels : Nat) :
    Mirrors source.toList (fun part phrases _ => Values source part phrases)
      (Grammar.value levels) (Phrases.value levels) := by
  -- The arguments of a call are values of one level less; those of none are not read at all.
  induction levels with
  | zero => exact mirrors_valueOver 0 (mirrors_fail _)
  | succ levels ih => exact mirrors_valueOver (levels + 1) ih

end Values

end Building

end FieldScript
