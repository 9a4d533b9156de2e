import FieldScript.Proofs.Grammar.Alike

/-! The rules of the grammar do not tell apart two texts that go on alike, with the same lexemes and
something between them at the same places. The results agree but for the places of their faults. -/
namespace FieldScript

open Outcome

namespace Grammar

open FieldScript.Parser FieldScript.Source FieldScript.Tree

variable {α β : Type} {room : Nat}

/-- Texts that neither lexemes nor what stands between them tell apart. -/
structure Indistinct (T : List Char → List Char → Prop) : Prop where
  alike : GoOnAlike isGap T
  blanks : ∀ {cs ds}, T cs ds → T (unblanked cs) (unblanked ds)
  still : ∀ {cs ds}, T cs ds → unblanked cs = cs → unblanked ds = ds
  unmarked : ∀ {cs ds}, T cs ds → '#' ∉ ds

structure IndistinctThroughout (T : List Char → List Char → Prop) : Prop extends Indistinct T where
  separated : GoOnAlike isSkipped T

theorem unblanked_suffix (cs : List Char) : unblanked cs <:+ cs := ⟨_, append_splitBlanks false cs⟩

theorem numberLeaf_agree (text : List Char) (extent extent' : Extent) :
    Agree (numberLeaf text extent) (numberLeaf text extent') := by
  intro leaf
  simp only [numberLeaf]
  cases Binary64.ofText? (String.ofList text) with
  | none => simp
  | some value => cases hfinite : value.isFinite <;> simp [hfinite]

abbrev AgreeRows (xs ys : List (Checked Tree)) : Prop := Agree (xs.mapM id) (ys.mapM id)

theorem buildCall_agree {xs ys : List (Checked Tree)} (h : AgreeRows xs ys) (keyword : String)
    (extent extent' : Extent) :
    Agree (buildCall keyword xs extent) (buildCall keyword ys extent') := by
  refine h.bind fun args tree => ?_
  cases Tree.buildCall keyword args with
  | ok built => exact Iff.rfl
  | error cause => simp

inductive AgreeBranches : Option (Leaf × Checked Tree) → Option (Leaf × Checked Tree) → Prop where
  | absent : AgreeBranches none none
  | given {target : Leaf} {x y : Checked Tree} (agree : Agree x y) :
    AgreeBranches (some (target, x)) (some (target, y))

theorem branches_agree {test test' : Checked TestChain} {target : Leaf} {x y : Checked Tree}
    {other other' : Option (Leaf × Checked Tree)} (htest : Agree test test') (hpart : Agree x y)
    (hother : AgreeBranches other other') :
    Agree (branches test target x other) (branches test' target y other') := by
  refine htest.bind fun _ => hpart.bind fun _ => ?_
  cases hother with
  | absent => exact .refl _
  | given hagree => exact hagree.bind fun _ => .refl _

section Rules

variable {T : List Char → List Char → Prop} (hT : Indistinct T)

include hT

theorem Indistinct.readsAlike_skip : ReadsAlike T room Eq skip skip := by
  intro cs ds halike _
  rw [parse_skip, parse_skip]
  exact .read rfl ⟨hT.blanks halike, unblanked_suffix cs, unblanked_suffix ds, hT.still halike⟩

theorem Indistinct.readsAlike_symbol {text : String} (h : Plain isGap text.toList) :
    ReadsAlike T room Eq (symbol text) (symbol text) :=
  readsAlike_token (literal?_alike hT.alike h) fun hread => (literal?_eq_some hread).2

theorem Indistinct.readsAlike_opened {R : α → β → Prop} {p : Parser α} {q : Parser β}
    (h : ∀ less, room = less + 1 → ReadsAlike T less R p q) :
    ReadsAlike T room R (symbol "(" >>= fun _ => p) (symbol "(" >>= fun _ => q) := by
  intro cs ds halike hroom
  have hsymbol : ReadsAlike T room Eq (symbol "(") (symbol "(") :=
    hT.readsAlike_symbol (by decide)
  rcases (hsymbol cs ds halike hroom).forms with
    ⟨hp, hq⟩ | ⟨_, _, middle, middle', hp, hq, _, hleft⟩
  · rw [parse_bind_none hp, parse_bind_none hq]
    exact .refused
  · rw [parse_bind_some hp, parse_bind_some hq]
    obtain ⟨piece, hpiece, rfl⟩ := takes_symbol "(" _ _ _ (hT.unmarked halike) hq
    have hcount : ds.count '(' = middle'.count '(' + 1 := by
      rw [← hpiece]
      exact List.count_cons_self
    obtain ⟨less, rfl⟩ := Nat.exists_eq_add_of_le' (show 1 ≤ room by omega)
    exact (h less rfl middle middle' hleft.alike (by omega)).whole hleft

theorem Indistinct.readsAlike_nameText : ReadsAlike T room Eq nameText nameText :=
  (readsAlike_lexeme (name?_alike hT.alike) append_of_name?).named.bind fun _ _ h =>
    readsAlike_pure (congrArg String.ofList h)

theorem Indistinct.readsAlike_number : ReadsAlike T room Agree number number := by
  refine (readsAlike_lexeme (number?_alike hT.alike) append_of_number?).named.located.bind ?_
  rintro ⟨text, extent⟩ ⟨_, extent'⟩ ⟨⟩
  exact readsAlike_pure (numberLeaf_agree text extent extent')

theorem Indistinct.readsAlike_keyword (rule : Rule) (word : String) :
    ReadsAlike T room Eq (keyword rule word) (keyword rule word) :=
  (readsAlike_token (exactly?_alike hT.alike word) append_of_exactly?).named

theorem Indistinct.readsAlike_operand : ReadsAlike T room Agree operand operand := by
  refine hT.readsAlike_number.orElse (ReadsAlike.orElse ?_ ?_)
  · exact (hT.readsAlike_keyword .missing "missing").bind fun _ _ _ => readsAlike_pure (.refl _)
  · refine hT.readsAlike_nameText.bind fun name _ h => readsAlike_pure ?_
    rw [← h]
    exact .refl _

theorem Indistinct.readsAlike_sign {rule : Rule} {text : String} {a : α} (h : Plain isGap text.toList) :
    ReadsAlike T room Eq (sign rule text a) (sign rule text a) :=
  (hT.readsAlike_symbol h).named.bind fun _ _ _ => readsAlike_pure rfl

theorem Indistinct.readsAlike_arithOp : ReadsAlike T room Eq arithOp arithOp := by
  refine (hT.readsAlike_sign ?_).orElse ((hT.readsAlike_sign ?_).orElse
    ((hT.readsAlike_sign ?_).orElse (hT.readsAlike_sign ?_)))
  all_goals decide

theorem Indistinct.readsAlike_comparison : ReadsAlike T room Eq comparison comparison := by
  refine (hT.readsAlike_sign ?_).orElse ((hT.readsAlike_sign ?_).orElse
    ((hT.readsAlike_sign ?_).orElse ((hT.readsAlike_sign ?_).orElse
      ((hT.readsAlike_sign ?_).orElse (hT.readsAlike_sign ?_)))))
  all_goals decide

theorem Indistinct.readsAlike_boolWord {rule : Rule} {text spelled : String} {op : BoolOp}
    (h : Plain isGap text.toList) :
    ReadsAlike T room Eq (boolWord rule text spelled op) (boolWord rule text spelled op) := by
  have hword : ReadsAlike T room Eq (token (ignoringCase? spelled))
      (token (ignoringCase? spelled)) :=
    readsAlike_token (ignoringCase?_alike hT.alike spelled) append_of_ignoringCase?
  exact ((hT.readsAlike_symbol h).orElse hword).named.bind fun _ _ _ => readsAlike_pure rfl

theorem Indistinct.readsAlike_boolOp : ReadsAlike T room Eq boolOp boolOp := by
  refine (hT.readsAlike_boolWord ?_).orElse (hT.readsAlike_boolWord ?_)
  all_goals decide

section Chains

variable {op : Parser α} {part : Parser (Checked β)} (h : ReadsAlike T room Eq op op)
  (h' : ReadsAlike T room Agree part part)

include h h'

theorem Indistinct.readsAlike_step : ReadsAlike T room (fun a b => a.1 = b.1 ∧ Agree a.2 b.2)
    (step op part) (step op part) :=
  hT.readsAlike_skip.bind fun _ _ _ => h.bind fun _ _ hop => hT.readsAlike_skip.bind fun _ _ _ =>
    h'.bind fun _ _ hpart => readsAlike_pure ⟨hop, hpart⟩

theorem Indistinct.readsAlike_steps (hlevel : (step op part).Takes fun _ piece => Level piece) :
    ReadsAlike T room (fun as bs => Agree (chain as) (chain bs)) (step op part).many
      (step op part).many := by
  have htakes := hlevel.mono fun _ _ hpiece => hpiece.nonempty
  refine (hT.readsAlike_step h h').many hT.unmarked htakes (.refl _) ?_
  rintro ⟨op, x⟩ ⟨_, y⟩ as bs ⟨rfl, hpart⟩ hrest
  exact hpart.chain hrest

end Chains

theorem Indistinct.readsAlike_arith : ReadsAlike T room Agree arith arith := by
  have hrest : ReadsAlike T room (fun as bs => Agree (chain as) (chain bs)) arithStep.oneOrMore
      arithStep.oneOrMore := by
    refine (hT.readsAlike_step hT.readsAlike_arithOp hT.readsAlike_operand).bind ?_
    rintro ⟨op, x⟩ ⟨_, y⟩ ⟨rfl, hpart⟩
    exact (hT.readsAlike_steps hT.readsAlike_arithOp hT.readsAlike_operand
      (takes_step takes_arithOp takes_operand)).bind fun _ _ hsteps =>
        readsAlike_pure (hpart.chain hsteps)
  rw [arith_eq]
  exact .named <| hT.readsAlike_operand.bind fun _ _ hfirst => hrest.bind fun _ _ hsteps =>
    readsAlike_pure (hfirst.bind fun _ => hsteps.bind fun _ => .refl _)

theorem Indistinct.readsAlike_test : ReadsAlike T room Agree test test :=
  .named <| hT.readsAlike_operand.bind fun _ _ hleft => hT.readsAlike_skip.bind fun _ _ _ =>
    hT.readsAlike_comparison.bind fun op op' hop => hT.readsAlike_skip.bind fun _ _ _ =>
      hT.readsAlike_operand.bind fun _ _ hright => readsAlike_pure <| by
        rw [hop]
        exact hleft.bind fun _ => hright.bind fun _ => .refl _

theorem Indistinct.readsAlike_tests : ReadsAlike T room Agree tests tests := by
  rw [tests_eq]
  exact .named <| hT.readsAlike_test.bind fun _ _ hfirst =>
    (hT.readsAlike_steps hT.readsAlike_boolOp hT.readsAlike_test
      (takes_step takes_boolOp takes_test)).bind fun _ _ hsteps =>
        readsAlike_pure (hfirst.bind fun _ => hsteps.bind fun _ => .refl _)

section Calls

variable {inner inner' : Parser (Checked Tree)} (h' : inner'.Takes ValueTaken)

include h'

theorem Indistinct.readsAlike_arguments (h : ReadsAlike T room Agree inner inner') :
    ReadsAlike T room AgreeRows (arguments inner) (arguments inner') := by
  have hcomma : Plain isGap ",".toList := by decide
  have hstep : ReadsAlike T room Agree (argStep inner) (argStep inner') :=
    hT.readsAlike_skip.bind fun _ _ _ => (hT.readsAlike_symbol hcomma).bind fun _ _ _ =>
      hT.readsAlike_skip.bind fun _ _ _ => h
  have hsteps := hstep.many (S := AgreeRows) hT.unmarked
    ((takes_argStep h').mono fun _ _ hpiece => hpiece.1) (.refl _)
    fun _ _ _ _ hpart hrest => hpart.mapM hrest
  rw [arguments_eq, arguments_eq]
  exact h.bind fun _ _ hfirst => hsteps.bind fun _ _ hrest => readsAlike_pure (hfirst.mapM hrest)

theorem Indistinct.readsAlike_callParts
    (h : ∀ less, room = less + 1 → ReadsAlike T less Agree inner inner') :
    ReadsAlike T room (fun parts parts' => parts.1 = parts'.1 ∧ AgreeRows parts.2 parts'.2)
      (callParts inner) (callParts inner') := by
  have hclosing : Plain isGap ")".toList := by decide
  refine hT.readsAlike_nameText.bind fun _ _ hkeyword => hT.readsAlike_skip.bind fun _ _ _ =>
    hT.readsAlike_opened fun less hless => ?_
  have hargs : ReadsAlike T less (fun read read' => AgreeRows (read.getD []) (read'.getD []))
      (optional (arguments inner)) (optional (arguments inner')) :=
    (hT.readsAlike_arguments h' (h less hless)).optional (.refl _) fun _ _ hrows => hrows
  exact hT.readsAlike_skip.bind fun _ _ _ => hargs.bind fun _ _ hrows =>
    hT.readsAlike_skip.bind fun _ _ _ => (hT.readsAlike_symbol hclosing).bind fun _ _ _ =>
      readsAlike_pure ⟨hkeyword, hrows⟩

theorem Indistinct.readsAlike_valueOver
    (h : ∀ less, room = less + 1 → ReadsAlike T less Agree inner inner') :
    ReadsAlike T room Agree (valueOver inner) (valueOver inner') := by
  have hcall : ReadsAlike T room Agree (call inner) (call inner') := by
    rw [call_eq, call_eq]
    refine (hT.readsAlike_callParts h' h).named.located.bind ?_
    rintro ⟨⟨keyword, args⟩, extent⟩ ⟨⟨_, args'⟩, extent'⟩ ⟨⟨⟩, hrows⟩
    exact readsAlike_pure (buildCall_agree hrows keyword extent extent')
  refine hcall.orElse (ReadsAlike.orElse ?_ (hT.readsAlike_arith.orElse ?_))
  · exact hT.readsAlike_tests.bind fun _ _ hchain => readsAlike_pure hchain.map
  · exact hT.readsAlike_operand.bind fun _ _ hleaf => readsAlike_pure hleaf.map

end Calls

theorem Indistinct.readsAlike_value {levels levels' : Nat} (h : room ≤ levels)
    (h' : room ≤ levels') :
    ReadsAlike T room Agree (value levels) (value levels') := by
  induction room generalizing levels levels' with
  | zero =>
    rcases levels with _ | levels <;> rcases levels' with _ | levels'
    · exact hT.readsAlike_valueOver (takes_fail _) nofun
    · exact hT.readsAlike_valueOver (takes_value levels') nofun
    · exact hT.readsAlike_valueOver (takes_fail _) nofun
    · exact hT.readsAlike_valueOver (takes_value levels') nofun
  | succ room ih =>
    obtain ⟨levels, rfl⟩ := Nat.exists_eq_add_of_le' (Nat.le_trans (Nat.le_add_left 1 room) h)
    obtain ⟨levels', rfl⟩ := Nat.exists_eq_add_of_le' (Nat.le_trans (Nat.le_add_left 1 room) h')
    refine hT.readsAlike_valueOver (takes_value levels') fun less hless => ?_
    cases hless
    exact ih (Nat.le_of_succ_le_succ h) (Nat.le_of_succ_le_succ h')

section Statements

variable {inner inner' : Parser (Checked Tree)} (h : ReadsAlike T room Agree inner inner')

include h

theorem Indistinct.readsAlike_assignment :
    ReadsAlike T room (fun parts parts' => parts.1 = parts'.1 ∧ Agree parts.2 parts'.2)
      (assignment inner) (assignment inner') := by
  have hequals : Plain isGap "=".toList := by decide
  exact .named <| hT.readsAlike_nameText.bind fun _ _ hname => hT.readsAlike_skip.bind fun _ _ _ =>
    (hT.readsAlike_symbol hequals).bind fun _ _ _ => hT.readsAlike_skip.bind fun _ _ _ =>
      h.bind fun _ _ hpart => readsAlike_pure ⟨congrArg Leaf.variable hname, hpart⟩

theorem Indistinct.readsAlike_conditional :
    ReadsAlike T room Agree (conditional inner) (conditional inner') := by
  have hopening : Plain isGap "(".toList := by decide
  have hclosing : Plain isGap ")".toList := by decide
  have hother : ReadsAlike T room AgreeBranches (optional (elseBranch inner))
      (optional (elseBranch inner')) := by
    refine ReadsAlike.optional (hT.readsAlike_skip.bind fun _ _ _ =>
      (hT.readsAlike_keyword .elseWord "else").bind fun _ _ _ =>
        hT.readsAlike_skip.bind fun _ _ _ => hT.readsAlike_assignment h) .absent ?_
    rintro ⟨target, x⟩ ⟨_, y⟩ ⟨rfl, hpart⟩
    exact .given hpart
  rw [conditional_eq, conditional_eq]
  refine .named <| (hT.readsAlike_keyword .ifWord "if").bind fun _ _ _ =>
    hT.readsAlike_skip.bind fun _ _ _ => (hT.readsAlike_symbol hopening).bind fun _ _ _ =>
      hT.readsAlike_skip.bind fun _ _ _ => hT.readsAlike_tests.bind fun _ _ htest =>
        hT.readsAlike_skip.bind fun _ _ _ => (hT.readsAlike_symbol hclosing).bind fun _ _ _ =>
          hT.readsAlike_skip.bind fun _ _ _ =>
            (hT.readsAlike_keyword .thenWord "then").bind fun _ _ _ =>
              hT.readsAlike_skip.bind fun _ _ _ => (hT.readsAlike_assignment h).bind ?_
  rintro ⟨target, x⟩ ⟨_, y⟩ ⟨rfl, hpart⟩
  exact hother.bind fun _ _ hbranches => readsAlike_pure (branches_agree htest hpart hbranches)

theorem Indistinct.readsAlike_statement :
    ReadsAlike T room Agree (statement inner) (statement inner') := by
  refine .named <| (hT.readsAlike_conditional h).orElse <| (hT.readsAlike_assignment h).bind ?_
  rintro ⟨target, x⟩ ⟨_, y⟩ ⟨rfl, hpart⟩
  exact readsAlike_pure hpart.map

end Statements

end Rules

def Spelled (p : Parser (List (Checked Tree))) (cs : List Char) (trees : List Tree) : Prop :=
  ∃ parts rest, p.parse cs = some (parts, rest) ∧ parts.mapM id = .ok trees

section Scripts

variable {T : List Char → List Char → Prop} (hT : IndistinctThroughout T)

include hT

theorem IndistinctThroughout.readsAlike_semicolon : ReadsAlike T room Eq semicolon semicolon := by
  have htext : Plain isSkipped ";".toList := by decide
  exact hT.readsAlike_skip.bind fun _ _ _ =>
    readsAlike_token (literal?_alike hT.separated htext) fun hread => (literal?_eq_some hread).2

theorem IndistinctThroughout.readsAlike_semicolons :
    ReadsAlike T room (fun _ _ => True) semicolon.many semicolon.many :=
  hT.readsAlike_semicolon.many hT.unmarked
    (takes_semicolon.mono fun _ _ hpiece => hpiece.nonempty) trivial fun _ _ _ _ _ _ => trivial

omit hT in
theorem Solid.eq_nil {cs : List Char} (h : Solid cs) (hgap : ∀ c ∈ cs.head?, isSkipped c = true) :
    cs = [] := by
  cases cs with
  | nil => rfl
  | cons c cs =>
    have hc := hgap c rfl
    simp only [isSkipped, h.1, Bool.false_or, beq_iff_eq] at hc
    exact absurd hc h.2

theorem IndistinctThroughout.over_alike {cs ds : List Char} (h : T cs ds) (hcs : Solid cs)
    (hds : Solid ds) : cs = [] ↔ ds = [] := by
  cases hT.separated _ _ h with
  | same c rest => simp
  | gap left right => exact iff_of_true (hcs.eq_nil left) (hds.eq_nil right)

theorem IndistinctThroughout.readsAlike_end {R : α → β → Prop} {a : α} {b : β} (hrelated : R a b) :
    ReadsAlike T room R (skip >>= fun _ => endOfInput >>= fun _ => pure a)
      (skip >>= fun _ => endOfInput >>= fun _ => pure b) := by
  intro cs ds halike hroom
  have hskip : ReadsAlike T room Eq skip skip := hT.readsAlike_skip
  have hleft : LeftAlike T cs ds (unblanked cs) (unblanked ds) := by
    rcases (hskip cs ds halike hroom).forms with ⟨hp, _⟩ | ⟨_, _, _, _, hp, hq, _, hleft⟩
    · cases hp
    · cases hp
      cases hq
      exact hleft
  have hover := hT.over_alike (hT.blanks halike) (solid_unblanked cs) (solid_unblanked ds)
  rw [parse_bind_some (parse_skip cs), parse_bind_some (parse_skip ds)]
  generalize unblanked cs = rest at hleft hover
  generalize unblanked ds = rest' at hleft hover
  cases rest with
  | nil =>
    cases hover.mp rfl
    exact .read hrelated hleft
  | cons c rest =>
    cases rest' with
    | nil => exact nomatch hover.mpr rfl
    | cons c' rest' => exact .refused

section Statements

variable {inner inner' : Parser (Checked Tree)} (h : ReadsAlike T room Agree inner inner')
  (h' : inner'.Takes ValueTaken)

include h h'

theorem IndistinctThroughout.readsAlike_statements :
    ReadsAlike T room AgreeRows (statements inner) (statements inner') := by
  have hseparators : ReadsAlike T room (fun _ _ => True) semicolon.oneOrMore semicolon.oneOrMore :=
    hT.readsAlike_semicolon.bind fun _ _ _ => hT.readsAlike_semicolons.bind fun _ _ _ =>
      readsAlike_pure trivial
  have hnext : ReadsAlike T room Agree (nextStatement inner) (nextStatement inner') :=
    hseparators.bind fun _ _ _ => hT.readsAlike_skip.bind fun _ _ _ => hT.readsAlike_statement h
  have hothers := hnext.many (S := AgreeRows) hT.unmarked
    ((takes_nextStatement h').mono fun _ _ hpiece => hpiece.1) (.refl _)
    fun _ _ _ _ hpart hrest => hpart.mapM hrest
  exact hT.readsAlike_skip.bind fun _ _ _ => (hT.readsAlike_statement h).bind fun _ _ hfirst =>
    hothers.bind fun _ _ hrest => hT.readsAlike_semicolons.bind fun _ _ _ =>
      readsAlike_pure (hfirst.mapM hrest)

theorem IndistinctThroughout.readsAlike_script :
    ReadsAlike T room AgreeRows (script inner) (script inner') := by
  have hread : ReadsAlike T room (fun read read' => AgreeRows (read.getD []) (read'.getD []))
      (optional (statements inner)) (optional (statements inner')) :=
    (hT.readsAlike_statements h h').optional (.refl _) fun _ _ hrows => hrows
  rw [script_eq, script_eq]
  exact .named <| hT.readsAlike_semicolons.bind fun _ _ _ => hread.bind fun _ _ hrows =>
    hT.readsAlike_end hrows

end Statements

/-- Texts that are not told apart spell the same trees, read with as many levels as the second has
parentheses. -/
theorem IndistinctThroughout.spelled_alike {cs ds : List Char} (h : T cs ds) {levels levels' : Nat}
    (hlevels : ds.count '(' ≤ levels) (hlevels' : ds.count '(' ≤ levels') {trees : List Tree} :
    Spelled (script (Grammar.value levels)) cs trees ↔
      Spelled (script (Grammar.value levels')) ds trees := by
  have hvalue : ReadsAlike T (ds.count '(') Agree (Grammar.value levels) (Grammar.value levels') :=
    hT.readsAlike_value hlevels hlevels'
  have hscript := hT.readsAlike_script hvalue (takes_value levels') cs ds h (Nat.le_refl _)
  unfold Spelled
  rcases hscript.forms with ⟨hcs, hds⟩ | ⟨parts, parts', rest, rest', hcs, hds, hagree, _⟩
  · simp [hcs, hds]
  · rw [hcs, hds]
    constructor
    · rintro ⟨_, _, ⟨⟩, hparts⟩
      exact ⟨parts', rest', rfl, (hagree trees).mp hparts⟩
    · rintro ⟨_, _, ⟨⟩, hparts⟩
      exact ⟨parts, rest, rfl, (hagree trees).mpr hparts⟩

end Scripts

theorem indistinct_self : IndistinctThroughout fun cs ds => cs = ds ∧ '#' ∉ ds where
  alike := goOnAlike_self _
  blanks := by
    rintro cs _ ⟨rfl, hmark⟩
    exact ⟨rfl, fun hmem => hmark ((unblanked_suffix cs).subset hmem)⟩
  still := by
    rintro cs _ ⟨rfl, _⟩ hstill
    exact hstill
  unmarked h := h.2
  separated := goOnAlike_self _

theorem spelled_enough {cs : List Char} (hmark : '#' ∉ cs) {levels levels' : Nat}
    (hlevels : cs.count '(' ≤ levels) (hlevels' : cs.count '(' ≤ levels') {trees : List Tree} :
    Spelled (script (value levels)) cs trees ↔ Spelled (script (value levels')) cs trees :=
  indistinct_self.spelled_alike ⟨rfl, hmark⟩ hlevels hlevels'

end Grammar

end FieldScript
