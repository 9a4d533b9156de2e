import FieldScript.Proofs.Grammar.Indistinct

/-! Scripts cut at a separator. A statement never reads across one: it reads a text that goes on with
a separator as it reads the text alone. So a script is read part by part. -/
namespace FieldScript

open Outcome

namespace Parser

variable {α : Type} {p : Parser α} {cs rest : List Char} {a : α}

theorem parseMany_fuel (h : p.Takes fun _ piece => piece ≠ []) {fuel fuel' : Nat}
    (unmarked : '#' ∉ cs) (hfuel : cs.length < fuel) (hfuel' : cs.length < fuel') :
    p.parseMany fuel cs = p.parseMany fuel' cs := by
  induction fuel generalizing fuel' cs with
  | zero => exact absurd hfuel (Nat.not_lt_zero _)
  | succ fuel ih =>
    cases fuel' with
    | zero => exact absurd hfuel' (Nat.not_lt_zero _)
    | succ fuel' =>
      rw [parseMany, parseMany]
      cases hp : p.parse cs with
      | none => rfl
      | some result =>
        obtain ⟨a, rest⟩ := result
        have hless := h.shortens unmarked hp
        obtain ⟨piece, rfl, -⟩ := h cs a rest unmarked hp
        have hrest : '#' ∉ rest := fun hmem => unmarked (List.mem_append_right piece hmem)
        simp only [ih hrest (show rest.length < fuel by omega) (show rest.length < fuel' by omega)]

theorem exists_parse_many (p : Parser α) (cs : List Char) :
    ∃ row rest, p.many.parse cs = some (row, rest) :=
  ⟨_, _, rfl⟩

theorem parse_many_cons (h : p.Takes fun _ piece => piece ≠ []) (unmarked : '#' ∉ cs)
    (hfirst : p.parse cs = some (a, rest)) :
    p.many.parse cs = (p.many.parse rest).map fun row => (a :: row.1, row.2) := by
  have hless := h.shortens unmarked hfirst
  obtain ⟨piece, rfl, -⟩ := h cs a rest unmarked hfirst
  have hrest : '#' ∉ rest := fun hmem => unmarked (List.mem_append_right piece hmem)
  have hothers := parseMany_fuel h hrest hless (Nat.lt_succ_self _)
  simp only [many, parseMany, hfirst, hothers, Option.map_some]

end Parser

namespace Grammar

open FieldScript.Parser FieldScript.Source FieldScript.Tree

/-- The first text goes on behind the second with a separator and `more`. -/
def CutAt (more : List Char) (cs ds : List Char) : Prop := cs = ds ++ ';' :: more ∧ '#' ∉ ds

variable {cs ds rest more : List Char} {α : Type} {a : α}

theorem unblanked_separator (unmarked : '#' ∉ cs) (more : List Char) :
    unblanked (cs ++ ';' :: more) = unblanked cs ++ ';' :: more := by
  induction cs with
  | nil => rfl
  | cons c cs ih =>
    have hne := (List.ne_of_not_mem_cons unmarked).symm
    have hrest := ih (List.not_mem_of_not_mem_cons unmarked)
    unfold unblanked at hrest ⊢
    cases hc : isBlank c with
    | true => rw [List.cons_append, splitBlanks_blank hc, splitBlanks_blank hc, hrest]
    | false => rw [List.cons_append, splitBlanks_kept hc hne, splitBlanks_kept hc hne]; rfl

theorem indistinct_cutAt (more : List Char) : Indistinct (CutAt more) where
  alike := by
    rintro _ ds ⟨rfl, hmark⟩
    cases ds with
    | nil =>
      refine .gap ?_ nofun
      rintro _ ⟨⟩
      decide
    | cons d ds => exact .same d ⟨rfl, fun hmem => hmark (List.mem_cons_of_mem d hmem)⟩
  blanks := by
    rintro _ ds ⟨rfl, hmark⟩
    refine ⟨unblanked_separator hmark more, fun hmem => hmark ?_⟩
    have happend := append_splitBlanks false ds
    rw [← happend]
    exact List.mem_append_right _ hmem
  still := by
    rintro _ ds ⟨rfl, hmark⟩ hstill
    rw [unblanked_separator hmark] at hstill
    exact List.append_cancel_right hstill
  unmarked h := h.2

theorem parse_end (cs : List Char) (a : α) :
    (skip >>= fun _ => endOfInput >>= fun _ => pure a).parse cs =
      if unblanked cs = [] then some (a, []) else none := by
  rw [parse_bind_some (parse_skip cs)]
  cases unblanked cs with
  | nil => rfl
  | cons c rest => rfl

def following (value : Parser (Checked Tree)) : Parser (List (Checked Tree)) := do
  let rest ← many (nextStatement value)
  let _ ← many semicolon
  skip
  endOfInput
  return rest

variable {value : Parser (Checked Tree)} {part : Checked Tree}

theorem parse_following_over (value : Parser (Checked Tree))
    (hfront : semicolon.parse cs = none) :
    (following value).parse cs = if unblanked cs = [] then some ([], []) else none := by
  have hnext : (nextStatement value).parse cs = none :=
    parse_bind_none (parse_oneOrMore_none hfront)
  unfold following
  rw [parse_bind_some (parse_many_none hnext), parse_bind_some (parse_many_none hfront)]
  exact parse_end cs []

theorem parse_statements_none (hfirst : (statement value).parse (unblanked cs) = none) :
    (statements value).parse cs = none := by
  unfold statements
  rw [parse_bind_some (parse_skip cs), parse_bind_none hfirst]

theorem parse_statements_some {parts : List (Checked Tree)} {ends : List Unit}
    {middle last : List Char} (hfirst : (statement value).parse (unblanked cs) = some (part, rest))
    (hothers : (many (nextStatement value)).parse rest = some (parts, middle))
    (hends : semicolon.many.parse middle = some (ends, last)) :
    (statements value).parse cs = some (part :: parts, last) := by
  unfold statements
  rw [parse_bind_some (parse_skip cs), parse_bind_some hfirst, parse_bind_some hothers,
    parse_bind_some hends, parse_pure]

theorem parse_script_statement (hfront : semicolon.parse cs = none)
    (hfirst : (statement value).parse (unblanked cs) = some (part, rest)) :
    (script value).parse cs =
      ((following value).parse rest).map fun row => (part :: row.1, row.2) := by
  obtain ⟨parts, middle, hothers⟩ := exists_parse_many (nextStatement value) rest
  obtain ⟨ends, last, hends⟩ := exists_parse_many semicolon middle
  have hread := parse_statements_some hfirst hothers hends
  rw [script_eq, parse_named, parse_bind_some (parse_many_none hfront),
    parse_bind_some (parse_optional_some hread), parse_end, following,
    parse_bind_some hothers, parse_bind_some hends, parse_end]
  split
  · rfl
  · rfl

theorem parse_script_over (hfront : semicolon.parse cs = none)
    (hfirst : (statement value).parse (unblanked cs) = none) :
    (script value).parse cs = if unblanked cs = [] then some ([], []) else none := by
  rw [script_eq, parse_named, parse_bind_some (parse_many_none hfront),
    parse_bind_some (parse_optional_none (parse_statements_none hfirst)), parse_end]
  rfl

theorem takes_semicolon_nonempty : semicolon.Takes fun _ piece => piece ≠ [] :=
  takes_semicolon.mono fun _ _ hpiece => hpiece.nonempty

theorem parse_script_separator (unmarked : '#' ∉ cs)
    (hfront : semicolon.parse cs = some ((), rest)) :
    (script value).parse cs = (script value).parse rest := by
  obtain ⟨ends, last, hends⟩ := exists_parse_many semicolon rest
  have hall := parse_many_cons takes_semicolon_nonempty unmarked hfront
  rw [hends] at hall
  rw [script_eq, parse_named, parse_named, parse_bind_some hall, parse_bind_some hends]

theorem parse_following_separator (hvalue : value.Takes ValueTaken) (unmarked : '#' ∉ cs)
    (hfront : semicolon.parse cs = some ((), rest)) :
    (following value).parse cs = (script value).parse rest := by
  obtain ⟨ends, last, hends⟩ := exists_parse_many semicolon rest
  have hall := parse_many_cons takes_semicolon_nonempty unmarked hfront
  rw [hends] at hall
  have hseparators : semicolon.oneOrMore.parse cs = some (() :: ends, last) :=
    parse_oneOrMore hfront hends
  rw [following, script_eq, parse_named, parse_bind_some hends]
  cases hfirst : (statement value).parse (unblanked last) with
  | none =>
    have hnext : (nextStatement value).parse cs = none := by
      unfold nextStatement
      rw [parse_bind_some hseparators, parse_bind_some (parse_skip last), hfirst]
    rw [parse_bind_some (parse_many_none hnext), parse_bind_some hall,
      parse_bind_some (parse_optional_none (parse_statements_none hfirst))]
    rfl
  | some result =>
    obtain ⟨part, behind⟩ := result
    have hnext : (nextStatement value).parse cs = some (part, behind) := by
      unfold nextStatement
      rw [parse_bind_some hseparators, parse_bind_some (parse_skip last), hfirst]
    obtain ⟨parts, middle, hothers⟩ := exists_parse_many (nextStatement value) behind
    obtain ⟨ends', last', hends'⟩ := exists_parse_many semicolon middle
    have hrow := parse_many_cons
      ((takes_nextStatement hvalue).mono fun _ _ hpiece => hpiece.1) unmarked hnext
    rw [hothers] at hrow
    have hread := parse_statements_some hfirst hothers hends'
    rw [parse_bind_some hrow, parse_bind_some hends', parse_bind_some (parse_optional_some hread)]
    rfl

variable {p q : Parser (List (Checked Tree))} {trees : List Tree}

theorem spelled_congr (h : p.parse cs = q.parse ds) : Spelled p cs trees ↔ Spelled q ds trees := by
  unfold Spelled
  rw [h]

theorem not_spelled (h : p.parse cs = none) : ¬ Spelled p cs trees := by
  rintro ⟨_, _, hread, _⟩
  rw [h] at hread
  cases hread

theorem spelled_nil (h : p.parse cs = some ([], rest)) : Spelled p cs trees ↔ trees = [] := by
  constructor
  · rintro ⟨_, _, hread, htrees⟩
    rw [h] at hread
    cases hread
    cases htrees
    rfl
  · rintro rfl
    exact ⟨[], rest, h, rfl⟩

theorem spelled_cons (h : p.parse cs = (q.parse ds).map fun row => (part :: row.1, row.2)) :
    Spelled p cs trees ↔
      ∃ tree more, part = .ok tree ∧ Spelled q ds more ∧ trees = tree :: more := by
  unfold Spelled
  rw [h]
  constructor
  · rintro ⟨parts, rest, hread, htrees⟩
    obtain ⟨⟨others, _⟩, hothers, ⟨⟩⟩ := Option.map_eq_some_iff.mp hread
    rw [List.mapM_cons] at htrees
    obtain ⟨tree, htree, htrees⟩ := bind_eq_ok.mp htrees
    obtain ⟨more, hmore, htrees⟩ := bind_eq_ok.mp htrees
    cases htrees
    exact ⟨tree, more, htree, ⟨others, _, hothers, hmore⟩, rfl⟩
  · rintro ⟨tree, more, rfl, ⟨others, rest, hothers, hmore⟩, rfl⟩
    refine ⟨_, rest, by rw [hothers]; rfl, ?_⟩
    rw [List.mapM_cons, hmore]
    rfl

theorem parse_semicolon_some (h : unblanked cs = ';' :: rest) :
    semicolon.parse cs = some ((), rest) := by
  unfold semicolon
  rw [parse_bind_some (parse_skip cs), h]
  rfl

theorem parse_semicolon_none (h : ∀ more, unblanked cs ≠ ';' :: more) :
    semicolon.parse cs = none := by
  unfold semicolon
  rw [parse_bind_some (parse_skip cs)]
  refine parse_token_none (Option.eq_none_iff_forall_ne_some.mpr ?_)
  rintro ⟨piece, rest⟩ hread
  obtain ⟨rfl, happend⟩ := literal?_eq_some hread
  exact h rest happend.symm

theorem parse_semicolon_of_not_mem (h : ';' ∉ cs) : semicolon.parse cs = none := by
  refine parse_semicolon_none fun more hmore => h ((unblanked_suffix cs).subset ?_)
  rw [hmore]
  exact List.mem_cons_self

theorem parse_semicolon_cut (ds : List Char) (unmarked : '#' ∉ cs) (single : ';' ∉ cs)
    (h : unblanked cs ≠ []) : semicolon.parse (cs ++ ';' :: ds) = none := by
  refine parse_semicolon_none fun more hmore => single ((unblanked_suffix cs).subset ?_)
  rw [unblanked_separator unmarked, List.append_eq_cons_iff] at hmore
  obtain ⟨hnil, -⟩ | ⟨rest, hrest, -⟩ := hmore
  · exact absurd hnil h
  · rw [hrest]
    exact List.mem_cons_self

theorem parse_statement_nil (hvalue : value.Takes ValueTaken) :
    (statement value).parse [] = none := by
  refine Option.eq_none_iff_forall_ne_some.mpr ?_
  rintro ⟨part, rest⟩ hread
  obtain ⟨piece, hpiece, hne, -⟩ := takes_statement hvalue [] part rest (by simp) hread
  exact hne (List.append_eq_nil_iff.mp hpiece).1

theorem spelled_following_separator (hvalue : value.Takes ValueTaken) (single : ';' ∉ cs)
    (hmark : '#' ∉ cs) (hmark' : '#' ∉ ds) :
    Spelled (following value) (cs ++ ';' :: ds) trees ↔
      ∃ first more, Spelled (following value) cs first ∧ Spelled (script value) ds more ∧
        trees = first ++ more := by
  have unmarked : '#' ∉ cs ++ ';' :: ds := by simp [hmark, hmark']
  have hjoined := unblanked_separator hmark ds
  have halone := parse_following_over value (parse_semicolon_of_not_mem single)
  by_cases hblank : unblanked cs = []
  · rw [if_pos hblank] at halone
    have hseparator : semicolon.parse (cs ++ ';' :: ds) = some ((), ds) :=
      parse_semicolon_some (by rw [hjoined, hblank]; rfl)
    rw [spelled_congr (parse_following_separator hvalue unmarked hseparator)]
    simp [spelled_nil halone]
  · have hwhole := parse_following_over value (parse_semicolon_cut ds hmark single hblank)
    rw [if_neg hblank] at halone
    rw [hjoined, if_neg (by simp)] at hwhole
    simp [not_spelled halone, not_spelled hwhole]

theorem spelled_first_separator {levels : Nat} (hlevels : cs.count '(' ≤ levels)
    (single : ';' ∉ cs) (hmark : '#' ∉ cs) (hmark' : '#' ∉ ds) :
    Spelled (script (Grammar.value levels)) (cs ++ ';' :: ds) trees ↔
      ∃ first more, Spelled (script (Grammar.value levels)) cs first ∧
        Spelled (script (Grammar.value levels)) ds more ∧ trees = first ++ more := by
  have hvalue := takes_value levels
  have hjoined := unblanked_separator hmark ds
  have hfront := parse_semicolon_of_not_mem single
  by_cases hblank : unblanked cs = []
  · -- The part is empty; the separator is one of those in front of the others.
    have hseparator : semicolon.parse (cs ++ ';' :: ds) = some ((), ds) :=
      parse_semicolon_some (by rw [hjoined, hblank]; rfl)
    have hnone : (statement (Grammar.value levels)).parse (unblanked cs) = none := by
      rw [hblank]
      exact parse_statement_nil hvalue
    have unmarked : '#' ∉ cs ++ ';' :: ds := by simp [hmark, hmark']
    have hempty := parse_script_over hfront hnone
    rw [if_pos hblank] at hempty
    rw [spelled_congr (parse_script_separator unmarked hseparator)]
    simp [spelled_nil hempty]
  · have hfront' : semicolon.parse (cs ++ ';' :: ds) = none :=
      parse_semicolon_cut ds hmark single hblank
    have hreads : ReadsAlike (CutAt ds) levels Agree (statement (Grammar.value levels))
        (statement (Grammar.value levels)) :=
      (indistinct_cutAt ds).readsAlike_statement
        ((indistinct_cutAt ds).readsAlike_value (Nat.le_refl _) (Nat.le_refl _))
    have hcut : CutAt ds (unblanked (cs ++ ';' :: ds)) (unblanked cs) :=
      (indistinct_cutAt ds).blanks ⟨rfl, hmark⟩
    have hroom := Nat.le_trans ((unblanked_suffix cs).sublist.count_le '(') hlevels
    rcases (hreads _ _ hcut hroom).forms with
      ⟨hwhole, halone⟩ | ⟨part, part', _, rest, hwhole, halone, hagree, ⟨⟨rfl, hrest⟩, _, hleft, _⟩⟩
    · have hnone := parse_script_over hfront' hwhole
      have hnone' := parse_script_over hfront halone
      rw [hjoined, if_neg (by simp)] at hnone
      rw [if_neg hblank] at hnone'
      simp [not_spelled hnone, not_spelled hnone']
    · have hsuffix := hleft.trans (unblanked_suffix cs)
      have hsingle : ';' ∉ rest := fun hmem => single (hsuffix.subset hmem)
      rw [spelled_cons (parse_script_statement hfront' hwhole)]
      simp only [spelled_cons (parse_script_statement hfront halone),
        spelled_following_separator hvalue hsingle hrest hmark', hagree _]
      constructor
      · rintro ⟨tree, _, htree, ⟨first, more, hfirst, hmore, rfl⟩, rfl⟩
        exact ⟨tree :: first, more, ⟨tree, first, htree, hfirst, rfl⟩, hmore, rfl⟩
      · rintro ⟨_, more, ⟨tree, first, htree, hfirst, rfl⟩, hmore, rfl⟩
        exact ⟨tree, first ++ more, htree, ⟨first, more, hfirst, hmore, rfl⟩, rfl⟩

/-- A script is cut at any separator. The induction is on the part in front of it, which is cut at
its own first separator. -/
theorem spelled_append_separator {levels : Nat} (hlevels : cs.count '(' ≤ levels) (hmark : '#' ∉ cs)
    (hmark' : '#' ∉ ds) :
    Spelled (script (Grammar.value levels)) (cs ++ ';' :: ds) trees ↔
      ∃ first more, Spelled (script (Grammar.value levels)) cs first ∧
        Spelled (script (Grammar.value levels)) ds more ∧ trees = first ++ more := by
  induction hlength : cs.length using Nat.strong_induction_on generalizing cs trees with
  | _ length ih =>
    by_cases hmem : ';' ∈ cs
    · obtain ⟨front, behind, rfl, hsingle⟩ := List.eq_append_cons_of_mem hmem
      simp only [List.mem_append, List.mem_cons, not_or] at hmark
      simp only [List.count_append, List.count_cons] at hlevels
      simp only [List.length_append, List.length_cons] at hlength
      have hfront : front.count '(' ≤ levels := by omega
      have hbehind : behind.count '(' ≤ levels := by omega
      have hjoined : '#' ∉ behind ++ ';' :: ds := by simp [hmark.2.2, hmark']
      rw [List.append_assoc, List.cons_append,
        spelled_first_separator hfront hsingle hmark.1 hjoined]
      simp only [spelled_first_separator hfront hsingle hmark.1 hmark.2.2,
        ih behind.length (by omega) hbehind hmark.2.2 rfl]
      constructor
      · rintro ⟨first, _, hfirst, ⟨second, more, hsecond, hmore, rfl⟩, rfl⟩
        exact ⟨_, more, ⟨first, second, hfirst, hsecond, rfl⟩, hmore,
          (List.append_assoc ..).symm⟩
      · rintro ⟨_, more, ⟨first, second, hfirst, hsecond, rfl⟩, hmore, rfl⟩
        exact ⟨first, _, hfirst, ⟨second, more, hsecond, hmore, rfl⟩, List.append_assoc ..⟩
    · exact spelled_first_separator hlevels hmem hmark hmark'

end Grammar

end FieldScript
