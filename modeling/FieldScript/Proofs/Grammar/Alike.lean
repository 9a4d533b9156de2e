import FieldScript.Proofs.Grammar.Taking
import FieldScript.Proofs.Source.Alike

/-! Two texts that parsers read alike. What is left unread of the one is again alike what is left of
the other, and the results are related. `ReadsAlike` passes through every way to combine parsers, so
it holds of a whole rule where it holds of the lexemes. -/
namespace FieldScript

open Outcome

namespace Parser

open Source (TakesAlike SplitAlike)

variable {α β α' β' : Type} {p : Parser α} {q : Parser β} {R : α → β → Prop}
  {R' : α' → β' → Prop} {T : List Char → List Char → Prop} {room : Nat}

/-- What is left of two texts. They are still alike, and nothing was read of the second where nothing
was read of the first. -/
structure LeftAlike (T : List Char → List Char → Prop) (cs ds rest rest' : List Char) : Prop where
  alike : T rest rest'
  suffix : rest <:+ cs
  suffix' : rest' <:+ ds
  still : rest = cs → rest' = ds

theorem LeftAlike.refl {cs ds : List Char} (h : T cs ds) : LeftAlike T cs ds cs ds :=
  ⟨h, List.suffix_refl cs, List.suffix_refl ds, fun _ => rfl⟩

theorem LeftAlike.trans {cs ds middle middle' rest rest' : List Char}
    (h : LeftAlike T cs ds middle middle') (h' : LeftAlike T middle middle' rest rest') :
    LeftAlike T cs ds rest rest' where
  alike := h'.alike
  suffix := h'.suffix.trans h.suffix
  suffix' := h'.suffix'.trans h.suffix'
  still heq := by
    subst heq
    have hmiddle := h.suffix.eq_of_length_le h'.suffix.length_le
    exact (h'.still hmiddle.symm).trans (h.still hmiddle)

inductive SameReading (T : List Char → List Char → Prop) (R : α → β → Prop) (cs ds : List Char) :
    Option (α × List Char) → Option (β × List Char) → Prop where
  | refused : SameReading T R cs ds none none
  | read {a : α} {b : β} {rest rest' : List Char} (related : R a b)
    (left : LeftAlike T cs ds rest rest') :
    SameReading T R cs ds (some (a, rest)) (some (b, rest'))

/-- The parsers read alike all texts that are related, as long as there is room for the opening
parentheses of the second. -/
def ReadsAlike (T : List Char → List Char → Prop) (room : Nat) (R : α → β → Prop) (p : Parser α)
    (q : Parser β) : Prop :=
  ∀ cs ds, T cs ds → ds.count '(' ≤ room → SameReading T R cs ds (p.parse cs) (q.parse ds)

theorem SameReading.forms {cs ds : List Char} {x : Option (α × List Char)}
    {y : Option (β × List Char)} (h : SameReading T R cs ds x y) : (x = none ∧ y = none) ∨
      ∃ a b rest rest', x = some (a, rest) ∧ y = some (b, rest') ∧ R a b ∧
        LeftAlike T cs ds rest rest' := by
  cases h with
  | refused => exact .inl ⟨rfl, rfl⟩
  | read related left => exact .inr ⟨_, _, _, _, rfl, rfl, related, left⟩

theorem SameReading.whole {cs ds middle middle' : List Char} {x : Option (α × List Char)}
    {y : Option (β × List Char)} (h : SameReading T R middle middle' x y)
    (left : LeftAlike T cs ds middle middle') : SameReading T R cs ds x y := by
  cases h with
  | refused => exact .refused
  | read related more => exact .read related (left.trans more)

theorem readsAlike_pure {a : α} {b : β} (h : R a b) :
    ReadsAlike T room R (pure a : Parser α) (pure b) :=
  fun _ _ halike _ => .read h (.refl halike)

theorem ReadsAlike.bind {f : α → Parser α'} {g : β → Parser β'} (h : ReadsAlike T room R p q)
    (h' : ∀ a b, R a b → ReadsAlike T room R' (f a) (g b)) :
    ReadsAlike T room R' (p >>= f) (q >>= g) := by
  intro cs ds halike hroom
  rcases (h cs ds halike hroom).forms with ⟨hp, hq⟩ | ⟨a, b, middle, middle', hp, hq, hab, hleft⟩
  · rw [parse_bind_none hp, parse_bind_none hq]
    exact .refused
  · rw [parse_bind_some hp, parse_bind_some hq]
    have hmiddle := Nat.le_trans (hleft.suffix'.sublist.count_le '(') hroom
    exact (h' a b hab middle middle' hleft.alike hmiddle).whole hleft

theorem ReadsAlike.orElse {p' : Parser α} {q' : Parser β} (h : ReadsAlike T room R p q)
    (h' : ReadsAlike T room R p' q') : ReadsAlike T room R (p <|> p') (q <|> q') := by
  intro cs ds halike hroom
  rcases (h cs ds halike hroom).forms with ⟨hp, hq⟩ | ⟨a, b, rest, rest', hp, hq, hab, hleft⟩
  · rw [parse_orElse_none hp, parse_orElse_none hq]
    exact h' cs ds halike hroom
  · rw [parse_orElse_some hp, parse_orElse_some hq]
    exact .read hab hleft

theorem ReadsAlike.named {rule : Rule} (h : ReadsAlike T room R p q) :
    ReadsAlike T room R (named rule p) (named rule q) := h

theorem ReadsAlike.located (h : ReadsAlike T room R p q) :
    ReadsAlike T room (fun x y => R x.1 y.1) (located p) (located q) := by
  intro cs ds halike hroom
  rcases (h cs ds halike hroom).forms with ⟨hp, hq⟩ | ⟨a, b, rest, rest', hp, hq, hab, hleft⟩
  · rw [parse_located_none hp, parse_located_none hq]
    exact .refused
  · rw [parse_located_some hp, parse_located_some hq]
    exact .read hab hleft

theorem readsAlike_lexeme {read : List Char → Option (List Char × List Char)}
    (h : TakesAlike T read)
    (h' : ∀ {cs piece rest}, read cs = some (piece, rest) → piece ++ rest = cs) :
    ReadsAlike T room Eq (lexeme read) (lexeme read) := by
  intro cs ds halike _
  have htaken := h cs ds halike
  simp only [lexeme]
  cases hcs : read cs with
  | none =>
    rw [hcs] at htaken
    cases hds : read ds with
    | none => exact .refused
    | some taken' =>
      rw [hds] at htaken
      cases htaken
  | some taken =>
    rw [hcs] at htaken
    cases hds : read ds with
    | none =>
      rw [hds] at htaken
      cases htaken
    | some taken' =>
      rw [hds] at htaken
      cases htaken with
      | some hsplit =>
        obtain ⟨piece, rest⟩ := taken
        obtain ⟨_, rest'⟩ := taken'
        obtain ⟨⟨⟩, hrest⟩ := hsplit
        have hcs := h' hcs
        have hds := h' hds
        refine .read rfl ⟨hrest, ⟨piece, hcs⟩, ⟨piece, hds⟩, fun heq => ?_⟩
        have hnil : piece = [] := by simpa [heq] using hcs
        rw [← hds, hnil, List.nil_append]

theorem readsAlike_token {read : List Char → Option (List Char × List Char)}
    (h : TakesAlike T read)
    (h' : ∀ {cs piece rest}, read cs = some (piece, rest) → piece ++ rest = cs) :
    ReadsAlike T room Eq (token read) (token read) :=
  (readsAlike_lexeme h h').bind fun _ _ _ => readsAlike_pure rfl

theorem ReadsAlike.many {S : List α → List β → Prop} (h : ReadsAlike T room R p q)
    (unmarked : ∀ {cs ds}, T cs ds → '#' ∉ ds) (h' : q.Takes fun _ piece => piece ≠ [])
    (nil : S [] []) (cons : ∀ a b as bs, R a b → S as bs → S (a :: as) (b :: bs)) :
    ReadsAlike T room S p.many q.many := by
  have hrow (fuel fuel' : Nat) (cs ds : List Char) (halike : T cs ds) (hfuel : cs.length < fuel)
      (hfuel' : ds.length < fuel') (hroom : ds.count '(' ≤ room) :
      SameReading T S cs ds (some (p.parseMany fuel cs)) (some (q.parseMany fuel' ds)) := by
    induction fuel generalizing fuel' cs ds with
    | zero => exact absurd hfuel (Nat.not_lt_zero _)
    | succ fuel ih =>
      cases fuel' with
      | zero => exact absurd hfuel' (Nat.not_lt_zero _)
      | succ fuel' =>
        rw [parseMany, parseMany]
        rcases (h cs ds halike hroom).forms with
          ⟨hp, hq⟩ | ⟨a, b, rest, rest', hp, hq, hab, hleft⟩
        · rw [hp, hq]
          exact .read nil (.refl halike)
        · have hless' := h'.shortens (unmarked halike) hq
          have hless : rest.length < cs.length := by
            refine Nat.lt_of_le_of_ne hleft.suffix.length_le fun hlength => ?_
            rw [hleft.still (hleft.suffix.eq_of_length hlength)] at hless'
            exact Nat.lt_irrefl _ hless'
          have hroomRest := Nat.le_trans (hleft.suffix'.sublist.count_le '(') hroom
          rcases (ih fuel' rest rest' hleft.alike (by omega) (by omega) hroomRest).forms with
            ⟨hnone, _⟩ | ⟨as, bs, more, more', has, hbs, hrow, hmore⟩
          · cases hnone
          · simp only [hp, hq, Option.some.inj has, Option.some.inj hbs]
            exact .read (cons a b as bs hab hrow) (hleft.trans hmore)
  exact fun cs ds halike hroom =>
    hrow _ _ cs ds halike (Nat.lt_succ_self _) (Nat.lt_succ_self _) hroom

theorem ReadsAlike.optional {S : Option α → Option β → Prop} (h : ReadsAlike T room R p q)
    (none : S none none) (some : ∀ a b, R a b → S (some a) (some b)) :
    ReadsAlike T room S (optional p) (optional q) :=
  (h.bind fun a b ha => readsAlike_pure (some a b ha)).orElse (readsAlike_pure none)

end Parser

/-- Parts that come out as the same. Faulty ones may be so at different places. -/
def Agree {α : Type} (x y : Checked α) : Prop := ∀ a, x = .ok a ↔ y = .ok a

namespace Agree

variable {α β : Type} {x y : Checked α}

theorem refl (x : Checked α) : Agree x x := fun _ => Iff.rfl

theorem bind {f g : α → Checked β} (h : Agree x y) (h' : ∀ a, Agree (f a) (g a)) :
    Agree (x >>= f) (y >>= g) := by
  intro b
  simp only [bind_eq_ok, h _, h' _ b]

theorem map {f : α → β} (h : Agree x y) : Agree (x.map f) (y.map f) :=
  h.bind fun a => refl (.ok (f a))

theorem chain {op : β} {rest rest' : List (β × Checked α)} (h : Agree x y)
    (h' : Agree (Grammar.chain rest) (Grammar.chain rest')) :
    Agree (Grammar.chain ((op, x) :: rest)) (Grammar.chain ((op, y) :: rest')) :=
  h.bind fun _ => h'.bind fun _ => refl _

theorem mapM {xs ys : List (Checked α)} (h : Agree x y) (h' : Agree (xs.mapM id) (ys.mapM id)) :
    Agree ((x :: xs).mapM id) ((y :: ys).mapM id) := by
  rw [List.mapM_cons, List.mapM_cons]
  exact h.bind fun _ => h'.bind fun _ => refl _

end Agree

end FieldScript
