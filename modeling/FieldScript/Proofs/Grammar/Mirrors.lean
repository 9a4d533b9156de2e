import FieldScript.Proofs.Grammar.Phrases
import FieldScript.Proofs.Grammar.Reading

/-! Two parsers that go through a text together. They read the same pieces of it and fail at the same
places with the same rules on record; what they make of a piece is related. `Mirrors` passes through
every way to combine parsers. -/
namespace FieldScript

namespace Parser

variable {α β γ δ : Type} {p : Parser α} {q : Parser β} {source : List Char}
  {R : α → β → List Char → Prop} {R' : γ → δ → List Char → Prop}

inductive SameOutcome (R : α → β → List Char → Prop) (cs : List Char) :
    Option (α × List Char) × Record → Option (β × List Char) × Record → Prop where
  | refused (record : Record) : SameOutcome R cs (none, record) (none, record)
  | read {a : α} {b : β} {piece rest : List Char} (record : Record) (taken : piece ++ rest = cs)
    (related : R a b piece) : SameOutcome R cs (some (a, rest), record) (some (b, rest), record)

/-- The parsers do the same on every end of the source. -/
def Mirrors (source : List Char) (R : α → β → List Char → Prop) (p : Parser α) (q : Parser β) :
    Prop :=
  ∀ cs record, cs <:+ source → SameOutcome R cs (p.run cs record) (q.run cs record)

theorem SameOutcome.forms {cs : List Char} {x : Option (α × List Char) × Record}
    {y : Option (β × List Char) × Record} (h : SameOutcome R cs x y) :
    (∃ record, x = (none, record) ∧ y = (none, record)) ∨ ∃ a b piece rest record,
      x = (some (a, rest), record) ∧ y = (some (b, rest), record) ∧ piece ++ rest = cs ∧
        R a b piece := by
  cases h with
  | refused record => exact .inl ⟨record, rfl, rfl⟩
  | read record taken related => exact .inr ⟨_, _, _, _, record, rfl, rfl, taken, related⟩

theorem SameOutcome.behind {x middle : List Char} {s : Option (γ × List Char) × Record}
    {t : Option (δ × List Char) × Record}
    (h : SameOutcome (fun c d y => R' c d (x ++ y)) middle s t) :
    SameOutcome R' (x ++ middle) s t := by
  cases h with
  | refused record => exact .refused record
  | @read _ _ y rest record taken related =>
    exact .read record (by rw [List.append_assoc, taken]) related

theorem SameOutcome.mono {S : α → β → List Char → Prop} {cs : List Char}
    {x : Option (α × List Char) × Record} {y : Option (β × List Char) × Record}
    (h : SameOutcome R cs x y) (h' : ∀ a b piece, R a b piece → S a b piece) :
    SameOutcome S cs x y := by
  cases h with
  | refused record => exact .refused record
  | read record taken related => exact .read record taken (h' _ _ _ related)

theorem Mirrors.mono {S : α → β → List Char → Prop} (h : Mirrors source R p q)
    (h' : ∀ a b piece, R a b piece → S a b piece) : Mirrors source S p q :=
  fun cs record within => (h cs record within).mono h'

theorem mirrors_pure {a : α} {b : β} (h : R a b []) :
    Mirrors source R (pure a : Parser α) (pure b : Parser β) :=
  fun cs record _ => .read record (List.nil_append cs) h

theorem mirrors_fail (R : α → β → List Char → Prop) :
    Mirrors source R (fail : Parser α) (fail : Parser β) := fun _ record _ => .refused record

theorem Mirrors.bind {f : α → Parser γ} {g : β → Parser δ} (h : Mirrors source R p q)
    (h' : ∀ a b x, R a b x → Mirrors source (fun c d y => R' c d (x ++ y)) (f a) (g b)) :
    Mirrors source R' (p >>= f) (q >>= g) := by
  intro cs record within
  simp only [Bind.bind, Parser.bind]
  rcases (h cs record within).forms with
    ⟨after, hp, hq⟩ | ⟨a, b, x, rest, after, hp, hq, rfl, hab⟩
  · rw [hp, hq]
    exact .refused after
  · rw [hp, hq]
    exact (h' a b x hab rest after ((List.suffix_append x rest).trans within)).behind

theorem Mirrors.orElse {p' : Parser α} {q' : Parser β} (h : Mirrors source R p q)
    (h' : Mirrors source R p' q') : Mirrors source R (p <|> p') (q <|> q') := by
  intro cs record within
  simp only [HOrElse.hOrElse, OrElse.orElse, Parser.orElse]
  rcases (h cs record within).forms with
    ⟨after, hp, hq⟩ | ⟨a, b, x, rest, after, hp, hq, taken, hab⟩
  · rw [hp, hq]
    exact h' cs _ within
  · rw [hp, hq]
    exact .read after taken hab

theorem Mirrors.named {rule : Rule} (h : Mirrors source R p q) :
    Mirrors source R (named rule p) (named rule q) := by
  intro cs record within
  simp only [Parser.named]
  rcases (h cs record within).forms with
    ⟨after, hp, hq⟩ | ⟨a, b, x, rest, after, hp, hq, taken, hab⟩
  · rw [hp, hq]
    exact .refused _
  · rw [hp, hq]
    exact .read after taken hab

theorem mirrors_lexeme {read : List Char → Option (List Char × List Char)} {Q : List Char → Prop}
    (h : ∀ {cs piece rest}, read cs = some (piece, rest) → piece ++ rest = cs ∧ Q piece) :
    Mirrors source (fun a b piece => (a = piece ∧ b = piece) ∧ Q piece) (lexeme read)
      (lexeme read) := by
  intro cs record _
  simp only [lexeme]
  cases hread : read cs with
  | none => exact .refused record
  | some result =>
    obtain ⟨taken, hQ⟩ := h hread
    exact .read _ taken ⟨⟨rfl, rfl⟩, hQ⟩

theorem Mirrors.map {S : γ → δ → List Char → Prop} {f : α → γ} {g : β → δ}
    (h : Mirrors source R p q) (h' : ∀ a b piece, R a b piece → S (f a) (g b) piece) :
    Mirrors source S (p >>= fun a => pure (f a)) (q >>= fun b => pure (g b)) :=
  h.bind fun a b x hab => mirrors_pure (by rw [List.append_nil]; exact h' a b x hab)

theorem run_bind_pure (p : Parser α) (cs : List Char) (record : Record) :
    (p >>= pure).run cs record = p.run cs record := by
  simp only [Bind.bind, Parser.bind]
  rcases p.run cs record with ⟨_ | result, after⟩ <;> rfl

theorem Mirrors.map_left {S : γ → β → List Char → Prop} {f : α → γ} (h : Mirrors source R p q)
    (h' : ∀ a b piece, R a b piece → S (f a) b piece) :
    Mirrors source S (p >>= fun a => pure (f a)) q := by
  intro cs record within
  rw [← run_bind_pure q]
  exact h.map h' cs record within

theorem Mirrors.map_right {S : α → δ → List Char → Prop} {g : β → δ} (h : Mirrors source R p q)
    (h' : ∀ a b piece, R a b piece → S a (g b) piece) :
    Mirrors source S p (q >>= fun b => pure (g b)) := by
  intro cs record within
  rw [← run_bind_pure p]
  exact h.map h' cs record within

theorem mirrors_token {read : List Char → Option (List Char × List Char)} {Q : List Char → Prop}
    (h : ∀ {cs piece rest}, read cs = some (piece, rest) → piece ++ rest = cs ∧ Q piece) :
    Mirrors source (fun _ _ piece => Q piece) (token read) (token read) :=
  (mirrors_lexeme h).map fun _ _ _ hread => hread.2

/-- The places before and behind a piece of the source. -/
structure Extent.Holds (extent : Extent) (source piece : List Char) : Prop where
  within : extent.before <:+ source
  read : piece ++ extent.after = extent.before

theorem run_located (p : Parser α) (cs : List Char) (record : Record) :
    (located p).run cs record =
      ((p.run cs record).1.map fun result => ((result.1, ⟨cs, result.2⟩), result.2),
        (p.run cs record).2) := rfl

theorem Mirrors.located (h : Mirrors source R p q) :
    Mirrors source (fun x y piece => x.2.Holds source piece ∧ x.2 = y.2 ∧
      p.parse x.2.before = some (x.1, x.2.after) ∧ R x.1 y.1 piece) (located p) (located q) := by
  intro cs record within
  rw [run_located, run_located]
  rcases (h cs record within).forms with
    ⟨after, hp, hq⟩ | ⟨a, b, x, rest, after, hp, hq, taken, hab⟩
  · rw [hp, hq]
    exact .refused after
  · have hparse : p.parse cs = some (a, rest) := by rw [← p.fst_run cs record, hp]
    rw [hp, hq]
    exact .read after taken ⟨⟨within, taken⟩, rfl, hparse, hab⟩

theorem Mirrors.located_right (h : Mirrors source R p q) :
    Mirrors source (fun a y piece => y.2.Holds source piece ∧ R a y.1 piece) p
      (Parser.located q) := by
  intro cs record within
  rw [run_located]
  rcases (h cs record within).forms with
    ⟨after, hp, hq⟩ | ⟨a, b, x, rest, after, hp, hq, taken, hab⟩
  · rw [hp, hq]
    exact .refused after
  · rw [hp, hq]
    exact .read after taken ⟨⟨within, taken⟩, hab⟩

theorem Mirrors.many {S : List α → List β → List Char → Prop} (h : Mirrors source R p q)
    (nil : S [] [] []) (cons : ∀ a b as bs x y, R a b x → S as bs y →
      S (a :: as) (b :: bs) (x ++ y)) : Mirrors source S p.many q.many := by
  -- A repetition never fails, so both stop at the same place, with rows of the same length.
  have hrow (fuel : Nat) (cs : List Char) (record : Record) (within : cs <:+ source) :
      ∃ as bs piece rest after, p.runMany fuel cs record = ((as, rest), after) ∧
        q.runMany fuel cs record = ((bs, rest), after) ∧ piece ++ rest = cs ∧ S as bs piece := by
    induction fuel generalizing cs record with
    | zero => exact ⟨[], [], [], cs, record, rfl, rfl, rfl, nil⟩
    | succ fuel ih =>
      simp only [runMany]
      rcases (h cs record within).forms with
        ⟨after, hp, hq⟩ | ⟨a, b, x, rest, after, hp, hq, rfl, hab⟩
      · exact ⟨[], [], [], cs, after.backTo record.left, by rw [hp], by rw [hq], rfl, nil⟩
      · obtain ⟨as, bs, y, more, last, has, hbs, rfl, hrow⟩ :=
          ih rest after ((List.suffix_append x rest).trans within)
        refine ⟨a :: as, b :: bs, x ++ y, more, last, ?_, ?_, List.append_assoc x y more,
          cons a b as bs x y hab hrow⟩
        · simp only [hp, has]
        · simp only [hq, hbs]
  intro cs record within
  obtain ⟨as, bs, piece, rest, after, has, hbs, taken, hS⟩ :=
    hrow (cs.length + 1) cs record within
  simp only [Parser.many, has, hbs]
  exact .read after taken hS

theorem Mirrors.oneOrMore {S : List α → List β → List Char → Prop} (h : Mirrors source R p q)
    (nil : S [] [] []) (cons : ∀ a b as bs x y, R a b x → S as bs y →
      S (a :: as) (b :: bs) (x ++ y)) : Mirrors source S p.oneOrMore q.oneOrMore :=
  h.bind fun a b x hab => (h.many nil cons).map fun as bs y hS => cons a b as bs x y hab hS

theorem Mirrors.optional {S : Option α → Option β → List Char → Prop} (h : Mirrors source R p q)
    (none : S none none []) (some : ∀ a b piece, R a b piece → S (some a) (some b) piece) :
    Mirrors source S (optional p) (optional q) :=
  (h.map some).orElse (mirrors_pure none)

end Parser

namespace Phrases

open FieldScript.Parser

variable {α : Type} {p : Parser α} {q : Parser (List Phrase)} {source : List Char} {rule : Rule}
  {R : α → List Phrase → List Char → Prop}

structure Marks (phrase : Phrase) (rule : Rule) (source piece : List Char) : Prop where
  rule : phrase.rule = rule
  extent : phrase.extent.Holds source piece

theorem Marks.text_eq {phrase : Phrase} {piece : List Char} (h : Marks phrase rule source piece) :
    phrase.text = String.ofList piece := by
  simp only [Phrase.text, ← h.extent.read, List.length_append, Nat.add_sub_cancel, List.take_left]

theorem mirrors_phrase (h : Mirrors source R p q) :
    Mirrors source (fun a phrases piece => ∃ phrase, phrases = [phrase] ∧
      Marks phrase rule source piece ∧ R a phrase.inside piece) (named rule p) (phrase rule q) :=
  h.named.located_right.map_right fun _ y _ hy => ⟨.mk rule y.2 y.1, rfl, ⟨rfl, hy.1⟩, hy.2⟩

theorem mirrors_located_phrase (h : Mirrors source R p q) :
    Mirrors source (fun x phrases piece => ∃ phrase, phrases = [phrase] ∧
      Marks phrase rule source piece ∧ phrase.extent = x.2 ∧
        p.parse x.2.before = some (x.1, x.2.after) ∧ R x.1 phrase.inside piece)
      (located (named rule p)) (phrase rule q) :=
  h.named.located.map_right fun _ y _ hy =>
    ⟨.mk rule y.2 y.1, rfl, ⟨rfl, hy.2.1 ▸ hy.1⟩, hy.2.1.symm, hy.2.2.1, hy.2.2.2⟩

theorem mirrors_atom {β : Type} {q : Parser β} {R : α → β → List Char → Prop}
    (h : Mirrors source R p q) :
    Mirrors source (fun a phrases piece => ∃ phrase, phrases = [phrase] ∧
      Marks phrase rule source piece ∧ ∃ b, R a b piece) (named rule p) (atom rule q) :=
  (mirrors_phrase (h.map_right (S := fun a _ piece => ∃ b, R a b piece)
    fun _ b _ hab => ⟨b, hab⟩)).mono fun _ _ _ ⟨phrase, hphrase, hmarks, hR⟩ =>
      ⟨phrase, hphrase, hmarks, hR⟩

end Phrases

end FieldScript
