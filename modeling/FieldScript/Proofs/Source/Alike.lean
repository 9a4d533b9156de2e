import FieldScript.Proofs.Source.Reading

/-! Texts that no lexeme tells apart. Wherever two such texts are read they go on with the same
character, or each with one that no lexeme holds, or is over. So every reader takes the same piece
off both, and leaves texts that are again alike. -/
namespace FieldScript.Source

def isSkipped (c : Char) : Bool := isBlank c || c == '#'

/-- What is skipped and the separators of statements stand inside no lexeme. -/
def isGap (c : Char) : Bool := isSkipped c || c == ';'

inductive Heads (gap : Char → Bool) (T : List Char → List Char → Prop) :
    List Char → List Char → Prop where
  | same (c : Char) {cs ds : List Char} (rest : T cs ds) : Heads gap T (c :: cs) (c :: ds)
  | gap {cs ds : List Char} (left : ∀ c ∈ cs.head?, gap c = true)
    (right : ∀ c ∈ ds.head?, gap c = true) : Heads gap T cs ds

/-- Texts related by `T` go on alike for as long as they are read. -/
def GoOnAlike (gap : Char → Bool) (T : List Char → List Char → Prop) : Prop :=
  ∀ cs ds, T cs ds → Heads gap T cs ds

def SplitAlike (T : List Char → List Char → Prop) (x y : List Char × List Char) : Prop :=
  x.1 = y.1 ∧ T x.2 y.2

def TakesAlike (T : List Char → List Char → Prop)
    (read : List Char → Option (List Char × List Char)) : Prop :=
  ∀ cs ds, T cs ds → Option.Rel (SplitAlike T) (read cs) (read ds)

def Plain (gap : Char → Bool) (text : List Char) : Prop := ∀ c ∈ text, gap c = false

instance (gap : Char → Bool) : DecidablePred (Plain gap) := fun text =>
  text.decidableBAll fun c => gap c = false

theorem isNameChar_of_isGap {c : Char} (h : isGap c = true) : isNameChar c = false := by
  simp only [isGap, isSkipped, isBlank, Bool.or_eq_true, beq_iff_eq] at h
  rcases h with ((((rfl | rfl) | rfl) | rfl) | rfl) | rfl <;> decide

theorem isDigit_of_isGap {c : Char} (h : isGap c = true) : c.isDigit = false := by
  have hname := isNameChar_of_isGap h
  cases hdigit : c.isDigit with
  | false => rfl
  | true => rw [isNameChar_of_isDigit hdigit] at hname; cases hname

theorem isGap_of_isSkipped {c : Char} (h : isSkipped c = true) : isGap c = true := by
  simp [isGap, h]

variable {gap : Char → Bool} {T : List Char → List Char → Prop} {cs ds : List Char}

theorem GoOnAlike.mono {gap' : Char → Bool} (h : GoOnAlike gap T)
    (h' : ∀ c, gap c = true → gap' c = true) : GoOnAlike gap' T := by
  intro cs ds hcs
  cases h cs ds hcs with
  | same c rest => exact .same c rest
  | gap left right => exact .gap (fun c hc => h' c (left c hc)) fun c hc => h' c (right c hc)

theorem goOnAlike_self (gap : Char → Bool) : GoOnAlike gap fun cs ds => cs = ds ∧ '#' ∉ ds := by
  rintro cs _ ⟨rfl, hmark⟩
  cases cs with
  | nil => exact .gap nofun nofun
  | cons c cs => exact .same c ⟨rfl, List.not_mem_of_not_mem_cons hmark⟩

theorem span_stopped {test : Char → Bool} (h : ∀ c ∈ cs.head?, test c = false) :
    (cs.takeWhile test, cs.dropWhile test) = ([], cs) := by
  cases cs with
  | nil => rfl
  | cons c cs => simp [h c rfl]

section Pieces

variable (alike : GoOnAlike gap T)

include alike

theorem span_alike {test : Char → Bool} (htest : ∀ c, gap c = true → test c = false)
    (h : T cs ds) :
    SplitAlike T (cs.takeWhile test, cs.dropWhile test) (ds.takeWhile test, ds.dropWhile test) := by
  induction cs generalizing ds with
  | nil =>
    cases alike _ _ h with
    | gap left right =>
      rw [span_stopped fun c hc => htest c (right c hc)]
      exact ⟨rfl, h⟩
  | cons c cs ih =>
    cases alike _ _ h with
    | same _ rest =>
      cases hc : test c with
      | true =>
        obtain ⟨hpiece, hleft⟩ := ih rest
        simpa [SplitAlike, hc] using ⟨hpiece, hleft⟩
      | false => simpa [SplitAlike, hc] using h
    | gap left right =>
      rw [span_stopped fun c hc => htest c (left c hc),
        span_stopped fun c hc => htest c (right c hc)]
      exact ⟨rfl, h⟩

theorem head_alike {c : Char} (hc : gap c = false) (h : T cs ds) :
    (∃ cs' ds', cs = c :: cs' ∧ ds = c :: ds' ∧ T cs' ds') ∨
      (∀ cs', cs ≠ c :: cs') ∧ ∀ ds', ds ≠ c :: ds' := by
  cases alike _ _ h with
  | same d rest =>
    by_cases hd : d = c
    · subst hd
      exact .inl ⟨_, _, rfl, rfl, rest⟩
    · exact .inr ⟨fun _ heq => hd (List.cons.inj heq).1, fun _ heq => hd (List.cons.inj heq).1⟩
  | gap left right =>
    refine .inr ⟨?_, ?_⟩
    · rintro cs' rfl
      simp [hc] at left
    · rintro ds' rfl
      simp [hc] at right

theorem splitOne_alike {accepted : List Char} (haccepted : Plain gap accepted) (h : T cs ds) :
    SplitAlike T (splitOne accepted cs) (splitOne accepted ds) := by
  have hstop {cs : List Char} (hgap : ∀ c ∈ cs.head?, gap c = true) :
      splitOne accepted cs = ([], cs) := by
    cases cs with
    | nil => rfl
    | cons c cs =>
      refine if_neg fun hmem => ?_
      have hc := hgap c rfl
      rw [haccepted c hmem] at hc
      cases hc
  cases alike _ _ h with
  | same c rest =>
    simp only [splitOne]
    split
    · exact ⟨rfl, rest⟩
    · exact ⟨rfl, h⟩
  | gap left right =>
    rw [hstop left, hstop right]
    exact ⟨rfl, h⟩

theorem isPrefixOf_alike {text : List Char} (htext : Plain gap text) (h : T cs ds) :
    text.isPrefixOf cs = text.isPrefixOf ds ∧
      (text.isPrefixOf cs = true → T (cs.drop text.length) (ds.drop text.length)) := by
  induction text generalizing cs ds with
  | nil => exact ⟨by simp, fun _ => h⟩
  | cons t text ih =>
    obtain ⟨ht, hrest⟩ := List.forall_mem_cons.mp htext
    rcases head_alike alike ht h with ⟨cs, ds, rfl, rfl, hmore⟩ | ⟨hcs, hds⟩
    · simpa [List.isPrefixOf] using ih hrest hmore
    · have hstop {cs : List Char} (hne : ∀ more, cs ≠ t :: more) :
          (t :: text).isPrefixOf cs = false := by
        cases cs with
        | nil => rfl
        | cons c cs =>
          have htc : t ≠ c := fun heq => hne cs (heq ▸ rfl)
          simp [List.isPrefixOf, htc]
      rw [hstop hcs, hstop hds]
      exact ⟨rfl, nofun⟩

theorem literal?_alike {text : String} (htext : Plain gap text.toList) :
    TakesAlike T (literal? text) := by
  intro cs ds h
  obtain ⟨hfront, hrest⟩ := isPrefixOf_alike alike htext h
  simp only [literal?, ← hfront]
  split
  · rename_i hmatch
    exact .some ⟨rfl, hrest hmatch⟩
  · exact .none

end Pieces

variable (alike : GoOnAlike isGap T)

include alike

theorem splitWord_alike (h : T cs ds) : SplitAlike T (splitWord cs) (splitWord ds) :=
  span_alike alike (fun _ => isNameChar_of_isGap) h

theorem splitDigits_alike (h : T cs ds) : SplitAlike T (splitDigits cs) (splitDigits ds) :=
  span_alike alike (fun _ => isDigit_of_isGap) h

theorem name?_alike : TakesAlike T name? := by
  intro cs ds h
  obtain ⟨hword, hrest⟩ := splitWord_alike alike h
  simp only [name?, ← hword]
  split
  · exact .some ⟨rfl, hrest⟩
  · exact .none

theorem exactly?_alike (word : String) : TakesAlike T (exactly? word) := by
  intro cs ds h
  obtain ⟨hword, hrest⟩ := splitWord_alike alike h
  simp only [exactly?, ← hword]
  split
  · exact .some ⟨rfl, hrest⟩
  · exact .none

theorem ignoringCase?_alike (word : String) : TakesAlike T (ignoringCase? word) := by
  intro cs ds h
  obtain ⟨hword, hrest⟩ := splitWord_alike alike h
  simp only [ignoringCase?, ← hword]
  split
  · exact .some ⟨rfl, hrest⟩
  · exact .none

omit alike in
theorem mantissa?_pointed {whole left : List Char} (h : splitDigits cs = (whole, '.' :: left)) :
    mantissa? cs = if whole = [] ∧ (splitDigits left).1 = [] then none
      else some (whole ++ '.' :: (splitDigits left).1, (splitDigits left).2) := by
  unfold mantissa?
  rw [h]
  cases whole with
  | nil =>
    simp only
    generalize splitDigits left = digits
    obtain ⟨_ | ⟨f, fraction⟩, rest⟩ := digits <;> simp
  | cons d whole => simp

omit alike in
theorem mantissa?_whole {whole more : List Char} (h : splitDigits cs = (whole, more))
    (hno : ∀ left, more ≠ '.' :: left) :
    mantissa? cs = if whole = [] then none else some (whole, more) := by
  unfold mantissa?
  rw [h]
  cases whole with
  | nil => simp
  | cons d whole => simp

theorem mantissa?_alike : TakesAlike T mantissa? := by
  intro cs ds h
  obtain ⟨hwhole, hmore⟩ := splitDigits_alike alike h
  cases hcs : splitDigits cs with
  | mk whole more =>
  cases hds : splitDigits ds with
  | mk whole' more' =>
  simp only [hcs, hds] at hwhole hmore
  subst hwhole
  rcases head_alike alike (c := '.') (by decide) hmore with
    ⟨left, left', rfl, rfl, hleft⟩ | ⟨hno, hno'⟩
  · obtain ⟨hfraction, hrest⟩ := splitDigits_alike alike hleft
    rw [mantissa?_pointed hcs, mantissa?_pointed hds, ← hfraction]
    split
    · exact .none
    · exact .some ⟨rfl, hrest⟩
  · rw [mantissa?_whole hcs hno, mantissa?_whole hds hno']
    split
    · exact .none
    · exact .some ⟨rfl, hmore⟩

theorem splitExponent_alike (h : T cs ds) :
    SplitAlike T (splitExponent cs) (splitExponent ds) := by
  have marks : Plain isGap ['e', 'E'] := by decide
  have signs : Plain isGap ['+', '-'] := by decide
  obtain ⟨hmark, hmore⟩ := splitOne_alike alike marks h
  unfold splitExponent
  generalize splitOne ['e', 'E'] cs = x at hmark hmore
  generalize splitOne ['e', 'E'] ds = y at hmark hmore
  obtain ⟨mark, more⟩ := x
  obtain ⟨_, more'⟩ := y
  cases hmark
  cases mark with
  | nil => exact ⟨rfl, h⟩
  | cons c mark =>
    obtain ⟨hsign, hleft⟩ := splitOne_alike alike signs hmore
    obtain ⟨hdigits, hrest⟩ := splitDigits_alike alike hleft
    simp only [← hsign]
    generalize splitDigits (splitOne ['+', '-'] more).2 = x at hdigits hrest
    generalize splitDigits (splitOne ['+', '-'] more').2 = y at hdigits hrest
    obtain ⟨digits, rest⟩ := x
    obtain ⟨_, rest'⟩ := y
    cases hdigits
    cases digits with
    | nil => exact ⟨rfl, h⟩
    | cons d digits => exact ⟨rfl, hrest⟩

theorem number?_alike : TakesAlike T number? := by
  intro cs ds h
  have minus : Plain isGap ['-'] := by decide
  obtain ⟨hsign, hmore⟩ := splitOne_alike alike minus h
  have hmantissa := mantissa?_alike alike _ _ hmore
  simp only [number?, ← hsign]
  generalize mantissa? (splitOne ['-'] cs).2 = x at hmantissa
  generalize mantissa? (splitOne ['-'] ds).2 = y at hmantissa
  cases hmantissa with
  | none => exact .none
  | @some taken taken' hsplit =>
    obtain ⟨hdigits, hleft⟩ := hsplit
    obtain ⟨hpower, hrest⟩ := splitExponent_alike alike hleft
    refine .some ⟨?_, hrest⟩
    simp only [hdigits, hpower]

end FieldScript.Source
