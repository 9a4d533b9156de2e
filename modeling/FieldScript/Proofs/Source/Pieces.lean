import FieldScript.Proofs.Source.Reading

/-! What the readers of lexemes take off a text: a word or a number from end to end. A number is
split into its sign, its digits around a point and its power of ten, each of which is read back on
its own. -/
namespace FieldScript.Source

variable {cs piece rest : List Char}

theorem span_run {test : Char → Bool} (hpiece : ∀ c ∈ piece, test c = true)
    (hrest : ∀ c ∈ rest.head?, test c = false) :
    ((piece ++ rest).takeWhile test, (piece ++ rest).dropWhile test) = (piece, rest) := by
  have hnone : (([] ++ rest).takeWhile test, ([] ++ rest).dropWhile test) = ([], rest) :=
    span_append hrest
  obtain ⟨htake, hdrop⟩ := Prod.mk.inj hnone
  rw [List.nil_append] at htake hdrop
  rw [List.takeWhile_append_of_pos hpiece, List.dropWhile_append_of_pos hpiece, htake, hdrop,
    List.append_nil]

theorem span_all {test : Char → Bool} (h : ∀ c ∈ piece, test c = true) :
    (piece.takeWhile test, piece.dropWhile test) = (piece, []) := by
  have hrun : ((piece ++ []).takeWhile test, (piece ++ []).dropWhile test) = (piece, []) :=
    span_run h (by simp)
  rwa [List.append_nil] at hrun

theorem splitDigits_eq (hpiece : ∀ c ∈ piece, c.isDigit = true)
    (hrest : ∀ c ∈ rest.head?, c.isDigit = false) : splitDigits (piece ++ rest) = (piece, rest) :=
  span_run hpiece hrest

theorem isDigit_splitDigits (cs : List Char) : ∀ c ∈ (splitDigits cs).1, c.isDigit = true :=
  List.all_eq_true.mp List.all_takeWhile

theorem splitOne_of_mem {accepted : List Char} {c : Char} (h : c ∈ accepted) :
    splitOne accepted (c :: cs) = ([c], cs) := if_pos h

theorem splitOne_of_not_mem {accepted : List Char} {c : Char} (h : c ∉ accepted) :
    splitOne accepted (c :: cs) = ([], c :: cs) := if_neg h

theorem splitOne_fst (accepted cs : List Char) :
    (splitOne accepted cs).1 = [] ∨ ∃ c ∈ accepted, (splitOne accepted cs).1 = [c] := by
  cases cs with
  | nil => exact .inl rfl
  | cons c cs =>
    by_cases hc : c ∈ accepted
    · exact .inr ⟨c, hc, by rw [splitOne_of_mem hc]⟩
    · exact .inl (by rw [splitOne_of_not_mem hc])

theorem append_splitBlanks (inside : Bool) (cs : List Char) :
    (splitBlanks inside cs).1 ++ (splitBlanks inside cs).2 = cs := by
  induction cs generalizing inside with
  | nil => rfl
  | cons c cs ih =>
    rw [splitBlanks]
    split
    · exact congrArg (c :: ·) (ih _)
    · rfl

theorem splitBlanks_blank {c : Char} (h : isBlank c = true) (cs : List Char) :
    splitBlanks false (c :: cs) = (c :: (splitBlanks false cs).1, (splitBlanks false cs).2) := by
  have hmark : (c == '#') = false := by
    rw [beq_eq_false_iff_ne]
    rintro rfl
    exact absurd h (by decide)
  simp [splitBlanks, h, hmark]

theorem splitBlanks_kept {c : Char} (h : isBlank c = false) (hmark : c ≠ '#') (cs : List Char) :
    splitBlanks false (c :: cs) = ([], c :: cs) := by
  simp [splitBlanks, h, hmark]

theorem append_splitWord (cs : List Char) : (splitWord cs).1 ++ (splitWord cs).2 = cs :=
  List.takeWhile_append_dropWhile

theorem append_splitDigits (cs : List Char) : (splitDigits cs).1 ++ (splitDigits cs).2 = cs :=
  List.takeWhile_append_dropWhile

theorem append_splitOne (accepted cs : List Char) :
    (splitOne accepted cs).1 ++ (splitOne accepted cs).2 = cs := by
  cases cs with
  | nil => rfl
  | cons c cs =>
    rw [splitOne]
    split <;> rfl

theorem append_of_name? (h : name? cs = some (piece, rest)) : piece ++ rest = cs := by
  simp only [name?] at h
  split at h
  · cases h
    exact append_splitWord cs
  · cases h

theorem append_of_exactly? {word : String} (h : exactly? word cs = some (piece, rest)) :
    piece ++ rest = cs := by
  simp only [exactly?] at h
  split at h
  · cases h
    exact append_splitWord cs
  · cases h

theorem append_of_ignoringCase? {word : String} (h : ignoringCase? word cs = some (piece, rest)) :
    piece ++ rest = cs := by
  simp only [ignoringCase?] at h
  split at h
  · cases h
    exact append_splitWord cs
  · cases h

theorem literal?_eq_some {text : String} (h : literal? text cs = some (piece, rest)) :
    piece = text.toList ∧ piece ++ rest = cs := by
  unfold literal? at h
  split at h
  · rename_i hmatch
    cases h
    exact ⟨rfl, (List.prefix_iff_eq_append.mp (List.isPrefixOf_iff_prefix.mp hmatch))⟩
  · cases h

theorem append_of_mantissa? (h : mantissa? cs = some (piece, rest)) : piece ++ rest = cs := by
  unfold mantissa? at h
  have hwhole := append_splitDigits cs
  generalize splitDigits cs = digits at h hwhole
  rcases digits with ⟨_ | ⟨d, whole⟩, _ | ⟨c, more⟩⟩
  · cases h
  · by_cases hc : c = '.'
    · subst hc
      have hfraction := append_splitDigits more
      simp only at h
      generalize splitDigits more = fraction at h hfraction
      rcases fraction with ⟨_ | ⟨f, fraction⟩, more'⟩
      · cases h
      · cases h
        rw [← hwhole, ← hfraction]
        rfl
    · simp [hc] at h
  · cases h
    exact hwhole
  · by_cases hc : c = '.'
    · subst hc
      have hfraction := append_splitDigits more
      cases h
      rw [← hwhole, List.append_assoc, List.cons_append]
      exact congrArg (fun left => d :: (whole ++ '.' :: left)) hfraction
    · simp [hc] at h
      rw [← hwhole, ← h.1, ← h.2]

theorem append_splitExponent (cs : List Char) :
    (splitExponent cs).1 ++ (splitExponent cs).2 = cs := by
  unfold splitExponent
  have hmark := append_splitOne ['e', 'E'] cs
  generalize splitOne ['e', 'E'] cs = start at hmark ⊢
  rcases start with ⟨_ | ⟨mark, marks⟩, more⟩
  · rfl
  · have hsign := append_splitOne ['+', '-'] more
    simp only
    generalize splitOne ['+', '-'] more = signed at hsign ⊢
    have hdigits := append_splitDigits signed.2
    generalize splitDigits signed.2 = digits at hdigits ⊢
    rcases digits with ⟨_ | ⟨d, digits⟩, left⟩
    · rfl
    · rw [← hmark, ← hsign, ← hdigits]
      simp only [List.append_assoc]

theorem append_of_number? (h : number? cs = some (piece, rest)) : piece ++ rest = cs := by
  simp only [number?, Option.bind_eq_bind, Option.bind_eq_some_iff, Prod.exists,
    Option.some.injEq, Prod.mk.injEq] at h
  obtain ⟨digits, more, hdigits, rfl, rfl⟩ := h
  rw [List.append_assoc, append_splitExponent, List.append_assoc, append_of_mantissa? hdigits,
    append_splitOne]

theorem isName_of_name? (h : name? cs = some (piece, rest)) : IsName (String.ofList piece) := by
  have hword : ∀ c ∈ (splitWord cs).1, isNameChar c = true :=
    List.all_eq_true.mp List.all_takeWhile
  simp only [name?] at h
  split at h
  · rename_i hname
    cases h
    have hsplit : splitWord (splitWord cs).1 = ((splitWord cs).1, []) := span_all hword
    simp only [IsName, name?, String.toList_ofList, hsplit, hname, if_true]
  · cases h

inductive Mantissa : List Char → Prop where
  | whole {digits : List Char} (nonempty : digits ≠ []) (digit : ∀ c ∈ digits, c.isDigit = true) :
    Mantissa digits
  | pointed {whole fraction : List Char} (nonempty : whole ≠ [] ∨ fraction ≠ [])
    (digit : ∀ c ∈ whole, c.isDigit = true) (digit' : ∀ c ∈ fraction, c.isDigit = true) :
    Mantissa (whole ++ '.' :: fraction)

inductive Power : List Char → Prop where
  | absent : Power []
  | given {mark : Char} {sign digits : List Char} (marked : mark ∈ ['e', 'E'])
    (signed : sign = [] ∨ ∃ c ∈ ['+', '-'], sign = [c]) (nonempty : digits ≠ [])
    (digit : ∀ c ∈ digits, c.isDigit = true) : Power (mark :: (sign ++ digits))

theorem mantissa_of_mantissa? (h : mantissa? cs = some (piece, rest)) : Mantissa piece := by
  unfold mantissa? at h
  have hwhole := isDigit_splitDigits cs
  generalize splitDigits cs = digits at h hwhole
  rcases digits with ⟨_ | ⟨d, whole⟩, _ | ⟨c, more⟩⟩
  · cases h
  · by_cases hc : c = '.'
    · subst hc
      have hfraction := isDigit_splitDigits more
      simp only at h
      generalize splitDigits more = fraction at h hfraction
      rcases fraction with ⟨_ | ⟨f, fraction⟩, more⟩
      · cases h
      · cases h
        have hpointed : Mantissa ([] ++ '.' :: f :: fraction) :=
          .pointed (.inr (List.cons_ne_nil f fraction)) (by simp) hfraction
        exact hpointed
    · simp [hc] at h
  · cases h
    exact .whole (List.cons_ne_nil d whole) hwhole
  · by_cases hc : c = '.'
    · subst hc
      cases h
      exact .pointed (.inl (List.cons_ne_nil d whole)) hwhole (isDigit_splitDigits more)
    · simp [hc] at h
      rw [← h.1]
      exact .whole (List.cons_ne_nil d whole) hwhole

theorem Mantissa.read (h : Mantissa piece)
    (hrest : ∀ c ∈ rest.head?, c.isDigit = false ∧ c ≠ '.') :
    mantissa? (piece ++ rest) = some (piece, rest) := by
  have hdigit (c : Char) (hc : c ∈ rest.head?) : c.isDigit = false := (hrest c hc).1
  unfold mantissa?
  cases h with
  | whole nonempty digit =>
    rw [splitDigits_eq digit hdigit]
    obtain ⟨d, digits, rfl⟩ := List.exists_cons_of_ne_nil nonempty
    cases rest with
    | nil => rfl
    | cons c rest => simp [(hrest c rfl).2]
  | @pointed whole fraction nonempty digit digit' =>
    rw [List.append_assoc, List.cons_append, splitDigits_eq digit (by simp)]
    cases whole with
    | nil =>
      obtain ⟨f, fraction, rfl⟩ := List.exists_cons_of_ne_nil (nonempty.resolve_left (· rfl))
      simp only [splitDigits_eq digit' hdigit, List.nil_append]
    | cons d whole => simp only [splitDigits_eq digit' hdigit]

theorem power_of_splitExponent (cs : List Char) : Power (splitExponent cs).1 := by
  unfold splitExponent
  have hmark := splitOne_fst ['e', 'E'] cs
  generalize splitOne ['e', 'E'] cs = start at hmark ⊢
  obtain ⟨mark, more⟩ := start
  rcases hmark with rfl | ⟨c, hc, rfl⟩
  · exact .absent
  · have hdigit := isDigit_splitDigits (splitOne ['+', '-'] more).2
    simp only
    generalize splitDigits (splitOne ['+', '-'] more).2 = digits at hdigit ⊢
    rcases digits with ⟨_ | ⟨d, digits⟩, rest⟩
    · exact .absent
    · exact .given hc (splitOne_fst ['+', '-'] more) (List.cons_ne_nil d digits) hdigit

theorem not_mem_of_isDigit {c : Char} (h : c.isDigit = true) : c ∉ ['+', '-'] := by
  intro hmem
  simp only [List.mem_cons, List.not_mem_nil, or_false] at hmem
  rcases hmem with rfl | rfl <;> cases h

theorem Power.read (h : Power piece) : splitExponent piece = (piece, []) := by
  cases h with
  | absent => rfl
  | @given mark sign digits marked signed nonempty digit =>
    have hdigits : splitDigits digits = (digits, []) := span_all digit
    obtain ⟨d, digits, rfl⟩ := List.exists_cons_of_ne_nil nonempty
    have hsign : splitOne ['+', '-'] (sign ++ d :: digits) = (sign, d :: digits) := by
      rcases signed with rfl | ⟨c, hc, rfl⟩
      · exact splitOne_of_not_mem (not_mem_of_isDigit (digit d List.mem_cons_self))
      · exact splitOne_of_mem hc
    simp only [splitExponent, splitOne_of_mem marked, hsign, hdigits, List.cons_append,
      List.nil_append]

theorem Power.head_clear (h : Power piece) :
    ∀ c ∈ piece.head?, c.isDigit = false ∧ c ≠ '.' := by
  cases h with
  | absent => simp
  | given marked signed nonempty digit =>
    intro c hc
    cases hc
    simp only [List.mem_cons, List.not_mem_nil, or_false] at marked
    rcases marked with rfl | rfl <;> decide

theorem Mantissa.splitOne_eq (h : Mantissa piece) :
    splitOne ['-'] (piece ++ rest) = ([], piece ++ rest) := by
  have hdigit {c : Char} {more : List Char} (hc : c.isDigit = true) :
      splitOne ['-'] (c :: more) = ([], c :: more) :=
    splitOne_of_not_mem fun hmem => not_mem_of_isDigit hc (List.mem_cons_of_mem '+' hmem)
  cases h with
  | whole nonempty digit =>
    obtain ⟨d, digits, rfl⟩ := List.exists_cons_of_ne_nil nonempty
    exact hdigit (digit d List.mem_cons_self)
  | @pointed whole fraction nonempty digit digit' =>
    cases whole with
    | nil => rfl
    | cons d whole => exact hdigit (digit d List.mem_cons_self)

theorem isNumber_of_number? (h : number? cs = some (piece, rest)) :
    IsNumber (String.ofList piece) := by
  simp only [number?, Option.bind_eq_bind, Option.bind_eq_some_iff, Prod.exists,
    Option.some.injEq, Prod.mk.injEq] at h
  obtain ⟨digits, more, hdigits, rfl, rfl⟩ := h
  have hmantissa := mantissa_of_mantissa? hdigits
  have hpower := power_of_splitExponent more
  -- No sign is found where none was taken, because a mantissa does not start with one.
  have hsign : splitOne ['-'] ((splitOne ['-'] cs).1 ++ (digits ++ (splitExponent more).1)) =
      ((splitOne ['-'] cs).1, digits ++ (splitExponent more).1) := by
    rcases splitOne_fst ['-'] cs with hnone | ⟨c, hc, hone⟩
    · rw [hnone]
      exact hmantissa.splitOne_eq
    · rw [hone]
      exact splitOne_of_mem hc
  simp only [IsNumber, String.toList_ofList, List.append_assoc, number?, hsign,
    hmantissa.read hpower.head_clear, hpower.read, Option.bind_eq_bind, Option.bind_some]

end FieldScript.Source
