import FieldScript.Proofs.Parse.Errors
import FieldScript.Proofs.Script.Compiling
import FieldScript.Proofs.Source.Lines
import FieldScript.Render
import Std.Data.String.ToNat

/-! Where a report says that an error is. Its place is a byte position, shown as if it were a character
count; so the report names the line and column of the failing place only if nothing before that place
takes more than one byte, and it names none if the span, counted in bytes, runs out of the text. -/
namespace FieldScript.Render

open Source

variable {shown : String} {source : List Char} {d : Diagnostic}

def placeName (place : Nat × Nat) : String := toString place.1 ++ ":" ++ toString place.2

theorem toList_placeName (place : Nat × Nat) :
    (placeName place).toList = Nat.toDigits 10 place.1 ++ ':' :: Nat.toDigits 10 place.2 := by
  simp [placeName]

theorem notMem_toDigits {c : Char} (h : c.isDigit = false) (n : Nat) : c ∉ Nat.toDigits 10 n := by
  intro hmem
  rw [Nat.isDigit_of_mem_toDigits (by decide) (by decide) hmem] at h
  cases h

theorem toDigits_inj {m n : Nat} (h : Nat.toDigits 10 m = Nat.toDigits 10 n) : m = n := by
  rw [← Nat.toList_repr, ← Nat.toList_repr, String.toList_inj] at h
  exact Nat.repr_inj.mp h

theorem append_cons_inj {x y r s : List Char} {c : Char} (hx : c ∉ x) (hy : c ∉ y)
    (h : x ++ c :: r = y ++ c :: s) : x = y ∧ r = s := by
  induction x generalizing y with
  | nil =>
    cases y with
    | nil => exact ⟨rfl, (List.cons.inj h).2⟩
    | cons b y => exact absurd ((List.cons.inj h).1 ▸ List.mem_cons_self) hy
  | cons a x ih =>
    cases y with
    | nil => exact absurd ((List.cons.inj h).1 ▸ List.mem_cons_self) hx
    | cons b y =>
      obtain ⟨rfl, htail⟩ := List.cons.inj h
      have hrest := ih (List.not_mem_of_not_mem_cons hx) (List.not_mem_of_not_mem_cons hy) htail
      exact ⟨congrArg (a :: ·) hrest.1, hrest.2⟩

theorem placeName_inj {p q : Nat × Nat} (h : placeName p = placeName q) : p = q := by
  rw [← String.toList_inj, toList_placeName, toList_placeName] at h
  obtain ⟨hline, hcolumn⟩ := append_cons_inj (notMem_toDigits rfl p.1) (notMem_toDigits rfl q.1) h
  exact Prod.ext (toDigits_inj hline) (toDigits_inj hcolumn)

theorem placeName_ne_unknown (place : Nat × Nat) : placeName place ≠ "?:?" := by
  intro h
  rw [← String.toList_inj, toList_placeName] at h
  have hline := (append_cons_inj (y := ['?']) (notMem_toDigits rfl place.1) (by decide) h).1
  exact notMem_toDigits (c := '?') rfl place.1 (hline ▸ List.mem_singleton_self '?')

theorem space_notMem_placeName (place : Nat × Nat) : ' ' ∉ (placeName place).toList := by
  rw [toList_placeName]
  simp [notMem_toDigits]

theorem placeText_of_some {position index : Nat} {line : Line}
    (h : lineAt? source position = some (index, line)) :
    placeText source position = placeName (index + 1, position - line.offset + 1) := by
  simp only [placeText, h]
  rfl

theorem placeText_of_none {position : Nat} (h : lineAt? source position = none) :
    placeText source position = "?:?" := by
  simp only [placeText, h]

theorem space_notMem_placeText (source : List Char) (position : Nat) :
    ' ' ∉ (placeText source position).toList := by
  cases h : lineAt? source position with
  | none =>
    rw [placeText_of_none h]
    decide
  | some found =>
    rw [placeText_of_some h]
    exact space_notMem_placeName _

theorem placeText_eq_iff {position n : Nat} (h : n < source.length) :
    placeText source position = placeName (place source n) ↔ position = n := by
  obtain ⟨index, line, hline, hplace⟩ := lineAt?_place h
  constructor
  · intro htext
    cases hfound : lineAt? source position with
    | none =>
      rw [placeText_of_none hfound] at htext
      exact absurd htext.symm (placeName_ne_unknown _)
    | some found =>
      rw [placeText_of_some hfound, hplace] at htext
      obtain ⟨hindex, hcolumn⟩ := Prod.mk.inj (placeName_inj htext)
      obtain ⟨foundIndex, foundLine⟩ := found
      obtain rfl := Nat.succ.inj hindex
      exact lineAt?_inj hfound hline (Nat.succ.inj hcolumn)
  · rintro rfl
    rw [placeText_of_some hline, hplace]

def title (d : Diagnostic) : String := "[" ++ d.code ++ "] Error: " ++ d.message ++ "\n"

/-- The report says where: behind the title stands a row with this place. -/
def Heads (d : Diagnostic) (place shown : String) : Prop :=
  ∃ indent rest, shown = title d ++ (blanks indent ++ "╭─[ <script>:" ++ place ++ " ]\n" ++ rest)

theorem toList_blanks (n : Nat) : (blanks n).toList = List.replicate n ' ' := by
  induction n with
  | zero => rfl
  | succ n ih =>
    have hpush : blanks (n + 1) = (blanks n).push ' ' := rfl
    rw [hpush, String.toList_push, ih, List.replicate_succ']

theorem toList_heading (indent : Nat) (place rest : String) :
    (blanks indent ++ "╭─[ <script>:" ++ place ++ " ]\n" ++ rest).toList =
      List.replicate indent ' ' ++
        '╭' :: ("─[ <script>:".toList ++ (place.toList ++ ' ' :: (']' :: '\n' :: rest.toList))) := by
  have hcorner : "╭─[ <script>:".toList = '╭' :: "─[ <script>:".toList := by simp
  have hclose : " ]\n".toList = [' ', ']', '\n'] := rfl
  rw [String.toList_append, String.toList_append, String.toList_append, String.toList_append,
    toList_blanks, hcorner, hclose]
  simp only [List.append_assoc, List.cons_append, List.nil_append]

theorem Heads.unique {place place' : String} (hspace : ' ' ∉ place.toList)
    (hspace' : ' ' ∉ place'.toList) (h : Heads d place shown) (h' : Heads d place' shown) :
    place = place' := by
  obtain ⟨indent, rest, rfl⟩ := h
  obtain ⟨indent', rest', heq⟩ := h'
  have hrows := congrArg String.toList ((String.append_right_inj _).mp heq)
  rw [toList_heading, toList_heading] at hrows
  have hcorner (n : Nat) : '╭' ∉ List.replicate n ' ' := by simp
  have hplaces := (append_cons_inj (hcorner indent) (hcorner indent') hrows).2
  rw [List.append_cancel_left_eq] at hplaces
  exact String.toList_inj.mp (append_cons_inj hspace hspace' hplaces).1

theorem not_heads_title (d : Diagnostic) (place : String) : ¬Heads d place (title d) := by
  rintro ⟨indent, rest, heq⟩
  have hempty := (String.append_right_inj (title d)).mp (String.append_empty.trans heq)
  have hchars := congrArg String.toList hempty
  rw [toList_heading] at hchars
  simp at hchars

theorem foldl_rows (out : String) (rows : List String) :
    ∃ rest, rows.foldl (fun out text => out ++ text ++ "\n") out = out ++ rest := by
  induction rows generalizing out with
  | nil => exact ⟨"", (String.append_empty).symm⟩
  | cons row rows ih =>
    obtain ⟨rest, hrest⟩ := ih (out ++ row ++ "\n")
    refine ⟨row ++ "\n" ++ rest, ?_⟩
    rw [List.foldl_cons, hrest]
    simp only [String.append_assoc]

theorem sections_ne_nil {labels : List Label} (h : labels ≠ []) : sections labels ≠ [] := by
  cases labels with
  | nil => exact absurd rfl h
  | cons label labels =>
    rw [sections]
    split
    · split <;> exact List.cons_ne_nil _ _
    · exact List.cons_ne_nil _ _

theorem diagnosticText_of_nil {source : String} (h : labelsOf source.toList d = []) :
    diagnosticText source d = title d := by
  simp only [diagnosticText, h]
  simp [sections, reportRows, title]

theorem reportRows_cons (source : List Char) (d : Diagnostic) (digits : Nat) (corner : String)
    (labels : List Label) (others : List (List Label)) :
    ∃ later, reportRows source d digits corner (labels :: others) =
      (blanks (digits + 2) ++ corner ++ "─[ <script>:" ++ placeText source d.span.start ++ " ]") ::
        later :=
  ⟨_, rfl⟩

theorem heads_diagnosticText {source : String} (h : labelsOf source.toList d ≠ []) :
    Heads d (placeText source.toList d.span.start) (diagnosticText source d) := by
  obtain ⟨labels, others, hsections⟩ := List.exists_cons_of_ne_nil (sections_ne_nil h)
  simp only [diagnosticText, hsections]
  generalize digitCount _ = digits
  obtain ⟨later, hrows⟩ := reportRows_cons source.toList d digits "╭" labels others
  rw [hrows, List.foldl_cons]
  obtain ⟨rest, hrest⟩ := foldl_rows _ later
  rw [hrest]
  refine ⟨digits + 2, rest, ?_⟩
  have hcorner : "╭─[ <script>:" = "╭" ++ "─[ <script>:" := by simp
  have hclose : " ]\n" = " ]" ++ "\n" := by simp
  simp only [title, hcorner, hclose, String.append_assoc, String.empty_append]

theorem isSome_ofSpan? {span : Span} {message : String} :
    (Label.ofSpan? source span message).isSome = true ↔
      span.start ≤ source.length ∧ span.stop ≤ source.length + 1 := by
  have hlast : Nat.max span.start (span.stop - 1) ≤ source.length ↔
      span.start ≤ source.length ∧ span.stop ≤ source.length + 1 :=
    Nat.max_le.trans (and_congr_right fun _ => Nat.sub_le_iff_le_add)
  rw [← hlast]
  cases hstart : Source.lineAt? source span.start with
  | none =>
    have hbeyond : ¬span.start ≤ source.length := by
      rw [← isSome_lineAt?, hstart]
      exact Bool.false_ne_true
    simp only [Label.ofSpan?, hstart]
    exact iff_of_false Bool.false_ne_true fun h => hbeyond (hlast.mp h).1
  | some first =>
    rw [← isSome_lineAt?]
    simp only [Label.ofSpan?, hstart]
    cases Source.lineAt? source (Nat.max span.start (span.stop - 1)) <;> exact Iff.rfl

/-- A diagnostic that starts in the text is drawn unless its own label runs out of it; another label
goes with a place between two characters only. -/
theorem labelsOf_ne_nil_iff (start : d.span.start ≤ source.length)
    (empty : d.related ≠ [] → d.span.stop = d.span.start) :
    labelsOf source d ≠ [] ↔ d.span.stop ≤ source.length + 1 := by
  by_cases hstop : d.span.stop ≤ source.length + 1
  · have hsome : (Label.ofSpan? source d.span d.message).isSome = true :=
      isSome_ofSpan?.mpr ⟨start, hstop⟩
    obtain ⟨label, hlabel⟩ := Option.isSome_iff_exists.mp hsome
    refine iff_of_true ?_ hstop
    simp only [labelsOf, List.filterMap_cons, hlabel]
    exact List.cons_ne_nil _ _
  · have hnone : Label.ofSpan? source d.span d.message = none := by
      rw [← Option.not_isSome_iff_eq_none, isSome_ofSpan?]
      exact fun h => hstop h.2
    have hrelated : d.related = [] := by
      by_contra h
      have hempty := empty h
      omega
    refine iff_of_false ?_ hstop
    simp only [labelsOf, List.filterMap_cons, hnone, hrelated]
    exact fun h => h rfl

theorem heads_iff {source : String} {before after : List Char} {c : Char}
    (read : source.toList = before ++ c :: after) (start : d.span.start = byteLength before)
    (empty : d.related ≠ [] → d.span.stop = d.span.start) :
    Heads d (placeName (place source.toList before.length)) (diagnosticText source d) ↔
      (∀ x ∈ before, x.utf8Size = 1) ∧ d.span.stop ≤ source.toList.length + 1 := by
  have hinside : before.length < source.toList.length := by simp [read]
  constructor
  · intro h
    have hdrawn : labelsOf source.toList d ≠ [] := fun hnone =>
      not_heads_title d _ (diagnosticText_of_nil hnone ▸ h)
    have hplace := Heads.unique (space_notMem_placeText _ _) (space_notMem_placeName _)
      (heads_diagnosticText hdrawn) h
    have hcount := (placeText_eq_iff hinside).mp hplace
    exact ⟨byteLength_eq_length_iff.mp (start.symm.trans hcount),
      (labelsOf_ne_nil_iff (by omega) empty).mp hdrawn⟩
  · rintro ⟨hbytes, hstop⟩
    have hcount := start.trans (byteLength_eq_length_iff.mpr hbytes)
    have hdrawn := (labelsOf_ne_nil_iff (by omega) empty).mpr hstop
    rw [← (placeText_eq_iff hinside).mpr hcount]
    exact heads_diagnosticText hdrawn

theorem text_compilation (d : Diagnostic) (source : String) :
    text (.compilation [d] source) = diagnosticText source d := by
  simp [text, String.join]

/-- A report on a script that does not compile names line and column of the failing place if and only if
all characters before that place have one byte, and the span, counted in bytes, ends within the text
counted in characters, or just behind it. -/
theorem heading_points_iff {engine : Engine} {source reported : String}
    {diagnostics : List Diagnostic}
    (failed : engine.compile source = .error (.compilation diagnostics reported))
    (found : d ∈ diagnostics) (inside : d.span.start < byteLength source.toList) :
    ∃ before c after, source.toList = before ++ c :: after ∧ d.span.start = byteLength before ∧
      (Heads d (placeName (place source.toList before.length))
          (text (.compilation diagnostics reported)) ↔
        (∀ x ∈ before, x.utf8Size = 1) ∧ d.span.stop ≤ source.toList.length + 1) := by
  rw [Engine.compile, Engine.compileWith_eq] at failed
  cases hscript : Parse.script source engine.parseMaxDepth with
  | ok statements => simp [hscript] at failed
  | error e =>
    simp only [hscript, Except.error.injEq] at failed
    cases failed
    obtain rfl := List.mem_singleton.mp found
    rw [text_compilation]
    obtain ⟨hsource, covered, hcovers, hsecond⟩ :=
      Parse.covers_of_fails (Parse.fails_of_script hscript)
    obtain ⟨before, after, hread, hstart, hstop⟩ := hcovers.split
    rw [hsource]
    cases hrest : covered ++ after with
    | nil =>
      rw [hrest, List.append_nil] at hread
      rw [hread] at inside
      exact absurd hstart (Nat.ne_of_lt inside)
    | cons c rest =>
      rw [hrest] at hread
      refine ⟨before, c, rest, hread, hstart, heads_iff hread hstart fun hrelated => ?_⟩
      have hstop' : e.span.stop = e.span.start := by
        rw [hstop, hstart, hsecond hrelated]
        rfl
      exact hstop'

/-- Behind a comment with a longer character an operator in column 5 is reported in column 6. -/
theorem heading_points_iff_accent :
    ∃ d, Engine.default.compile "# é\nA = + B" = .error (.compilation [d] "# é\nA = + B") ∧
      d.span = ⟨9, 9⟩ ∧ ¬Heads d "2:5" (text (.compilation [d] "# é\nA = + B")) ∧
      Heads d "2:6" (text (.compilation [d] "# é\nA = + B")) := by
  obtain ⟨d, failed, span, related⟩ : ∃ d, Engine.default.compile "# é\nA = + B" =
      .error (.compilation [d] "# é\nA = + B") ∧ d.span = ⟨9, 9⟩ ∧ d.related = [] :=
    ⟨_, rfl, rfl, rfl⟩
  obtain ⟨before, c, after, hread, hstart, hheads⟩ :=
    heading_points_iff failed (List.mem_singleton_self d) (by rw [span]; decide)
  have hsplit := splitAt?_append before (c :: after)
  rw [← hread, ← hstart, span] at hsplit
  obtain rfl : "# é\nA = ".toList = before := congrArg Prod.fst (Option.some.inj hsplit)
  have hlong : 'é'.utf8Size ≠ 1 := by decide
  refine ⟨d, failed, span, fun h => hlong ((hheads.mp h).1 'é' (by simp)), ?_⟩
  have hdrawn : labelsOf "# é\nA = + B".toList d ≠ [] :=
    (labelsOf_ne_nil_iff (by rw [span]; decide) fun h => absurd related h).mpr (by rw [span]; decide)
  have hheading := heads_diagnosticText hdrawn
  rw [span, (placeText_eq_iff (n := 9) (by decide)).mpr rfl, ← text_compilation] at hheading
  exact hheading

end FieldScript.Render
