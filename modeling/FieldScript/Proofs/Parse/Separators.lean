import FieldScript.Proofs.Grammar.Separators
import FieldScript.Proofs.Outcome
import FieldScript.Proofs.Parse.Nesting

/-! Two scripts with a separator between them are one script: it is accepted if both are, and its
statements are those of the one and then those of the other. -/
namespace FieldScript.Parse

open Source Outcome

variable {maxDepth : Nat} {cs ds : List Char} {trees : List Tree}

def Accepts (maxDepth : Nat) (cs : List Char) (trees : List Tree) : Prop :=
  nesting cs ≤ maxDepth ∧ Spells cs trees

theorem spells_append_separator (hmark : '#' ∉ cs) (hmark' : '#' ∉ ds) :
    Spells (cs ++ ';' :: ds) trees ↔
      ∃ first more, Spells cs first ∧ Spells ds more ∧ trees = first ++ more := by
  have hcount : levels (cs ++ ';' :: ds) = levels cs + levels ds := by
    simp [levels, List.count_append]
  have hcs : cs.count '(' ≤ levels (cs ++ ';' :: ds) := by
    rw [hcount]
    exact Nat.le_add_right ..
  have hds : ds.count '(' ≤ levels (cs ++ ';' :: ds) := by
    rw [hcount]
    exact Nat.le_add_left ..
  refine (Grammar.spelled_append_separator hcs hmark hmark').trans ?_
  simp only [Grammar.spelled_enough hmark hcs (Nat.le_refl _),
    Grammar.spelled_enough hmark' hds (Nat.le_refl _)]
  exact Iff.rfl

theorem nesting_append_separator (hmark : '#' ∉ cs) {first : List Tree} (h : Spells cs first) :
    nesting (cs ++ ';' :: ds) = max (nesting cs) (nesting ds) := by
  have hnests := nests_of_spells hmark h
  have hjoined : nesting (cs ++ ';' :: ds) = max (0 + _) (nesting ds) := hnests 0 (';' :: ds)
  rw [hjoined, hnests.nesting_eq, Nat.zero_add]

theorem accepts_append_separator (hmark : '#' ∉ cs) (hmark' : '#' ∉ ds) :
    Accepts maxDepth (cs ++ ';' :: ds) trees ↔
      ∃ first more, Accepts maxDepth cs first ∧ Accepts maxDepth ds more ∧
        trees = first ++ more := by
  unfold Accepts
  rw [spells_append_separator hmark hmark']
  constructor
  · rintro ⟨hdepth, first, more, hfirst, hmore, rfl⟩
    rw [nesting_append_separator hmark hfirst, Nat.max_le] at hdepth
    exact ⟨first, more, ⟨hdepth.1, hfirst⟩, ⟨hdepth.2, hmore⟩, rfl⟩
  · rintro ⟨first, more, ⟨hdepth, hfirst⟩, ⟨hdepth', hmore⟩, rfl⟩
    rw [nesting_append_separator hmark hfirst, Nat.max_le]
    exact ⟨⟨hdepth, hdepth'⟩, first, more, hfirst, hmore, rfl⟩

theorem toList_intercalate_cons (line next : String) (rest : List String) :
    (";".intercalate (line :: next :: rest)).toList =
      line.toList ++ ';' :: (";".intercalate (next :: rest)).toList := by
  simp [String.intercalate_cons_cons]

theorem mark_not_mem_intercalate {lines : List String}
    (unmarked : ∀ line ∈ lines, '#' ∉ line.toList) : '#' ∉ (";".intercalate lines).toList := by
  induction lines with
  | nil => decide
  | cons line rest ih =>
    obtain ⟨hline, hrest⟩ := List.forall_mem_cons.mp unmarked
    cases rest with
    | nil => simpa using hline
    | cons next rest =>
      rw [toList_intercalate_cons, List.mem_append, List.mem_cons, not_or, not_or]
      exact ⟨hline, by decide, ih hrest⟩

theorem script_intercalate {lines : List String} {readings : List (List Tree)}
    (unmarked : ∀ line ∈ lines, '#' ∉ line.toList)
    (read : lines.mapM (fun line => script line maxDepth) = .ok readings) :
    script (";".intercalate lines) maxDepth = .ok readings.flatten := by
  induction lines generalizing readings with
  | nil =>
    cases read
    exact script_eq_ok.mpr ⟨Nat.zero_le maxDepth, [], [], rfl, rfl⟩
  | cons line rest ih =>
    obtain ⟨trees, others, hline, hrest, rfl⟩ := mapM_cons_eq_ok.mp read
    obtain ⟨hmark, hmarks⟩ := List.forall_mem_cons.mp unmarked
    have hothers := ih hmarks hrest
    cases rest with
    | nil =>
      cases hrest
      simpa using hline
    | cons next rest =>
      rw [script_eq_ok, toList_intercalate_cons]
      exact (accepts_append_separator hmark (mark_not_mem_intercalate hmarks)).mpr
        ⟨trees, others.flatten, script_eq_ok.mp hline, script_eq_ok.mp hothers, rfl⟩

theorem script_joined (first second : String) (maxDepth : Nat) (trees : List Tree)
    (uncommented : '#' ∉ first.toList) (uncommented' : '#' ∉ second.toList) :
    script (first ++ ";" ++ second) maxDepth = .ok trees ↔
      ∃ front rest, script first maxDepth = .ok front ∧ script second maxDepth = .ok rest ∧
        trees = front ++ rest := by
  have hjoined : (first ++ ";" ++ second).toList = first.toList ++ ';' :: second.toList := by
    simp [String.toList_append]
  simp only [script_eq_ok, hjoined]
  exact accepts_append_separator uncommented uncommented'

/-- Behind a conditional without another branch the separator ends it. -/
theorem conditional_joined :
    script "if (A > 0) then B = A;; ;C = exp(B)" 1 = .ok
      [.guarded ⟨⟨.variable "A", .gt, .number "0" ⟨0⟩⟩, []⟩ (.variable "B")
          (.leaf (.variable "A")),
        .assign (.variable "C") (.call (.builtin .exp) [.leaf (.variable "B")])] :=
  (script_joined "if (A > 0) then B = A;" " ;C = exp(B)" 1 _ (by decide) (by decide)).mpr
    ⟨_, _, by rfl, by rfl, by rfl⟩

end FieldScript.Parse
