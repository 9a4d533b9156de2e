import FieldScript.Proofs.Source.Alike
import FieldScript.Proofs.Source.Nesting
import FieldScript.Proofs.Source.Pieces

/-! Texts that differ in their blanks only. A run of blanks may be laid out anew, but not be taken
out except at the end, so the texts hold the same lexemes, and no two of them run together. -/
namespace FieldScript.Source

def IsRun (run : List Char) : Prop := run ≠ [] ∧ ∀ c ∈ run, isBlank c = true

/-- The text with its longest runs of blanks replaced, the `n`th and those behind it by `fill n`,
`fill (n + 1)` and so on; `inside` says that a run is being read. -/
def refilledFrom (fill : Nat → List Char) (inside : Bool) (n : Nat) : List Char → List Char
  | [] => []
  | c :: cs =>
    if isBlank c then
      if inside then refilledFrom fill true n cs else fill n ++ refilledFrom fill true (n + 1) cs
    else c :: refilledFrom fill false n cs

def refilled (fill : Nat → List Char) (source : List Char) : List Char :=
  refilledFrom fill false 0 source

/-- The same characters, and runs of blanks at the same places, but the first text may have more of
them at its end. -/
inductive SameLayout : List Char → List Char → Prop where
  | ended {blanks : List Char} (h : ∀ c ∈ blanks, isBlank c = true) : SameLayout blanks []
  | kept {c : Char} {cs ds : List Char} (solid : isBlank c = false) (rest : SameLayout cs ds) :
    SameLayout (c :: cs) (c :: ds)
  | run {blanks blanks' cs ds : List Char} (h : IsRun blanks) (h' : IsRun blanks')
    (rest : SameLayout cs ds) : SameLayout (blanks ++ cs) (blanks' ++ ds)

variable {run cs ds : List Char}

theorem IsRun.append_blank {c : Char} (h : IsRun run) (hc : isBlank c = true) :
    IsRun (run ++ [c]) := by
  refine ⟨by simp, fun d hd => ?_⟩
  rcases List.mem_append.mp hd with hd | hd
  · exact h.2 d hd
  · exact List.mem_singleton.mp hd ▸ hc

theorem isRun_blank {c : Char} (hc : isBlank c = true) : IsRun [c] :=
  ⟨by simp, by simpa using hc⟩

theorem sameLayout_refilledFrom {fill : Nat → List Char} (h : ∀ n, IsRun (fill n)) (n : Nat)
    (cs : List Char) : SameLayout cs (refilledFrom fill false n cs) ∧
      ∀ blanks blanks', IsRun blanks → IsRun blanks' →
        SameLayout (blanks ++ cs) (blanks' ++ refilledFrom fill true n cs) := by
  induction cs generalizing n with
  | nil => exact ⟨.ended nofun, fun _ _ hblanks hblanks' => .run hblanks hblanks' (.ended nofun)⟩
  | cons c cs ih =>
    cases hc : isBlank c with
    | true =>
      refine ⟨?_, fun blanks blanks' hblanks hblanks' => ?_⟩
      · rw [refilledFrom, if_pos hc, if_neg (by decide)]
        exact (ih (n + 1)).2 [c] (fill n) (isRun_blank hc) (h n)
      · rw [refilledFrom, if_pos hc, if_pos rfl, List.append_cons]
        exact (ih n).2 _ blanks' (hblanks.append_blank hc) hblanks'
    | false =>
      have hkept (inside : Bool) : SameLayout (c :: cs) (refilledFrom fill inside n (c :: cs)) := by
        rw [refilledFrom, if_neg (by simp [hc])]
        exact .kept hc (ih n).1
      exact ⟨hkept false, fun _ _ hblanks hblanks' => .run hblanks hblanks' (hkept true)⟩

theorem sameLayout_refilled {fill : Nat → List Char} (h : ∀ n, IsRun (fill n)) (cs : List Char) :
    SameLayout cs (refilled fill cs) := (sameLayout_refilledFrom h 0 cs).1

theorem sameLayout_append_blanks {blanks : List Char} (h : ∀ c ∈ blanks, isBlank c = true)
    (cs : List Char) : SameLayout (cs ++ blanks) cs := by
  induction cs with
  | nil => exact .ended h
  | cons c cs ih =>
    cases hc : isBlank c with
    | true => exact .run (isRun_blank hc) (isRun_blank hc) ih
    | false => exact .kept hc ih

theorem not_mem_of_blank {c : Char} (h : ∀ c ∈ run, isBlank c = true) (hc : isBlank c = false) :
    c ∉ run := by
  intro hmem
  rw [h c hmem] at hc
  cases hc

theorem nests_of_blank (h : ∀ c ∈ run, isBlank c = true) : Nests 0 run :=
  nests_of_not_mem (not_mem_of_blank h (by decide)) (not_mem_of_blank h (by decide))

theorem SameLayout.count_eq {c : Char} (h : SameLayout cs ds) (hc : isBlank c = false) :
    cs.count c = ds.count c := by
  induction h with
  | ended h => rw [List.count_nil, List.count_eq_zero.mpr (not_mem_of_blank h hc)]
  | kept solid rest ih => rw [List.count_cons, List.count_cons, ih]
  | run h h' rest ih =>
    rw [List.count_append, List.count_append, List.count_eq_zero.mpr (not_mem_of_blank h.2 hc),
      List.count_eq_zero.mpr (not_mem_of_blank h'.2 hc), ih]

theorem SameLayout.deepestFrom_eq (h : SameLayout cs ds) (depth : Nat) :
    deepestFrom depth cs = deepestFrom depth ds := by
  induction h generalizing depth with
  | @ended blanks h =>
    have hnests := nests_of_blank h depth []
    rw [List.append_nil] at hnests
    simp [hnests, deepestFrom]
  | kept solid rest ih => simp only [deepestFrom, ih]
  | run h h' rest ih => rw [nests_of_blank h.2, nests_of_blank h'.2, ih]

def LaidOutAlike (cs ds : List Char) : Prop := SameLayout cs ds ∧ '#' ∉ cs

theorem LaidOutAlike.not_mem (h : LaidOutAlike cs ds) : '#' ∉ ds := by
  have hcount := h.1.count_eq (c := '#') (by decide)
  rw [List.count_eq_zero.mpr h.2] at hcount
  exact List.count_eq_zero.mp hcount.symm

theorem head_isSkipped (h : ∀ c ∈ run, isBlank c = true) : ∀ c ∈ run.head?, isSkipped c = true :=
  fun c hc => by simp [isSkipped, h c (List.mem_of_mem_head? hc)]

theorem IsRun.head_isSkipped (h : IsRun run) (cs : List Char) :
    ∀ c ∈ (run ++ cs).head?, isSkipped c = true := by
  cases run with
  | nil => exact absurd rfl h.1
  | cons c run => exact fun d hd => Source.head_isSkipped h.2 d hd

theorem splitBlanks_run (h : ∀ c ∈ run, isBlank c = true) (cs : List Char) :
    (splitBlanks false (run ++ cs)).2 = (splitBlanks false cs).2 := by
  induction run with
  | nil => rfl
  | cons c run ih =>
    obtain ⟨hc, hrun⟩ := List.forall_mem_cons.mp h
    rw [List.cons_append, splitBlanks_blank hc, ih hrun]

theorem LaidOutAlike.splitBlanks (h : LaidOutAlike cs ds) :
    LaidOutAlike (splitBlanks false cs).2 (splitBlanks false ds).2 := by
  obtain ⟨h, hmark⟩ := h
  induction h with
  | ended h =>
    have hblanks := splitBlanks_run h []
    rw [List.append_nil] at hblanks
    rw [hblanks]
    exact ⟨.ended nofun, List.not_mem_nil⟩
  | kept solid rest ih =>
    have hc := (List.ne_of_not_mem_cons hmark).symm
    rw [splitBlanks_kept solid hc, splitBlanks_kept solid hc]
    exact ⟨.kept solid rest, hmark⟩
  | run h h' rest ih =>
    rw [splitBlanks_run h.2, splitBlanks_run h'.2]
    exact ih fun hmem => hmark (List.mem_append_right _ hmem)

theorem LaidOutAlike.still (h : LaidOutAlike cs ds) (hstill : (Source.splitBlanks false cs).2 = cs) :
    (Source.splitBlanks false ds).2 = ds := by
  obtain ⟨h, hmark⟩ := h
  cases h with
  | ended => rfl
  | kept solid rest =>
    rw [splitBlanks_kept solid (List.ne_of_not_mem_cons hmark).symm]
  | @run blanks _ cs _ h h' rest =>
    have hlength := congrArg List.length (append_splitBlanks false cs)
    rw [splitBlanks_run h.2] at hstill
    rw [hstill] at hlength
    have hblanks := List.length_pos_iff.mpr h.1
    simp only [List.length_append] at hlength
    omega

theorem goOnAlike_laidOutAlike : GoOnAlike isSkipped LaidOutAlike := by
  rintro _ _ ⟨h, hmark⟩
  cases h with
  | ended h => exact .gap (head_isSkipped h) nofun
  | kept solid rest => exact .same _ ⟨rest, fun hmem => hmark (List.mem_cons_of_mem _ hmem)⟩
  | run h h' rest => exact .gap (h.head_isSkipped _) (h'.head_isSkipped _)

end FieldScript.Source
