import FieldScript.Proofs.Script.Stopping
import FieldScript.Proofs.Statement.Slice

/-! Runs on parts of the points. A script without host functions or windows gives on the first points
and on the others what it gives on all of them together, so a scope can be split at any point, run
part by part and joined again. -/
namespace FieldScript

namespace Script

open MemoryScope Statement

theorem runStatements_related {σ τ : Type} [Host σ] [Host τ] {R : σ → τ → Prop}
    {options : RunOptions} {statements : List Tree}
    (h : ∀ statement ∈ statements, Update.Related R (process options.maxDepth statement)
      (process options.maxDepth statement)) {a : σ} {b : τ} (hab : R a b) :
    (runStatements options statements a).1 = (runStatements options statements b).1 ∧
      R (runStatements options statements a).2 (runStatements options statements b).2 := by
  induction statements generalizing a b with
  | nil => exact ⟨rfl, hab⟩
  | cons statement rest ih =>
    obtain ⟨hstatement, hrest⟩ := List.forall_mem_cons.mp h
    obtain ⟨houtcome, hafter⟩ := hstatement a b hab
    have hentry : entryOf options statement a = entryOf options statement b :=
      congrArg (Entry.mk statement) houtcome
    obtain ⟨hreport, hlater⟩ := ih hrest hafter
    rw [runStatements_cons, runStatements_cons, hentry]
    split
    · exact ⟨rfl, hafter⟩
    · refine ⟨?_, hlater⟩
      simp only [scopeAfter, hreport]

/-- The same fields in the same order, each with the points that the one part has of it followed by
those of the other. -/
structure Joined (whole left right : MemoryScope) : Prop where
  leftSize : left.fields.size = whole.fields.size
  rightSize : right.fields.size = whole.fields.size
  field : ∀ (id : Nat) (field : Field), whole.fields[id]? = some field → ∃ l r,
    left.fields[id]? = some l ∧ right.fields[id]? = some r ∧
      (l.name = field.name ∧ l.sentinel = field.sentinel) ∧
      (r.name = field.name ∧ r.sentinel = field.sentinel) ∧ field.values = l.values ++ r.values

theorem joined_of_sliced {count k : Nat} {whole left right : MemoryScope}
    (hleft : Sliced 0 k count whole left) (hright : Sliced k count count whole right) :
    Joined whole left right where
  leftSize := by simp [hleft.fields]
  rightSize := by simp [hright.fields]
  field id field hfield := by
    refine ⟨field.slice 0 k, field.slice k count, by rw [hleft.getElem?_eq, hfield]; rfl,
      by rw [hright.getElem?_eq, hfield]; rfl, ⟨rfl, rfl⟩, ⟨rfl, rfl⟩, ?_⟩
    have hsize : field.values.size = count :=
      (hleft.wellFormed.sameSize id field hfield).trans hleft.points
    simp only [Field.slice, ← hsize, Array.extract_append_extract, Nat.zero_min]
    exact (Array.extract_eq_self_of_le (Nat.le_max_right _ _)).symm

/-- Run on a scope, on its first points and on the others, a script without host functions or windows
whose values fit into the levels there are gives one report three times, and the fields of the parts
are then those of the whole, split where they were split before. -/
theorem runWith_split {scope left right : MemoryScope} (reachable : scope.Reachable)
    (script : Script) {options : RunOptions}
    (noHost : ∀ statement ∈ script.statements, ¬statement.CallsHost)
    (noWindows : ∀ statement ∈ script.statements, statement.WithoutWindows)
    (levels : ∀ statement ∈ script.statements, ∀ branch ∈ statement.branches,
      branch.2.height ≤ options.maxDepth) {k : Nat}
    (first : left.fields = scope.fields.map (Field.slice 0 k))
    (others : right.fields = scope.fields.map (Field.slice k scope.pointCount)) :
    (script.runWith options left).1 = (script.runWith options scope).1 ∧
    (script.runWith options right).1 = (script.runWith options scope).1 ∧
    Joined (script.runWith options scope).2 (script.runWith options left).2
      (script.runWith options right).2 := by
  have wf := reachable.wellFormed
  have related {start stop : Nat} {part : MemoryScope}
      (sliced : Sliced start stop scope.pointCount scope part) :
      (script.runWith options scope).1 = (script.runWith options part).1 ∧
        Sliced start stop scope.pointCount (script.runWith options scope).2
          (script.runWith options part).2 :=
    runStatements_related (fun statement hstatement => related_process
      ⟨noHost statement hstatement, noWindows statement hstatement, levels statement hstatement⟩)
      sliced
  obtain ⟨hleft, leftAfter⟩ := related ⟨wf, rfl, first⟩
  obtain ⟨hright, rightAfter⟩ := related ⟨wf, rfl, others⟩
  exact ⟨hleft.symm, hright.symm, joined_of_sliced leftAfter rightAfter⟩

/-- A branch is taken at each of two points, a name has no field, and a call reads a new field. -/
def branching : Script where
  statements := [splitAtOne, .assign (.variable "Y") (.leaf (.variable "Z")),
    .assign (.variable "C") (.call (.builtin .abs) [.leaf (.variable "X")])]
  options := .default

def onePoint (value : Binary64) : MemoryScope :=
  (MemoryScope.empty.install ⟨"A", #[value], defaultSentinel⟩).2

theorem branching_split :
    (twoPoints.Reachable ∧ (∀ statement ∈ branching.statements, ¬statement.CallsHost) ∧
      (∀ statement ∈ branching.statements, statement.WithoutWindows) ∧
      (∀ statement ∈ branching.statements, ∀ branch ∈ statement.branches,
        branch.2.height ≤ RunOptions.default.maxDepth) ∧
      (onePoint 1).fields = twoPoints.fields.map (Field.slice 0 1) ∧
      (onePoint 2).fields = twoPoints.fields.map (Field.slice 1 twoPoints.pointCount)) ∧
    (branching.runWith .default twoPoints).1.failures.map (·.2) = [.unresolvedName "Z"] ∧
    (branching.runWith .default twoPoints).2.fields =
      #[⟨"A", #[1, 0], defaultSentinel⟩, ⟨"X", #[1, defaultSentinel], defaultSentinel⟩,
        ⟨"C", #[1, defaultSentinel], defaultSentinel⟩] ∧
    (branching.runWith .default (onePoint 1)).1 = (branching.runWith .default twoPoints).1 ∧
    (branching.runWith .default (onePoint 2)).1 = (branching.runWith .default twoPoints).1 ∧
    Joined (branching.runWith .default twoPoints).2 (branching.runWith .default (onePoint 1)).2
      (branching.runWith .default (onePoint 2)).2 := by
  have noHost : ∀ statement ∈ branching.statements, ¬statement.CallsHost := by
    simp [branching, splitAtOne, Tree.CallsHost]
  have noWindows : ∀ statement ∈ branching.statements, statement.WithoutWindows := by
    simp [branching, splitAtOne, Tree.WithoutWindows, Tree.Every, Tree.EveryArg, Tree.isWindowCall,
      Builtin.isWindow]
  have levels : ∀ statement ∈ branching.statements, ∀ branch ∈ statement.branches,
      branch.2.height ≤ RunOptions.default.maxDepth := by
    decide
  have first : (onePoint 1).fields = twoPoints.fields.map (Field.slice 0 1) := by
    with_unfolding_all rfl
  have others :
      (onePoint 2).fields = twoPoints.fields.map (Field.slice 1 twoPoints.pointCount) := by
    with_unfolding_all rfl
  exact ⟨⟨reachable_twoPoints, noHost, noWindows, levels, first, others⟩,
    by decide +kernel, by decide +kernel,
    runWith_split reachable_twoPoints branching noHost noWindows levels first others⟩

end Script

end FieldScript
