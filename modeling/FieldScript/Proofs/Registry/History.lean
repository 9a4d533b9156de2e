import FieldScript.Proofs.Help.Order
import FieldScript.Registry
import Mathlib.Data.List.Induction

/-! What a registry holds after a row of registrations: for every keyword the last registration of
it, in help order, and nothing else. So a registry is settled by the last registrations alone. -/
namespace FieldScript

namespace Registration

variable {history : List Registration} {entry : Registration} {keyword : String}

def lastOf? (history : List Registration) (keyword : String) : Option Registration :=
  history.reverse.find? fun entry => entry.help.name == keyword

theorem lastOf?_concat (history : List Registration) (entry : Registration) (keyword : String) :
    lastOf? (history ++ [entry]) keyword =
      if entry.help.name = keyword then some entry else lastOf? history keyword := by
  simp only [lastOf?, List.reverse_append, List.reverse_singleton, List.singleton_append,
    List.find?_cons]
  by_cases hname : entry.help.name = keyword
  · simp [hname]
  · simp [hname, beq_eq_false_iff_ne.mpr hname]

theorem name_of_lastOf? (h : lastOf? history keyword = some entry) :
    entry.help.name = keyword := by
  simpa using List.find?_some h

theorem isSome_lastOf?_iff :
    (lastOf? history keyword).isSome = true ↔ keyword ∈ history.map (·.help.name) := by
  simp [lastOf?]

end Registration

namespace Registry

open Registration

variable {registry : Registry} {history : List Registration} {entry : Registration}
  {keyword : String}

def ofHistory (history : List Registration) : Registry :=
  history.foldl (fun registry entry => registry.register entry.help entry.function) empty

theorem ofHistory_concat (history : List Registration) (entry : Registration) :
    ofHistory (history ++ [entry]) =
      (ofHistory history).register entry.help entry.function := by
  simp [ofHistory]

theorem mem_register (new : Registration) :
    entry ∈ (registry.register new.help new.function).entries ↔
      entry = new ∨ (entry ∈ registry.entries ∧ entry.help.name ≠ new.help.name) := by
  simp only [register, List.mem_mergeSort, List.mem_append, List.mem_filter, bne_iff_ne,
    List.mem_singleton]
  exact or_comm

theorem help_register (registry : Registry) (new : Registration) :
    (registry.register new.help new.function).help =
      HelpEntry.sort (registry.help.filter (·.name != new.help.name) ++ [new.help]) := by
  simp only [help, register, HelpEntry.sort, List.filter_map]
  rw [List.map_mergeSort (s := HelpEntry.le) (fun _ _ _ _ => rfl), List.map_append]
  rfl

theorem mem_ofHistory : entry ∈ (ofHistory history).entries ↔
    lastOf? history entry.help.name = some entry := by
  induction history using List.reverseRecOn with
  | nil => simp [ofHistory, empty, lastOf?]
  | append_singleton history new ih =>
    rw [ofHistory_concat, mem_register, lastOf?_concat, ih]
    by_cases hname : new.help.name = entry.help.name
    · simp [hname, eq_comm]
    · have hne : entry ≠ new := fun heq => hname (congrArg (·.help.name) heq.symm)
      simp [hname, Ne.symm hname, hne]

theorem increasing_help (history : List Registration) :
    HelpEntry.Increasing (ofHistory history).help := by
  induction history using List.reverseRecOn with
  | nil => exact List.Pairwise.nil
  | append_singleton history new ih =>
    rw [ofHistory_concat, help_register]
    apply HelpEntry.increasing_sort
    refine List.Nodup.append (ih.nodup.filter _) (List.nodup_singleton _) ?_
    simp [List.disjoint_singleton]

theorem find?_ofHistory (history : List Registration) (keyword : String) :
    (ofHistory history).find? keyword = (lastOf? history keyword).map (·.function) := by
  simp only [find?]
  congr 1
  cases hfound : (ofHistory history).entries.find? fun entry => entry.help.name == keyword with
  | some entry =>
    have hname : entry.help.name = keyword := by simpa using List.find?_some hfound
    rw [← hname, mem_ofHistory.mp (List.mem_of_find?_eq_some hfound)]
  | none =>
    cases hlast : lastOf? history keyword with
    | none => rfl
    | some entry =>
      have hmem : entry ∈ (ofHistory history).entries :=
        mem_ofHistory.mpr (by rw [name_of_lastOf? hlast, hlast])
      exact absurd (name_of_lastOf? hlast) (by simpa using List.find?_eq_none.mp hfound entry hmem)

theorem contains_ofHistory (history : List Registration) (keyword : String) :
    (ofHistory history).contains keyword = (lastOf? history keyword).isSome := by
  rw [contains, find?_ofHistory, Option.isSome_map]

theorem filter_help_ofHistory (history : List Registration) (keyword : String) :
    (ofHistory history).help.filter (·.name == keyword) =
      ((lastOf? history keyword).map (·.help)).toList := by
  have hmem (given : HelpEntry) : given ∈ (ofHistory history).help.filter (·.name == keyword) ↔
      given ∈ ((lastOf? history keyword).map (·.help)).toList := by
    simp only [help, List.mem_filter, List.mem_map, mem_ofHistory, beq_iff_eq,
      Option.mem_toList, Option.map_eq_some_iff]
    constructor
    · rintro ⟨⟨entry, hlast, rfl⟩, rfl⟩
      exact ⟨entry, hlast, rfl⟩
    · rintro ⟨entry, hlast, rfl⟩
      have hname := name_of_lastOf? hlast
      exact ⟨⟨entry, by rwa [hname], rfl⟩, hname⟩
  have hnodup := (increasing_help history).nodup.filter (·.name == keyword)
  cases hlast : lastOf? history keyword with
  | none =>
    simp only [hlast, Option.map_none, Option.toList_none, List.not_mem_nil, iff_false] at hmem ⊢
    exact List.eq_nil_iff_forall_not_mem.mpr hmem
  | some entry =>
    simp only [hlast, Option.map_some, Option.toList_some] at hmem ⊢
    exact List.perm_singleton.mp ((List.perm_ext_iff_of_nodup hnodup (List.nodup_singleton _)).mpr hmem)

theorem ofHistory_congr {other : List Registration} (same : lastOf? history = lastOf? other) :
    ofHistory history = ofHistory other := by
  have hordered (history : List Registration) : (ofHistory history).entries.Pairwise
      (fun a b => a.help.compare b.help = .lt) :=
    List.pairwise_map.mp (increasing_help history)
  have hnodup (history : List Registration) : (ofHistory history).entries.Nodup :=
    List.Nodup.of_map _ (increasing_help history).nodup
  have hperm : (ofHistory history).entries.Perm (ofHistory other).entries := by
    rw [List.perm_ext_iff_of_nodup (hnodup history) (hnodup other)]
    simp [mem_ofHistory, same]
  refine congrArg mk (hperm.eq_of_pairwise ?_ (hordered history) (hordered other))
  intro a b _ _ hab hba
  exact absurd hba (Std.OrientedCmp.not_lt_of_lt hab)

end Registry

end FieldScript
