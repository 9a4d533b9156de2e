import FieldScript.Host.Memory
import FieldScript.Proofs.Registry.History
import Std.Data.HashMap.Lemmas

/-! A registry kept in three parts: help in order, a table of the functions that fill fields, and
one of those that compute user data. Registering a keyword writes all three. They stay consistent
in any row of registrations, and no question tells them from the one list of a registry. -/
namespace FieldScript

abbrev DataFunction : Type := Store → List Tree → Except EvalError UserData

namespace HostFunction

def field? : HostFunction → Option FieldFunction
  | .field function => some function
  | .data _ => none

def data? : HostFunction → Option DataFunction
  | .field _ => none
  | .data run => some run

end HostFunction

structure RegistryTables where
  defs : List HelpEntry
  fieldFunctions : Std.HashMap String FieldFunction
  dataFunctions : Std.HashMap String DataFunction

namespace RegistryTables

open Registration

variable {history : List Registration} {keyword : String}

def empty : RegistryTables := ⟨[], ∅, ∅⟩

def addDef (defs : List HelpEntry) (help : HelpEntry) : List HelpEntry :=
  HelpEntry.sort (defs.filter (·.name != help.name) ++ [help])

def registerField (tables : RegistryTables) (help : HelpEntry) (function : FieldFunction) :
    RegistryTables where
  dataFunctions := tables.dataFunctions.erase help.name
  fieldFunctions := tables.fieldFunctions.insert help.name function
  defs := addDef tables.defs help

def registerData (tables : RegistryTables) (help : HelpEntry) (run : DataFunction) :
    RegistryTables where
  fieldFunctions := tables.fieldFunctions.erase help.name
  dataFunctions := tables.dataFunctions.insert help.name run
  defs := addDef tables.defs help

def register (tables : RegistryTables) (entry : Registration) : RegistryTables :=
  match entry.function with
  | .field function => tables.registerField entry.help function
  | .data run => tables.registerData entry.help run

def ofHistory (history : List Registration) : RegistryTables := history.foldl register empty

def contains (tables : RegistryTables) (keyword : String) : Bool :=
  tables.fieldFunctions.contains keyword || tables.dataFunctions.contains keyword

def producesUserData (tables : RegistryTables) (keyword : String) : Bool :=
  tables.dataFunctions.contains keyword

def fillField (tables : RegistryTables) (store : Store) (keyword : String) (args : List Tree) :
    Update Field Unit :=
  match tables.fieldFunctions[keyword]? with
  | some function => function.run store args
  | none => throw (.unknownFunction keyword)

def computeData (tables : RegistryTables) (store : Store) (keyword : String) (args : List Tree) :
    Except EvalError UserData :=
  match tables.dataFunctions[keyword]? with
  | some run => run store args
  | none => .error (.unknownFunction keyword)

theorem ofHistory_concat (history : List Registration) (entry : Registration) :
    ofHistory (history ++ [entry]) = (ofHistory history).register entry := by
  simp [ofHistory]

theorem defs_register (tables : RegistryTables) (entry : Registration) :
    (tables.register entry).defs = addDef tables.defs entry.help := by
  obtain ⟨help, function | run⟩ := entry <;> rfl

theorem fieldFunctions_register (tables : RegistryTables) (entry : Registration)
    (keyword : String) :
    (tables.register entry).fieldFunctions[keyword]? =
      if entry.help.name = keyword then entry.function.field?
      else tables.fieldFunctions[keyword]? := by
  obtain ⟨help, function | run⟩ := entry <;>
    simp [register, registerField, registerData, HostFunction.field?, Std.HashMap.getElem?_insert,
      Std.HashMap.getElem?_erase]

theorem dataFunctions_register (tables : RegistryTables) (entry : Registration)
    (keyword : String) :
    (tables.register entry).dataFunctions[keyword]? =
      if entry.help.name = keyword then entry.function.data?
      else tables.dataFunctions[keyword]? := by
  obtain ⟨help, function | run⟩ := entry <;>
    simp [register, registerField, registerData, HostFunction.data?, Std.HashMap.getElem?_insert,
      Std.HashMap.getElem?_erase]

theorem defs_ofHistory (history : List Registration) :
    (ofHistory history).defs = (Registry.ofHistory history).help := by
  induction history using List.reverseRecOn with
  | nil => rfl
  | append_singleton history entry ih =>
    rw [ofHistory_concat, defs_register, ih, Registry.ofHistory_concat, Registry.help_register]
    rfl

theorem fieldFunctions_ofHistory (history : List Registration) (keyword : String) :
    (ofHistory history).fieldFunctions[keyword]? =
      (lastOf? history keyword).bind (·.function.field?) := by
  induction history using List.reverseRecOn with
  | nil => simp [ofHistory, empty, lastOf?]
  | append_singleton history entry ih =>
    rw [ofHistory_concat, fieldFunctions_register, lastOf?_concat, ih]
    split <;> rfl

theorem dataFunctions_ofHistory (history : List Registration) (keyword : String) :
    (ofHistory history).dataFunctions[keyword]? =
      (lastOf? history keyword).bind (·.function.data?) := by
  induction history using List.reverseRecOn with
  | nil => simp [ofHistory, empty, lastOf?]
  | append_singleton history entry ih =>
    rw [ofHistory_concat, dataFunctions_register, lastOf?_concat, ih]
    split <;> rfl

structure SameAnswers (tables : RegistryTables) (registry : Registry) : Prop where
  help : tables.defs = registry.help
  keywords : tables.contains = registry.contains
  dataKeywords : tables.producesUserData = registry.producesUserData
  filled : tables.fillField = registry.fillField
  computed : tables.computeData = registry.computeData

theorem sameAnswers_ofHistory (history : List Registration) :
    SameAnswers (ofHistory history) (Registry.ofHistory history) := by
  constructor
  · exact defs_ofHistory history
  · funext keyword
    rw [contains, Registry.contains_ofHistory, Std.HashMap.contains_eq_isSome_getElem?,
      Std.HashMap.contains_eq_isSome_getElem?, fieldFunctions_ofHistory, dataFunctions_ofHistory]
    obtain _ | ⟨help, function | run⟩ := lastOf? history keyword <;> rfl
  · funext keyword
    rw [producesUserData, Registry.producesUserData, Registry.find?_ofHistory,
      Std.HashMap.contains_eq_isSome_getElem?, dataFunctions_ofHistory]
    obtain _ | ⟨help, function | run⟩ := lastOf? history keyword <;> rfl
  · funext store keyword args
    rw [fillField, Registry.fillField, Registry.find?_ofHistory, fieldFunctions_ofHistory]
    obtain _ | ⟨help, function | run⟩ := lastOf? history keyword <;> rfl
  · funext store keyword args
    rw [computeData, Registry.computeData, Registry.find?_ofHistory, dataFunctions_ofHistory]
    obtain _ | ⟨help, function | run⟩ := lastOf? history keyword <;> rfl

theorem mem_fieldFunctions_iff (registered : keyword ∈ history.map (·.help.name)) :
    keyword ∈ (ofHistory history).fieldFunctions ↔
      keyword ∉ (ofHistory history).dataFunctions := by
  rw [Std.HashMap.mem_iff_isSome_getElem?, Std.HashMap.mem_iff_isSome_getElem?,
    fieldFunctions_ofHistory, dataFunctions_ofHistory]
  obtain ⟨⟨help, function | run⟩, hlast⟩ :=
    Option.isSome_iff_exists.mp (isSome_lastOf?_iff.mpr registered)
  · simp [hlast, HostFunction.field?, HostFunction.data?]
  · simp [hlast, HostFunction.field?, HostFunction.data?]

/-- A scope that sends a keyword to a function of the kind asked for, or has no such function. -/
structure Dispatches (scope : MemoryScope) (keyword : String) (function? : Option HostFunction) :
    Prop where
  kind : Host.producesUserData scope keyword = (function?.bind HostFunction.data?).isSome
  filled (args : List Tree) : Host.fillField scope keyword args =
    match function?.bind HostFunction.field? with
    | some function => function.run scope.store args
    | none => throw (.unknownFunction keyword)
  computed (args : List Tree) : Host.computeData scope keyword args =
    match function?.bind HostFunction.data? with
    | some run => run scope.store args
    | none => .error (.unknownFunction keyword)

theorem dispatches_find? (scope : MemoryScope) (keyword : String) :
    Dispatches scope keyword (scope.registry.find? keyword) := by
  constructor
  · simp only [Host.producesUserData, Registry.producesUserData]
    obtain _ | function | run := scope.registry.find? keyword <;> rfl
  · intro args
    simp only [Host.fillField, Registry.fillField]
    obtain _ | function | run := scope.registry.find? keyword <;> rfl
  · intro args
    simp only [Host.computeData, Registry.computeData]
    obtain _ | function | run := scope.registry.find? keyword <;> rfl

/-- Whatever was registered and in whichever order, help, both tables and the answers of a scope
are those of the last registration of each keyword. -/
theorem last_registrations_settle (history : List Registration) :
    HelpEntry.Increasing (ofHistory history).defs ∧
    SameAnswers (ofHistory history) (Registry.ofHistory history) ∧
    (∀ keyword,
      (ofHistory history).defs.filter (·.name == keyword) =
        ((lastOf? history keyword).map (·.help)).toList ∧
      ((lastOf? history keyword).isSome = true ↔ keyword ∈ history.map (·.help.name)) ∧
      ((ofHistory history).contains keyword = true ↔ keyword ∈ history.map (·.help.name)) ∧
      (ofHistory history).fieldFunctions[keyword]? =
        (lastOf? history keyword).bind (·.function.field?) ∧
      (ofHistory history).dataFunctions[keyword]? =
        (lastOf? history keyword).bind (·.function.data?) ∧
      (keyword ∈ history.map (·.help.name) →
        (keyword ∈ (ofHistory history).fieldFunctions ↔
          keyword ∉ (ofHistory history).dataFunctions)) ∧
      ∀ store : Store, Dispatches ⟨store, Registry.ofHistory history⟩ keyword
        ((lastOf? history keyword).map (·.function))) ∧
    ∀ other, lastOf? other = lastOf? history →
      Registry.ofHistory other = Registry.ofHistory history ∧
      SameAnswers (ofHistory other) (Registry.ofHistory history) := by
  have hsame := sameAnswers_ofHistory history
  refine ⟨?_, hsame, fun keyword => ⟨?_, isSome_lastOf?_iff, ?_,
    fieldFunctions_ofHistory history keyword, dataFunctions_ofHistory history keyword,
    mem_fieldFunctions_iff, fun store => ?_⟩, ?_⟩
  · rw [hsame.help]
    exact Registry.increasing_help history
  · rw [hsame.help]
    exact Registry.filter_help_ofHistory history keyword
  · rw [hsame.keywords, Registry.contains_ofHistory]
    exact isSome_lastOf?_iff
  · rw [← Registry.find?_ofHistory]
    exact dispatches_find? ⟨store, Registry.ofHistory history⟩ keyword
  · intro other hlast
    have hregistry := Registry.ofHistory_congr hlast
    exact ⟨hregistry, hregistry ▸ sameAnswers_ofHistory other⟩

/-- A keyword registered as a field function and then for user data, beside one that differs from
it in case only: the same as the two last registrations in the other order. -/
theorem last_registrations_settle_switched :
    let fill : HostFunction := .field (.filling ⟨0⟩)
    let fail : HostFunction := .data fun _ _ => .error (.functionFailed "k" "not implemented")
    let switched : List Registration :=
      [⟨⟨"k", "field"⟩, fill⟩, ⟨⟨"K", ""⟩, fill⟩, ⟨⟨"k", "data"⟩, fail⟩]
    let direct : List Registration := [⟨⟨"k", "data"⟩, fail⟩, ⟨⟨"K", ""⟩, fill⟩]
    "k" ∈ switched.map (·.help.name) ∧
    ("k" ∈ (ofHistory switched).fieldFunctions ↔ "k" ∉ (ofHistory switched).dataFunctions) ∧
    lastOf? direct = lastOf? switched ∧
    Registry.ofHistory direct = Registry.ofHistory switched := by
  intro fill fail switched direct
  have hlast : lastOf? direct = lastOf? switched := by
    funext keyword
    by_cases hk : "k" = keyword
    · subst hk
      simp [lastOf?, direct, switched]
    · simp [lastOf?, direct, switched, List.find?_cons, beq_eq_false_iff_ne.mpr hk]
  have hmem : "k" ∈ switched.map (·.help.name) := by simp [switched]
  have hsettled := last_registrations_settle switched
  exact ⟨hmem, (hsettled.2.2.1 "k").2.2.2.2.2.1 hmem, hlast, (hsettled.2.2.2 direct hlast).1⟩

end RegistryTables

end FieldScript
