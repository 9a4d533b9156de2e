import FieldScript.Proofs.Scope.Bare
import FieldScript.Proofs.Statement.Failing

/-! Statements against a bare scope. Here a failed statement can leave a trace, or read past the end
of a target, but only in three ways: a branch is taken at a point that its target does not have, a
field is copied into a new one that is shorter, or the first output of a conditional is written
before it turns out that the second cannot be created. -/
namespace FieldScript.Statement

open Outcome BareScope

variable {scope after : BareScope} {maxDepth : Nat} {e : EvalError}

/-- If the statement fails, it does so with an answer and without a trace. -/
def FailsCleanly (scope : BareScope) (maxDepth : Nat) (statement : Tree) : Prop :=
  ∀ e after, process maxDepth statement scope = .error e after → e ≠ .outOfBounds ∧ after = scope

/-- A branch writes to a field that ends before the point. -/
inductive Outruns (scope : BareScope) (maxDepth : Nat) : Tree → Prop where
  | conditional {test : TestChain} {first : Leaf × Tree} {other : Option (Leaf × Tree)}
    (outruns : OutrunsBuffer scope maxDepth test first other) :
    Outruns scope maxDepth (.conditional test first other)

/-- A field is copied into a new one that has fewer points. -/
inductive CopiesPast (scope : BareScope) : Tree → Prop where
  | copy {target : Leaf} {source : String} {field : Field}
    (stored : Host.named? scope source = some field) (longer : scope.pointCount < field.size)
    (absent : Host.named? scope target.targetName = none) (modelled : scope.givesExample = true)
    (created : scope.creates = true) : CopiesPast scope (.assign target (.leaf (.variable source)))

/-- The first output takes new values, and the second is modelled but cannot be created. -/
inductive LosesOutput (scope : BareScope) (maxDepth : Nat) : Tree → Prop where
  | conditional {test : TestChain} {first other : Leaf × Tree} {field : Field}
    {choices : List (Option (String × Option Binary64))}
    (planned : plan scope maxDepth (.conditional test first (some other)) =
      .ok (overlayPlan scope (Tree.conditional test first (some other)).outputs choices))
    (stored : Host.named? scope first.1.targetName = some field)
    (changed : Field.commit (overlay first.1.targetName field.readings choices) field ≠
      .ok () field)
    (absent : Host.named? scope other.1.targetName = none) (refused : scope.creates = false) :
    LosesOutput scope maxDepth (.conditional test first (some other))

theorem noFunction (scope : BareScope) (keyword : String) : Host.NoFunction scope keyword :=
  ⟨fun _ => rfl, fun _ => rfl⟩

theorem forM_one {write : Write} : [write].forM Write.apply scope = .error e after ↔
    Write.apply write scope = .error e after := by
  rw [forM_cons_apply_error]
  constructor
  · rintro (h | ⟨_, _, h⟩)
    · exact h
    · cases h
  · exact .inl

theorem updateOutput_modify_unchanged {name : String} {f : Field → Field}
    (h : updateOutput name (modify f) scope = .error e after) : after = scope := by
  rw [BareScope.updateOutput_eq] at h
  cases htarget : scope.target? name with
  | none =>
    rw [htarget] at h
    cases h
    rfl
  | some field =>
    rw [htarget] at h
    cases h

theorem modelled_of_checkOutput {name : String} (h : checkOutput scope name = .ok ())
    (absent : Host.named? scope name = none) : scope.givesExample = true := by
  unfold checkOutput at h
  have hcheck := (ite_eq_ok.mp h).1
  rw [named?_eq_none_iff.mp absent] at hcheck
  cases hgives : scope.givesExample with
  | true => rfl
  | false => simp [Host.example?, hgives] at hcheck

theorem copiesPast_of_planCopy {target : Leaf} {source : String} {planned : Plan}
    (hplan : planCopy scope target.targetName source = .ok planned)
    (hwrites : planned.writes.forM Write.apply scope = .error e after) (changed : after ≠ scope) :
    CopiesPast scope (.assign target (.leaf (.variable source))) := by
  obtain ⟨handles, hresolve, hplan⟩ := bind_eq_ok.mp hplan
  split at hplan
  · cases hplan
    cases hwrites
  · rw [Host.lookup_of_resolve hresolve] at hplan
    split at hplan
    · cases hplan
    · rename_i field stored
      obtain ⟨⟨⟩, hcheck, hplan⟩ := bind_eq_ok.mp hplan
      cases hplan
      cases valuesFailure_of_apply (forM_one.mp hwrites) with
      | mismatch => exact absurd rfl changed
      | unavailable => exact absurd rfl changed
      | past absent created longer =>
        rw [Field.length_readings] at longer
        exact .copy stored longer absent (modelled_of_checkOutput hcheck absent) created

theorem copiesPast_of_assign {target : Leaf} {value : Tree} {planned : Plan}
    (hplan : planAssign scope maxDepth target.targetName value = .ok planned)
    (hwrites : planned.writes.forM Write.apply scope = .error e after) (changed : after ≠ scope) :
    CopiesPast scope (.assign target value) := by
  unfold planAssign at hplan
  split at hplan
  · cases hplan
    exact absurd (updateOutput_modify_unchanged (forM_one.mp hwrites)) changed
  · cases hplan
    exact absurd (updateOutput_modify_unchanged (forM_one.mp hwrites)) changed
  · exact copiesPast_of_planCopy hplan hwrites changed
  · rename_i keyword args
    obtain ⟨_, _, hrefused⟩ := planUserCall_refused (noFunction scope keyword) target.targetName args
    rw [hrefused] at hplan
    cases hplan
  · obtain ⟨⟨⟩, _, hplan⟩ := bind_eq_ok.mp hplan
    obtain ⟨values, hvalues, hplan⟩ := bind_eq_ok.mp hplan
    cases hplan
    have hlength : values.length = scope.pointCount := by
      obtain ⟨_, _, hpoints⟩ := evaluateAll_eq_ok.mp hvalues
      exact (length_of_mapM hpoints).trans List.length_range
    cases valuesFailure_of_apply (forM_one.mp hwrites) with
    | mismatch => exact absurd rfl changed
    | unavailable => exact absurd rfl changed
    | past absent created longer => omega

section Conditionals

variable {test : TestChain} {first : Leaf × Tree} {other : Option (Leaf × Tree)}
  {target : String} {choices : List (Option (String × Option Binary64))}

theorem length_seed_bare (scope : BareScope) (target : String) :
    (seed scope target).length = seedSize scope target := by
  unfold seed seedSize
  cases Host.named? scope target with
  | some field => exact Field.length_readings field
  | none => exact List.length_replicate

theorem unavailable_of_overlay
    (h : Write.apply (overlayWrite scope choices target) scope = .error e after) :
    Host.named? scope target = none ∧ scope.creates = false ∧ after = scope := by
  have hlength := (length_overlay target (seed scope target) choices).trans
    (length_seed_bare scope target)
  unfold seedSize at hlength
  cases valuesFailure_of_apply h with
  | mismatch stored lengths =>
    rw [stored] at hlength
    exact absurd hlength.symm lengths
  | unavailable absent refused => exact ⟨absent, refused, rfl⟩
  | past absent created longer =>
    rw [absent] at hlength
    exact absurd longer (Nat.not_lt.mpr (Nat.le_of_eq hlength))

theorem overlayWrite_replace_of_ne {written : Field} {name : String} (h : written.name = name)
    (hne : target ≠ name) :
    overlayWrite (scope.replace name written) choices target =
      overlayWrite scope choices target := by
  have hcount : Host.pointCount (scope.replace name written) = Host.pointCount scope :=
    pointCount_replace
  unfold overlayWrite seed
  rw [named?_replace_of_ne h hne, hcount]

theorem outputs_conditional : (Tree.conditional test first other).outputs =
    match other with
    | none => [first.1.targetName]
    | some second =>
      if second.1.targetName = first.1.targetName then [first.1.targetName]
      else [first.1.targetName, second.1.targetName] := by
  cases other with
  | none => simp [Tree.conditional, Tree.outputs, Tree.branches, mention]
  | some second => simp [Tree.conditional, Tree.outputs, Tree.branches, mention]

theorem plan_conditional_eq_ok {σ : Type} [Host σ] {scope : σ} {planned : Plan}
    (h : plan scope maxDepth (.conditional test first other) = .ok planned) :
    ∃ choices, planned = overlayPlan scope (Tree.conditional test first other).outputs choices := by
  rw [plan_conditional, planConditional_eq] at h
  obtain ⟨_, _, h⟩ := bind_eq_ok.mp h
  obtain ⟨_, _, h⟩ := bind_eq_ok.mp h
  obtain ⟨choices, _, h⟩ := bind_eq_ok.mp h
  cases h
  exact ⟨choices, rfl⟩

theorem stored_of_target? {field : Field} (refused : scope.creates = false)
    (h : scope.target? target = some field) : Host.named? scope target = some field := by
  unfold target? at h
  split at h
  · rename_i stored hstored
    exact hstored.trans h
  · rw [refused] at h
    cases h

theorem losesOutput_of_conditional {planned : Plan}
    (hplan : plan scope maxDepth (.conditional test first other) = .ok planned)
    (hwrites : planned.writes.forM Write.apply scope = .error e after) (changed : after ≠ scope) :
    LosesOutput scope maxDepth (.conditional test first other) := by
  obtain ⟨choices, rfl⟩ := plan_conditional_eq_ok hplan
  have hclean {target : String} (h : Write.apply (overlayWrite scope choices target) scope =
      .error e after) : LosesOutput scope maxDepth (.conditional test first other) :=
    absurd (unavailable_of_overlay h).2.2 changed
  simp only [overlayPlan, outputs_conditional] at hwrites
  cases other with
  | none => exact hclean (forM_one.mp hwrites)
  | some second =>
    by_cases hsame : second.1.targetName = first.1.targetName
    · simp only [hsame, if_true] at hwrites
      exact hclean (forM_one.mp hwrites)
    · simp only [hsame, if_false] at hwrites
      rcases forM_cons_apply_error.mp hwrites with hfirst | ⟨middle, hfirst, hsecond⟩
      · exact hclean hfirst
      · obtain ⟨field, written, htarget, hname, hcommit, rfl⟩ := apply_values_ok hfirst
        have hfailed := forM_one.mp hsecond
        rw [← overlayWrite_replace_of_ne hname hsame] at hfailed
        obtain ⟨absent, refused, rfl⟩ := unavailable_of_overlay hfailed
        rw [named?_replace_of_ne hname hsame] at absent
        rw [creates_replace] at refused
        have stored := stored_of_target? refused htarget
        refine .conditional hplan stored (fun hsame => ?_) absent refused
        have hseed : seed scope first.1.targetName = field.readings := by simp only [seed, stored]
        rw [hseed, hsame] at hcommit
        cases hcommit
        exact changed (replace_self stored)

end Conditionals

theorem plan_of_copiesPast (maxDepth : Nat) {target : Leaf} {source : String} {field : Field}
    (stored : Host.named? scope source = some field)
    (absent : Host.named? scope target.targetName = none) (modelled : scope.givesExample = true) :
    plan scope maxDepth (.assign target (.leaf (.variable source))) =
      .ok ⟨[.values target.targetName field.readings], .fields [target.targetName]⟩ := by
  obtain ⟨id, hid, _⟩ := named?_eq_some stored
  obtain ⟨handles, hresolve⟩ : ∃ handles, Host.resolve scope [source] = .ok handles :=
    Host.exists_resolve_iff.mpr fun name hname => by
      rw [List.mem_singleton.mp hname]
      exact Option.isSome_of_eq_some hid
  have hapart : source ≠ target.targetName := by
    rintro rfl
    rw [absent] at stored
    cases stored
  have hcheck : checkOutput scope target.targetName = .ok () := by
    simp [checkOutput, Host.example?, modelled]
  have hplan : planCopy scope target.targetName source = .ok
      ⟨[.values target.targetName field.readings], .fields [target.targetName]⟩ := by
    simp only [planCopy, hresolve, bind, Except.bind, hapart, if_false,
      Host.lookup_of_resolve hresolve, stored, hcheck]
    rfl
  exact hplan

theorem changed_of_copiesPast {statement : Tree} (h : CopiesPast scope statement) :
    ∃ e after, process maxDepth statement scope = .error e after ∧ after ≠ scope := by
  cases h with
  | copy stored longer absent modelled created =>
    have hlonger := Nat.lt_of_lt_of_eq longer (Field.length_readings _).symm
    obtain ⟨e, after, happly, hchanged⟩ := apply_values_past absent created hlonger
    have hplan := plan_of_copiesPast maxDepth stored absent modelled
    exact ⟨e, after, process_eq_error.mpr (.inr ⟨_, hplan, forM_one.mpr happly⟩), hchanged⟩

theorem changed_of_losesOutput {statement : Tree} (h : LosesOutput scope maxDepth statement) :
    ∃ e after, process maxDepth statement scope = .error e after ∧ after ≠ scope := by
  cases h with
  | @conditional test first other field choices planned stored changed absent refused =>
    have hsame : ¬other.1.targetName = first.1.targetName := by
      intro heq
      rw [heq, stored] at absent
      cases absent
    have hseed : seed scope first.1.targetName = field.readings := by simp only [seed, stored]
    have hlength : field.size = (overlay first.1.targetName field.readings choices).length := by
      simp
    obtain ⟨written, hname, hcommit, hfirst⟩ := apply_values_stored stored hlength
    have hwritten : written ≠ field := fun heq => changed (heq ▸ hcommit)
    rw [← hseed] at hfirst
    have hsecond : Write.apply (overlayWrite scope choices other.1.targetName)
        (scope.replace first.1.targetName written) =
          .error (.outputUnavailable other.1.targetName)
            (scope.replace first.1.targetName written) := by
      have hstill : Host.named? (scope.replace first.1.targetName written) other.1.targetName =
          none := (named?_replace_of_ne hname hsame).trans absent
      rw [overlayWrite, apply_values_absent hstill, creates_replace, refused]
      rfl
    have hwrites : (overlayPlan scope (Tree.conditional test first (some other)).outputs
        choices).writes.forM Write.apply scope = .error (.outputUnavailable other.1.targetName)
          (scope.replace first.1.targetName written) := by
      simp only [overlayPlan, outputs_conditional, hsame, if_false]
      exact forM_cons_apply_error.mpr (.inr ⟨_, hfirst, forM_one.mpr hsecond⟩)
    exact ⟨.outputUnavailable other.1.targetName, scope.replace first.1.targetName written,
      process_eq_error.mpr (.inr ⟨_, planned, hwrites⟩), replace_ne stored hwritten⟩

theorem outruns_iff_plan {statement : Tree} :
    Outruns scope maxDepth statement ↔ plan scope maxDepth statement = .error .outOfBounds := by
  constructor
  · rintro ⟨outruns⟩
    exact plan_conditional_outOfBounds.mpr outruns
  · intro h
    rcases statement.form with ⟨target, value, rfl⟩ | ⟨test, first, other, rfl⟩ | hother
    · cases hkeyword : value.userKeyword? with
      | none =>
        rcases planAssign_error hkeyword h with hrefusal | ⟨⟨_, ⟨⟩⟩, _⟩
        exact absurd rfl hrefusal.2
      | some keyword =>
        obtain ⟨args, rfl⟩ := Tree.userKeyword?_eq_some hkeyword
        obtain ⟨_, hrefusal, hrefused⟩ :=
          planUserCall_refused (noFunction scope keyword) target.targetName args
        have hplan : planUserCall scope target.targetName keyword args = .error .outOfBounds := h
        rw [hrefused] at hplan
        cases hplan
        exact absurd rfl hrefusal.2
    · exact .conditional (plan_conditional_outOfBounds.mp h)
    · rw [plan_of_not_isStatement hother] at h
      cases h

theorem outruns_iff {statement : Tree} : Outruns scope maxDepth statement ↔
    ∃ after, process maxDepth statement scope = .error .outOfBounds after := by
  rw [outruns_iff_plan]
  constructor
  · exact fun h => ⟨scope, process_eq_error.mpr (.inl ⟨h, rfl⟩)⟩
  · rintro ⟨after, h⟩
    rcases process_eq_error.mp h with ⟨hplan, _⟩ | ⟨planned, hplan, hwrites⟩
    · exact hplan
    · have hrefusal : EvalError.outOfBounds.IsRefusal := by
        cases planned_of_plan hplan with
        | fields writes steps targets => exact forM_apply_refusal steps hwrites
        | nothing stored => cases hwrites
        | data target keyword args data call computed => cases computed
      exact absurd rfl hrefusal.2

theorem changed_iff {statement : Tree} :
    CopiesPast scope statement ∨ LosesOutput scope maxDepth statement ↔
      ∃ e after, process maxDepth statement scope = .error e after ∧ after ≠ scope := by
  constructor
  · rintro (hcopies | hloses)
    · exact changed_of_copiesPast hcopies
    · exact changed_of_losesOutput hloses
  · rintro ⟨e, after, h, changed⟩
    rcases process_eq_error.mp h with ⟨_, hsame⟩ | ⟨planned, hplan, hwrites⟩
    · exact absurd hsame changed
    · rcases statement.form with ⟨target, value, rfl⟩ | ⟨test, first, other, rfl⟩ | hother
      · exact .inl (copiesPast_of_assign hplan hwrites changed)
      · exact .inr (losesOutput_of_conditional hplan hwrites changed)
      · rw [plan_of_not_isStatement hother] at hplan
        cases hplan

/-- A failed statement is answered without a trace unless it fails in one of the three ways, and
each of these does fail otherwise. -/
theorem failsCleanly_iff (scope : BareScope) (maxDepth : Nat) (statement : Tree) :
    FailsCleanly scope maxDepth statement ↔ ¬(Outruns scope maxDepth statement ∨
      CopiesPast scope statement ∨ LosesOutput scope maxDepth statement) := by
  rw [changed_iff, outruns_iff, not_or]
  constructor
  · refine fun clean => ⟨?_, ?_⟩
    · rintro ⟨after, h⟩
      exact (clean _ _ h).1 rfl
    · rintro ⟨e, after, h, changed⟩
      exact changed (clean e after h).2
  · rintro ⟨hbounds, hchanged⟩ e after h
    refine ⟨?_, ?_⟩
    · rintro rfl
      exact hbounds ⟨after, h⟩
    · exact Classical.byContradiction fun changed => hchanged ⟨e, after, h, changed⟩

def uneven (creates : Bool) : BareScope :=
  ⟨#[⟨"A", #[1, 2], defaultSentinel⟩, ⟨"B", #[1], defaultSentinel⟩,
    ⟨"C", #[0, 1, 2], defaultSentinel⟩], 2, true, creates, none⟩

def aAboveOne : TestChain := ⟨⟨.variable "A", .gt, .number "1" 1⟩, []⟩

def aZeroedOrCopied : Tree :=
  .conditional aAboveOne (.variable "A", .leaf (.number "0" 0))
    (some (.variable "X", .leaf (.variable "A")))

/-- `if (A > 1) then B = A` outruns the one point of `B`, `X = C` copies three points into two, and
where `X` cannot be created `A` has been written before that is found out. -/
theorem uneven_unclean :
    ¬FailsCleanly (uneven true) 1
      (.conditional aAboveOne (.variable "B", .leaf (.variable "A")) none) ∧
    ¬FailsCleanly (uneven true) 1 (.assign (.variable "X") (.leaf (.variable "C"))) ∧
    ¬FailsCleanly (uneven false) 1 aZeroedOrCopied := by
  refine ⟨fun clean => ?_, fun clean => ?_, fun clean => ?_⟩
  · refine (failsCleanly_iff _ _ _).mp clean (.inl (outruns_iff.mpr ⟨uneven true, ?_⟩))
    with_unfolding_all rfl
  · have stored : Host.named? (uneven true) "C" = some ⟨"C", #[0, 1, 2], defaultSentinel⟩ := by
      with_unfolding_all rfl
    refine (failsCleanly_iff _ _ _).mp clean (.inr (.inl ?_))
    exact .copy stored (by decide) (by with_unfolding_all rfl) rfl rfl
  · have planned : plan (uneven false) 1 aZeroedOrCopied =
        .ok (overlayPlan (uneven false) aZeroedOrCopied.outputs
          [some ("X", some 1), some ("A", some 0)]) := by with_unfolding_all rfl
    have stored : Host.named? (uneven false) "A" = some ⟨"A", #[1, 2], defaultSentinel⟩ := by
      with_unfolding_all rfl
    have hcommit : Field.commit [some 1, some 0] ⟨"A", #[1, 2], defaultSentinel⟩ =
        .ok () ⟨"A", #[1, 0], defaultSentinel⟩ := by rfl
    refine (failsCleanly_iff _ _ _).mp clean (.inr (.inr ?_))
    refine .conditional planned stored (fun same => ?_) (by with_unfolding_all rfl) rfl
    exact absurd (EStateM.Result.ok.inj (hcommit.symm.trans same)).2 (by decide)

end FieldScript.Statement
