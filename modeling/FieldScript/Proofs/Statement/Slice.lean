import FieldScript.Proofs.Scope.Slice
import FieldScript.Proofs.Statement.Independence
import FieldScript.Proofs.Statement.Success

/-! Statements on a stretch of the points. Without window operators a value at a point depends on that
point alone, so a statement is planned for a stretch as it is for all points, with the values of the
stretch, and comes to the same there. -/
namespace FieldScript

open Outcome

def Tree.isWindowCall : Tree → Bool
  | .call (.builtin op) _ => op.isWindow
  | _ => false

def Tree.WithoutWindows (tree : Tree) : Prop := tree.Every fun node => node.isWindowCall = false

theorem Evaluator.valueAt_of_leaves {ev ev' : Evaluator} {point point' : Nat}
    (levels : ev.maxDepth = ev'.maxDepth)
    (leaves : ∀ content, ev.readLeaf point content = ev'.readLeaf point' content) {tree : Tree}
    (noWindows : tree.WithoutWindows) : ev.valueAt tree point = ev'.valueAt tree point' := by
  have hargs {callee : Callee} {args : List Tree} (h : (Tree.call callee args).WithoutWindows) :
      ∀ arg ∈ args, arg.WithoutWindows := (Tree.every_call.mp h).2
  have hwindows {op : Builtin} {args : List Tree}
      (h : (Tree.call (.builtin op) args).WithoutWindows) (hop : op.isWindow = true) :
      ev.windowAt op point args = ev'.windowAt op point' args := by
    have hnone : op.isWindow = false := (Tree.every_call.mp h).1
    rw [hnone] at hop
    cases hop
  exact valueFrom_congr (P := Tree.WithoutWindows) levels hargs (fun _ content _ => leaves content)
    hwindows noWindows 0

namespace Write

def slice (start stop : Nat) : Write → Write
  | .values target readings => .values target (readings.extract start stop)
  | write => write

end Write

namespace Plan

def slice (start stop : Nat) (plan : Plan) : Plan :=
  ⟨plan.writes.map (Write.slice start stop), plan.produced⟩

end Plan

namespace Statement

open MemoryScope

variable {start stop count maxDepth : Nat} {whole part : MemoryScope}

theorem related_apply {write : Write} (hstep : write.step?.isSome = true)
    (fits : ∀ target values, write = .values target values → values.length = count) :
    Update.Related (Sliced start stop count) (Write.apply write)
      (Write.apply (write.slice start stop)) := by
  cases write with
  | fill target value =>
    exact related_updateOutput (Update.keepsShape_modify fun field => field.sameShape_fill value)
      (Field.related_fill value) target
  | clear target =>
    exact related_updateOutput
      (Update.keepsShape_modify fun field => field.sameShape_fill field.sentinel)
      Field.related_clear target
  | values target values =>
    intro whole part sliced
    have hlength := fits target values rfl
    have hpart : (values.extract start stop).length = part.pointCount := by
      rw [sliced.pointCount_eq]
      simp
      omega
    have hupdate := related_updateOutput (Field.keepsShape_commit values)
      (Field.related_commit hlength) target whole part sliced
    have hwhole := apply_values sliced.wellFormed target (hlength.trans sliced.points.symm)
    unfold Update.outcome Update.after at hupdate ⊢
    rw [Write.slice, hwhole, apply_values sliced.part_wellFormed target hpart]
    exact hupdate
  | data target data => cases hstep

theorem related_commit {planned : Plan} (steps : ∀ write ∈ planned.writes, write.step?.isSome = true)
    (fits : ∀ target values, .values target values ∈ planned.writes → values.length = count) :
    Update.Related (Sliced start stop count) (commit planned)
      (commit (planned.slice start stop)) := by
  refine Update.Related.bind (Update.related_forM_map fun write hwrite => ?_) fun _ =>
    Update.related_pure _
  exact related_apply (steps write hwrite) fun target values heq => fits target values (heq ▸ hwrite)

theorem readLeaf_slice (sliced : Sliced start stop count whole part) {point : Nat}
    (h : point < min stop count - start) (content : Leaf) :
    (pointEvaluator part maxDepth).readLeaf point content =
      (pointEvaluator whole maxDepth).readLeaf (start + point) content := by
  rcases content with name | ⟨label, value⟩ | _
  · have hnamed : Host.named? part name = (Host.named? whole name).map (Field.slice start stop) :=
      sliced.field?_eq name
    simp only [Evaluator.readLeaf, lookup_pointEvaluator, hnamed]
    cases hfield : Host.named? whole name with
    | none => rfl
    | some field =>
      have hsize : field.size = count := (sliced.wellFormed.size_named hfield).trans sliced.points
      exact Field.read_slice (hsize ▸ h)
  · rfl
  · rfl

theorem valueAt_slice (sliced : Sliced start stop count whole part) {tree : Tree}
    (noWindows : tree.WithoutWindows) {point : Nat} (h : point < min stop count - start) :
    (pointEvaluator part maxDepth).valueAt tree point =
      (pointEvaluator whole maxDepth).valueAt tree (start + point) := by
  have levels : (pointEvaluator part maxDepth).maxDepth =
      (pointEvaluator whole maxDepth).maxDepth := rfl
  exact Evaluator.valueAt_of_leaves levels (readLeaf_slice sliced h) noWindows

theorem requireFields_slice (sliced : Sliced start stop count whole part) (names : List String) :
    Host.requireFields part names = Host.requireFields whole names :=
  forM_congr fun name _ => by
    have hid : Host.fieldId? part name = Host.fieldId? whole name := sliced.fieldId?_eq name
    rw [hid]

theorem checkOutput_slice (sliced : Sliced start stop count whole part) :
    checkOutput part = checkOutput whole := by
  funext name
  have hid : Host.fieldId? part name = Host.fieldId? whole name := sliced.fieldId?_eq name
  have hmodel : Host.example? part name =
      (Host.example? whole name).map (Field.slice start stop) := sliced.model?_eq name
  rw [checkOutput, checkOutput, hid, hmodel, Option.isSome_map]

theorem evaluateAll_slice (sliced : Sliced start stop count whole part) {tree : Tree}
    (noWindows : tree.WithoutWindows) (levels : tree.height ≤ maxDepth) :
    evaluateAll part maxDepth tree =
      (evaluateAll whole maxDepth tree).map fun values => values.extract start stop := by
  have hpoints : Host.pointCount part = min stop count - start := sliced.pointCount_eq
  have hcount : Host.pointCount whole = count := sliced.points
  rw [evaluateAll_eq, evaluateAll_eq, requireFields_slice sliced, hpoints, hcount]
  cases hcheck : tree.checkPointwise with
  | error e => rfl
  | ok _ =>
    cases hfields : Host.requireFields whole tree.inputs with
    | error e => rfl
    | ok _ =>
      have found := Host.requireFields_eq_ok.mp hfields
      exact mapM_range_extract (fun point _ => exists_valueAt hcheck levels found point)
        fun point hpoint => valueAt_slice sliced noWindows hpoint

theorem planCopy_slice (sliced : Sliced start stop count whole part) (target source : String) :
    planCopy part target source =
      (planCopy whole target source).map (Plan.slice start stop) := by
  have hnamed : Host.named? part source = (Host.named? whole source).map (Field.slice start stop) :=
    sliced.field?_eq source
  rw [planCopy_eq, planCopy_eq, requireFields_slice sliced, checkOutput_slice sliced, hnamed]
  cases Host.requireFields whole [source] with
  | error e => rfl
  | ok _ =>
    by_cases hself : source = target
    · simp only [if_pos hself]
      rfl
    · simp only [if_neg hself]
      cases Host.named? whole source with
      | none => rfl
      | some field =>
        simp only [Option.map_some, field.readings_slice]
        cases checkOutput whole target <;> rfl

theorem planAssign_slice (sliced : Sliced start stop count whole part) {target : String}
    {value : Tree} (noHost : value.userKeyword? = none) (noWindows : value.WithoutWindows)
    (levels : value.height ≤ maxDepth) : planAssign part maxDepth target value =
      (planAssign whole maxDepth target value).map (Plan.slice start stop) := by
  unfold planAssign
  split
  · rfl
  · rfl
  · exact planCopy_slice sliced target _
  · cases noHost
  · rw [checkOutput_slice sliced, evaluateAll_slice sliced noWindows levels]
    cases checkOutput whole target with
    | error e => rfl
    | ok _ => cases evaluateAll whole maxDepth value <;> rfl

theorem seed_slice (sliced : Sliced start stop count whole part) (target : String) :
    seed part target = (seed whole target).extract start stop := by
  have hnamed : Host.named? part target = (Host.named? whole target).map (Field.slice start stop) :=
    sliced.field?_eq target
  have hpoints : Host.pointCount part = min stop count - start := sliced.pointCount_eq
  have hcount : Host.pointCount whole = count := sliced.points
  rw [seed_eq, seed_eq, hnamed, hpoints, hcount]
  cases Host.named? whole target with
  | none =>
    have hlength : min stop count - start = min (stop - start) (count - start) := by omega
    simp [hlength]
  | some field => exact field.readings_slice

theorem overlay_nil (target : String) (olds : List (Option Binary64)) :
    overlay target olds [] = olds := by
  cases olds <;> rfl

theorem overlay_drop (target : String) (olds : List (Option Binary64))
    (choices : List (Option (String × Option Binary64))) (start : Nat) :
    overlay target (olds.drop start) (choices.drop start) =
      (overlay target olds choices).drop start := by
  induction start generalizing olds choices with
  | zero => rfl
  | succ start ih =>
    cases olds with
    | nil => simp [overlay]
    | cons old olds =>
      cases choices with
      | nil => simp [overlay_nil]
      | cons choice choices => exact ih olds choices

theorem overlay_take (target : String) (olds : List (Option Binary64))
    (choices : List (Option (String × Option Binary64))) (count : Nat) :
    overlay target (olds.take count) (choices.take count) =
      (overlay target olds choices).take count := by
  induction count generalizing olds choices with
  | zero => simp [overlay]
  | succ count ih =>
    cases olds with
    | nil => simp [overlay]
    | cons old olds =>
      cases choices with
      | nil => simp [overlay_nil]
      | cons choice choices => exact congrArg _ (ih olds choices)

section Conditionals

variable {test : TestChain} {first : Leaf × Tree} {other : Option (Leaf × Tree)}

theorem overlayPlan_slice (sliced : Sliced start stop count whole part) (targets : List String)
    (choices : List (Option (String × Option Binary64))) :
    overlayPlan part targets (choices.extract start stop) =
      (overlayPlan whole targets choices).slice start stop := by
  have hwrite (target : String) : overlayWrite part (choices.extract start stop) target =
      (overlayWrite whole choices target).slice start stop := by
    rw [overlayWrite, seed_slice sliced, overlay_take, overlay_drop]
    rfl
  simp only [overlayPlan, Plan.slice, List.map_map, Plan.mk.injEq, and_true]
  exact List.map_congr_left fun target _ => hwrite target

theorem choice_slice (sliced : Sliced start stop count whole part)
    (noWindows : ∀ branch ∈ first :: other.toList, branch.2.WithoutWindows) {point : Nat}
    (h : point < min stop count - start) :
    choice part (pointEvaluator part maxDepth) test (namedBranches first other) point =
      choice whole (pointEvaluator whole maxDepth) test (namedBranches first other)
        (start + point) := by
  refine choice_congr ?_ (fun branch hbranch => valueAt_slice sliced (noWindows branch hbranch) h)
    fun branch _ => ?_
  · exact TestChain.holds_congr fun content _ => readLeaf_slice sliced h content
  · rw [seedSize_eq sliced.part_wellFormed, seedSize_eq sliced.wellFormed, sliced.pointCount_eq,
      sliced.points]
    omega

theorem plan_conditional_slice (sliced : Sliced start stop count whole part)
    (noWindows : ∀ branch ∈ first :: other.toList, branch.2.WithoutWindows)
    (levels : ∀ branch ∈ first :: other.toList, branch.2.height ≤ maxDepth) :
    plan part maxDepth (.conditional test first other) =
      (plan whole maxDepth (.conditional test first other)).map (Plan.slice start stop) := by
  have hcheck : checkBranch part = checkBranch whole := by
    funext branch
    simp only [checkBranch, checkOutput_slice sliced]
  have hpoints : Host.pointCount part = min stop count - start := sliced.pointCount_eq
  have hcount : Host.pointCount whole = count := sliced.points
  rw [plan_conditional_eq, plan_conditional_eq, hcheck, requireFields_slice sliced, hpoints, hcount]
  cases hchecks : (namedBranches first other).forM (checkBranch whole) with
  | error e => rfl
  | ok _ =>
    cases hfields : Host.requireFields whole (Tree.conditional test first other).inputs with
    | error e => rfl
    | ok _ =>
      have ready : (Tree.conditional test first other).Ready maxDepth := by
        refine ⟨?_, fun branch hbranch => ?_, branches_conditional ▸ levels⟩
        · cases other <;> rfl
        · exact (checkBranches_eq_ok.mp hchecks branch (branches_conditional ▸ hbranch)).1
      have total (point : Nat) (hpoint : point < count) := exists_choice sliced.wellFormed ready
        (Host.requireFields_eq_ok.mp hfields) (sliced.points.symm ▸ hpoint)
      simp only [bind, Except.bind]
      rw [mapM_range_extract total fun point hpoint => choice_slice sliced noWindows hpoint]
      cases (List.range count).mapM (choice whole (pointEvaluator whole maxDepth) test
          (namedBranches first other)) with
      | error e => rfl
      | ok choices => exact congrArg Except.ok (overlayPlan_slice sliced _ choices)

end Conditionals

/-- A statement without host functions or windows, of values that fit into the levels there are. -/
structure Local (maxDepth : Nat) (statement : Tree) : Prop where
  noHost : ¬statement.CallsHost
  noWindows : statement.WithoutWindows
  levels : ∀ branch ∈ statement.branches, branch.2.height ≤ maxDepth

theorem plan_slice (sliced : Sliced start stop count whole part) {statement : Tree}
    (h : Local maxDepth statement) : plan part maxDepth statement =
      (plan whole maxDepth statement).map (Plan.slice start stop) := by
  obtain ⟨noHost, noWindows, levels⟩ := h
  have hbranches (branch : Leaf × Tree) (hbranch : branch ∈ statement.branches) :
      branch.2.WithoutWindows := noWindows.branch hbranch
  rcases statement.form with ⟨target, value, rfl⟩ | ⟨test, first, other, rfl⟩ | hother
  · cases hkeyword : value.userKeyword? with
    | none =>
      exact planAssign_slice sliced hkeyword (hbranches (target, value) List.mem_cons_self)
        (levels (target, value) List.mem_cons_self)
    | some keyword =>
      obtain ⟨args, rfl⟩ := Tree.userKeyword?_eq_some hkeyword
      exact absurd ⟨target, keyword, args, rfl⟩ noHost
  · rw [branches_conditional] at hbranches levels
    exact plan_conditional_slice sliced hbranches levels
  · rw [plan_of_not_isStatement hother, plan_of_not_isStatement hother]
    rfl

theorem related_process {statement : Tree} (h : Local maxDepth statement) :
    Update.Related (Sliced start stop count) (process maxDepth statement)
      (process maxDepth statement) := by
  intro whole part sliced
  simp only [Update.outcome, Update.after, process, plan_slice sliced h]
  cases hplan : plan whole maxDepth statement with
  | error e => exact ⟨rfl, sliced⟩
  | ok planned =>
    have hfits (target : String) (values : List (Option Binary64))
        (hwrite : .values target values ∈ planned.writes) : values.length = count :=
      (length_of_plan sliced.wellFormed hplan hwrite).trans sliced.points
    have hsteps : ∀ write ∈ planned.writes, write.step?.isSome = true := by
      cases planned_of_plan hplan with
      | fields writes steps targets => exact steps
      | nothing => exact fun _ hwrite => absurd hwrite List.not_mem_nil
      | data target keyword args data call => exact absurd ⟨target, keyword, args, call⟩ h.noHost
    exact related_commit hsteps hfits whole part sliced

end Statement

end FieldScript
