import FieldScript.Proofs.Tree.Every
import FieldScript.Proofs.Wire.Reading
import FieldScript.Wire

/-! Reading a wire form gives back what was written and leaves what follows, so no form is the
beginning of another. Counts are 64 bits wide, as the lengths of texts and lists in memory are;
beyond that nothing is asked of a tree but that its built-in calls could have been built. -/
namespace FieldScript.Wire

def TextSized (s : String) : Prop := s.utf8ByteSize < 2 ^ 64

def LeafSized : Leaf → Prop
  | .variable name => TextSized name
  | .number label _ => TextSized label
  | .missing => True

def TestSized (t : Test) : Prop := LeafSized t.left ∧ LeafSized t.right

def ArithSized (chain : ArithChain) : Prop :=
  LeafSized chain.first ∧ chain.rest.length < 2 ^ 64 ∧ ∀ step ∈ chain.rest, LeafSized step.2

def TestsSized (chain : TestChain) : Prop :=
  TestSized chain.first ∧ chain.rest.length < 2 ^ 64 ∧ ∀ step ∈ chain.rest, TestSized step.2

def CalleeSized : Callee → Prop
  | .builtin _ => True
  | .user keyword => TextSized keyword

def NodeSized : Tree → Prop
  | .leaf content => LeafSized content
  | .call callee args => CalleeSized callee ∧ args.length < 2 ^ 64
  | .arith chain => ArithSized chain
  | .tests chain => TestsSized chain
  | .assign target _ => LeafSized target
  | .guarded test target _ => TestsSized test ∧ LeafSized target
  | .branched test target _ target' _ => TestsSized test ∧ LeafSized target ∧ LeafSized target'

def Shippable (t : Tree) : Prop := t.Every Tree.CallChecked ∧ t.Every NodeSized

structure ShippableScript (s : Script) : Prop where
  statements : ∀ t ∈ s.statements, Shippable t
  count : s.statements.length < 2 ^ 64
  maxDepth : s.options.maxDepth < 2 ^ 64

theorem reads_readLeaf {l : Leaf} (h : LeafSized l) : Reads readLeaf (leaf l) l := by
  rcases l with name | ⟨label, value⟩ | _
  · exact (reads_readTag (by decide)).bind (reads_readText h).last
  · rw [leaf, List.append_assoc]
    exact (reads_readTag (by decide)).bind
      ((reads_readText h).bind (reads_readNumber value).last)
  · have hmissing : Reads readLeaf (varint 2 ++ []) .missing :=
      (reads_readTag (by decide)).bind (Reads.pure Leaf.missing)
    rwa [List.append_nil] at hmissing

theorem reads_readArithOp (op : ArithOp) : Reads readArithOp (arithOp op) op := by
  cases op <;> exact reads_readCase rfl (by decide)

theorem reads_readBoolOp (op : BoolOp) : Reads readBoolOp (boolOp op) op := by
  cases op <;> exact reads_readCase rfl (by decide)

theorem reads_readComparison (op : Comparison) : Reads readComparison (comparison op) op := by
  cases op <;> exact reads_readCase rfl (by decide)

theorem all_idxOf (op : Builtin) :
    Builtin.all[Builtin.all.idxOf op]? = some op ∧ Builtin.all.idxOf op < 2 ^ 32 := by
  cases op <;> decide

theorem reads_readCallee {head : Callee} (h : CalleeSized head) :
    Reads readCallee (callee head) head := by
  cases head with
  | builtin op =>
    obtain ⟨hget, hlt⟩ := all_idxOf op
    exact (reads_readTag (by decide)).bind (reads_readCase hget hlt).last
  | user keyword => exact (reads_readTag (by decide)).bind (reads_readText h).last

theorem reads_readTest {t : Test} (h : TestSized t) : Reads readTest (test t) t := by
  rw [test, List.append_assoc]
  exact (reads_readLeaf h.1).bind
    ((reads_readComparison t.comparison).bind (reads_readLeaf h.2).last)

theorem reads_readArithStep {step : ArithOp × Leaf} (h : LeafSized step.2) :
    Reads readArithStep (arithStep step) step :=
  (reads_readArithOp step.1).bind (reads_readLeaf h).last

theorem reads_readTestStep {step : BoolOp × Test} (h : TestSized step.2) :
    Reads readTestStep (testStep step) step :=
  (reads_readBoolOp step.1).bind (reads_readTest h).last

theorem reads_readArithChain {chain : ArithChain} (h : ArithSized chain) :
    Reads readArithChain (arithChain chain) chain :=
  (reads_readLeaf h.1).bind
    (reads_readList chain.rest h.2.1 fun step hstep => reads_readArithStep (h.2.2 step hstep)).last

theorem reads_readTestChain {chain : TestChain} (h : TestsSized chain) :
    Reads readTestChain (testChain chain) chain :=
  (reads_readTest h.1).bind
    (reads_readList chain.rest h.2.1 fun step hstep => reads_readTestStep (h.2.2 step hstep)).last

theorem trees_eq_flatMap (ts : List Tree) : trees ts = ts.flatMap tree := by
  induction ts with
  | nil => rfl
  | cons t ts ih => rw [trees, ih, List.flatMap_cons]

theorem length_tree_le {t : Tree} {ts : List Tree} (h : t ∈ ts) :
    (tree t).length ≤ (trees ts).length := by
  induction ts with
  | nil => cases h
  | cons first rest ih =>
    rw [trees, List.length_append]
    rcases List.mem_cons.mp h with rfl | hrest
    · omega
    · have := ih hrest
      omega

theorem reads_checkedCall {head : Callee} {args : List Tree}
    (h : Tree.CallChecked (.call head args)) :
    Reads (checkedCall head args) [] (.call head args) := by
  cases head with
  | builtin op =>
    have hcheck : op.checkArgs args = .ok () := h
    intro rest
    simp only [checkedCall, hcheck]
    exact Reads.pure (Tree.call (.builtin op) args) rest
  | user keyword => exact Reads.pure (Tree.call (.user keyword) args)

theorem length_tree_pos (t : Tree) : 0 < (tree t).length := by
  have htag := length_varint_pos
  cases t <;> simp only [tree, List.length_append] <;> grind

theorem exists_level {t : Tree} {levels : Nat} (h : (tree t).length ≤ levels) :
    ∃ n, levels = n + 1 := by
  have hpos := length_tree_pos t
  exact ⟨levels - 1, by omega⟩

/-- A form is read within any number of levels that is not below its length: each level of nesting
has a tag of its own. -/
theorem reads_readTreeWithin (t : Tree) (h : Shippable t) (levels : Nat)
    (hlevels : (tree t).length ≤ levels) : Reads (readTreeWithin levels) (tree t) t := by
  induction t using Tree.induct generalizing levels with
  | leaf content =>
    obtain ⟨levels, rfl⟩ := exists_level hlevels
    exact (reads_readTag (by decide)).bind (reads_readLeaf h.2).last
  | call head args ih =>
    obtain ⟨levels, rfl⟩ := exists_level hlevels
    obtain ⟨hchecked, hsized⟩ := h
    obtain ⟨hcall, hargs⟩ := Tree.every_call.mp hchecked
    obtain ⟨⟨hhead, hcount⟩, hsizes⟩ := Tree.every_call.mp hsized
    have htag := length_varint_pos 1
    have hforms : (trees args).length ≤ levels := by
      simp only [tree, List.length_append] at hlevels
      omega
    have hreads : ∀ arg ∈ args, Reads (readTreeWithin levels) (tree arg) arg := by
      intro arg harg
      have hform := length_tree_le harg
      exact ih arg harg ⟨hargs arg harg, hsizes arg harg⟩ levels (by omega)
    have hlist : Reads (readList (readTreeWithin levels)) (varint args.length ++ trees args)
        args := by
      rw [trees_eq_flatMap]
      exact reads_readList args hcount hreads
    have hform : tree (.call head args) =
        varint 1 ++ (callee head ++ ((varint args.length ++ trees args) ++ [])) := by
      simp only [tree, List.append_assoc, List.append_nil]
    rw [hform]
    exact (reads_readTag (by decide)).bind
      ((reads_readCallee hhead).bind (hlist.bind (reads_checkedCall hcall)))
  | arith chain =>
    obtain ⟨levels, rfl⟩ := exists_level hlevels
    exact (reads_readTag (by decide)).bind (reads_readArithChain h.2).last
  | tests chain =>
    obtain ⟨levels, rfl⟩ := exists_level hlevels
    exact (reads_readTag (by decide)).bind (reads_readTestChain h.2).last
  | assign target value ih =>
    obtain ⟨levels, rfl⟩ := exists_level hlevels
    obtain ⟨⟨_, hchecked⟩, hsized, hsizes⟩ := h
    have htag := length_varint_pos 4
    have hvalue : (tree value).length ≤ levels := by
      simp only [tree, List.length_append] at hlevels
      omega
    rw [tree, List.append_assoc]
    exact (reads_readTag (by decide)).bind
      ((reads_readLeaf hsized).bind (ih ⟨hchecked, hsizes⟩ levels hvalue).last)
  | guarded test target value ih =>
    obtain ⟨levels, rfl⟩ := exists_level hlevels
    obtain ⟨⟨_, hchecked⟩, ⟨htest, htarget⟩, hsizes⟩ := h
    have htag := length_varint_pos 5
    have hvalue : (tree value).length ≤ levels := by
      simp only [tree, List.length_append] at hlevels
      omega
    have hform : tree (.guarded test target value) =
        varint 5 ++ (testChain test ++ (leaf target ++ (tree value ++ (truth false ++ [])))) := by
      simp only [tree, List.append_assoc, List.append_nil]
      rfl
    rw [hform]
    exact (reads_readTag (by decide)).bind <| (reads_readTestChain htest).bind <|
      (reads_readLeaf htarget).bind <| (ih ⟨hchecked, hsizes⟩ levels hvalue).bind <|
      (reads_readTruth false).bind (Reads.pure _)
  | branched test target value target' value' ih ih' =>
    obtain ⟨levels, rfl⟩ := exists_level hlevels
    obtain ⟨⟨_, hchecked, hchecked'⟩, ⟨htest, htarget, htarget'⟩, hsizes, hsizes'⟩ := h
    have htag := length_varint_pos 5
    have hvalues : (tree value).length ≤ levels ∧ (tree value').length ≤ levels := by
      simp only [tree, List.length_append] at hlevels
      omega
    have hform : tree (.branched test target value target' value') =
        varint 5 ++ (testChain test ++ (leaf target ++ (tree value ++
          (truth true ++ (leaf target' ++ tree value'))))) := by
      simp only [tree, List.append_assoc]
      rfl
    rw [hform]
    exact (reads_readTag (by decide)).bind <| (reads_readTestChain htest).bind <|
      (reads_readLeaf htarget).bind <| (ih ⟨hchecked, hsizes⟩ levels hvalues.1).bind <|
      (reads_readTruth true).bind <| (reads_readLeaf htarget').bind
        (ih' ⟨hchecked', hsizes'⟩ levels hvalues.2).last

theorem reads_readTree {t : Tree} (h : Shippable t) : Reads readTree (tree t) t := by
  intro rest
  exact reads_readTreeWithin t h (tree t ++ rest).length (by simp) rest

theorem reads_readScript {s : Script} (h : ShippableScript s) : Reads readScript (script s) s := by
  rw [script, List.append_assoc]
  exact (reads_readList s.statements h.count fun t ht => reads_readTree (h.statements t ht)).bind
    ((reads_readCount h.maxDepth).bind (reads_readTruth s.options.stopOnError).last)

theorem Reads.unique {α : Type} {d : Decoder α} {bytes bytes' rest : Bytes} {a a' : α}
    (h : Reads d bytes a) (h' : Reads d bytes' a') (heq : bytes ++ rest = bytes') :
    a = a' ∧ rest = [] := by
  have hread := h rest
  have hread' := h' []
  rw [List.append_nil, ← heq, hread] at hread'
  cases hread'
  exact ⟨rfl, rfl⟩

/-- Reading gives back the tree or script that was written, whatever follows it; a form determines
what was written and is not the beginning of another. -/
theorem round_trip :
    (∀ t, Shippable t → ∀ rest, readTree (tree t ++ rest) = some (t, rest)) ∧
    (∀ s, ShippableScript s → ∀ rest, readScript (script s ++ rest) = some (s, rest)) ∧
    (∀ t t' rest, Shippable t → Shippable t' → tree t ++ rest = tree t' → t = t' ∧ rest = []) ∧
    (∀ s s' rest, ShippableScript s → ShippableScript s' → script s ++ rest = script s' →
      s = s' ∧ rest = []) := by
  refine ⟨?_, ?_, ?_, ?_⟩
  · intro t h
    exact reads_readTree h
  · intro s h
    exact reads_readScript h
  · intro t t' rest h h' heq
    exact (reads_readTree h).unique (reads_readTree h') heq
  · intro s s' rest h h' heq
    exact (reads_readScript h).unique (reads_readScript h') heq

/-- `y = max(half(nan), smooth(F, 3));`, where the bits of the first number are those of a
signalling NaN. -/
def nanScript : Script where
  statements := [.assign (.variable "y") (.call (.builtin .max)
    [.call (.user "half") [.leaf (.number "nan" ⟨0x7ff0000000000001⟩)],
      .call (.builtin .smooth) [.leaf (.variable "F"), .leaf (.number "3" ⟨0x4008000000000000⟩)]])]
  options := ⟨2 ^ 64 - 1, true⟩

theorem nanScript_round_trip :
    ShippableScript nanScript ∧
      readScript (script nanScript ++ [255]) = some (nanScript, [255]) := by
  have hshippable : ShippableScript nanScript := by
    refine ⟨?_, by decide, by decide⟩
    intro t ht
    rw [List.mem_singleton.mp ht]
    constructor
    · simp [Tree.Every, Tree.EveryArg, Tree.CallChecked]
      exact ⟨rfl, rfl⟩
    · simp [Tree.Every, Tree.EveryArg, NodeSized, LeafSized, CalleeSized, TextSized]
      decide
  exact ⟨hshippable, round_trip.2.1 nanScript hshippable [255]⟩

end FieldScript.Wire
