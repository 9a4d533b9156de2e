import FieldScript.Proofs.Wire.RoundTrip

/-! What bytes of any origin can decode to: exactly the trees that have a wire form. Calls of
built-in operators are checked again on the way in, at every depth. Assignments are not, nor is it
asked of the trees of a script that they be statements. -/
namespace FieldScript.Wire

theorem yields_readLeaf : Yields readLeaf LeafSized := by
  refine Yields.after fun tag => ?_
  split
  · exact yields_readText.bind fun name hname => Yields.pure hname
  · exact yields_readText.bind fun label hlabel => Yields.after fun value => Yields.pure hlabel
  · exact Yields.pure trivial
  · exact yields_fail LeafSized

theorem yields_readCallee : Yields readCallee CalleeSized := by
  refine Yields.after fun tag => ?_
  split
  · exact Yields.after fun op => Yields.pure trivial
  · exact yields_readText.bind fun keyword hkeyword => Yields.pure hkeyword
  · exact yields_fail CalleeSized

theorem yields_readTest : Yields readTest TestSized :=
  yields_readLeaf.bind fun _ hleft => Yields.after fun _ =>
    yields_readLeaf.bind fun _ hright => Yields.pure ⟨hleft, hright⟩

theorem yields_readArithStep : Yields readArithStep fun step => LeafSized step.2 :=
  Yields.after fun _ => yields_readLeaf.bind fun _ hoperand => Yields.pure hoperand

theorem yields_readTestStep : Yields readTestStep fun step => TestSized step.2 :=
  Yields.after fun _ => yields_readTest.bind fun _ hoperand => Yields.pure hoperand

theorem yields_readArithChain : Yields readArithChain ArithSized :=
  yields_readLeaf.bind fun _ hfirst => (yields_readList yields_readArithStep).bind
    fun _ hrest => Yields.pure ⟨hfirst, hrest.1, hrest.2⟩

theorem yields_readTestChain : Yields readTestChain TestsSized :=
  yields_readTest.bind fun _ hfirst => (yields_readList yields_readTestStep).bind
    fun _ hrest => Yields.pure ⟨hfirst, hrest.1, hrest.2⟩

theorem yields_checkedCall {head : Callee} {args : List Tree} {p : Tree → Prop}
    (h : Tree.CallChecked (.call head args) → p (.call head args)) :
    Yields (checkedCall head args) p := by
  cases head with
  | user keyword => exact Yields.pure (h trivial)
  | builtin op =>
    cases hcheck : op.checkArgs args with
    | ok checked =>
      simp only [checkedCall, hcheck]
      exact Yields.pure (h hcheck)
    | error e =>
      simp only [checkedCall, hcheck]
      exact yields_fail p

theorem yields_readTreeWithin (levels : Nat) : Yields (readTreeWithin levels) Shippable := by
  induction levels with
  | zero => exact yields_fail Shippable
  | succ levels ih =>
    refine Yields.after fun tag => ?_
    split
    · exact yields_readLeaf.bind fun content hcontent => Yields.pure ⟨trivial, hcontent⟩
    · refine yields_readCallee.bind fun head hhead => (yields_readList ih).bind fun args hargs => ?_
      refine yields_checkedCall fun hcall => ⟨?_, ?_⟩
      · exact Tree.every_call.mpr ⟨hcall, fun arg harg => (hargs.2 arg harg).1⟩
      · exact Tree.every_call.mpr ⟨⟨hhead, hargs.1⟩, fun arg harg => (hargs.2 arg harg).2⟩
    · exact yields_readArithChain.bind fun chain hchain => Yields.pure ⟨trivial, hchain⟩
    · exact yields_readTestChain.bind fun chain hchain => Yields.pure ⟨trivial, hchain⟩
    · exact yields_readLeaf.bind fun target htarget => ih.bind fun value hvalue =>
        Yields.pure ⟨⟨trivial, hvalue.1⟩, htarget, hvalue.2⟩
    · refine yields_readTestChain.bind fun test htest => yields_readLeaf.bind fun target htarget =>
        ih.bind fun value hvalue => Yields.after fun more => ?_
      cases more with
      | true =>
        exact yields_readLeaf.bind fun target' htarget' => ih.bind fun value' hvalue' =>
          Yields.pure ⟨⟨trivial, hvalue.1, hvalue'.1⟩, ⟨htest, htarget, htarget'⟩, hvalue.2,
            hvalue'.2⟩
      | false => exact Yields.pure ⟨⟨trivial, hvalue.1⟩, ⟨htest, htarget⟩, hvalue.2⟩
    · exact yields_fail Shippable

theorem yields_readTree : Yields readTree Shippable :=
  fun bytes => yields_readTreeWithin bytes.length bytes

theorem yields_readScript : Yields readScript ShippableScript :=
  (yields_readList yields_readTree).bind fun _ hstatements =>
    yields_readCount.bind fun _ hdepth => Yields.after fun _ =>
      Yields.pure ⟨hstatements.2, hstatements.1, hdepth⟩

theorem Shippable.built_iff {t : Tree} (h : Shippable t) :
    t.Built ↔ t.Every Tree.AssignmentsChecked := by
  rw [Tree.Built, Tree.every_and]
  constructor
  · intro hbuilt
    exact hbuilt.2
  · intro hassignments
    exact ⟨h.1, hassignments⟩

/-- Whatever bytes decode to has checked calls at every depth, and is what construction could have
given exactly when its assignments are checked and the trees of a script are statements. Decoding
asks for neither: every tree and script of bounded sizes with checked calls decodes, whatever it
assigns and to what. -/
theorem decoded_built_iff (bytes : Bytes) :
    (∀ t rest, readTree bytes = some (t, rest) →
      Shippable t ∧ (t.Built ↔ t.Every Tree.AssignmentsChecked)) ∧
    (∀ s rest, readScript bytes = some (s, rest) →
      ShippableScript s ∧ ((∀ t ∈ s.statements, t.Built ∧ t.isStatement = true) ↔
        ∀ t ∈ s.statements, t.Every Tree.AssignmentsChecked ∧ t.isStatement = true)) ∧
    (∀ t, Shippable t → readTree (tree t ++ bytes) = some (t, bytes)) ∧
    (∀ s, ShippableScript s → readScript (script s ++ bytes) = some (s, bytes)) := by
  refine ⟨?_, ?_, ?_, ?_⟩
  · intro t rest h
    have hshippable := yields_readTree bytes t rest h
    exact ⟨hshippable, hshippable.built_iff⟩
  · intro s rest h
    have hscript := yields_readScript bytes s rest h
    refine ⟨hscript, ?_⟩
    constructor
    · intro hbuilt t ht
      exact ⟨(hscript.statements t ht).built_iff.mp (hbuilt t ht).1, (hbuilt t ht).2⟩
    · intro hchecked t ht
      exact ⟨(hscript.statements t ht).built_iff.mpr (hchecked t ht).1, (hchecked t ht).2⟩
  · intro t h
    exact reads_readTree h bytes
  · intro s h
    exact reads_readScript h bytes

def numberTarget : Tree := .assign (.number "1" ⟨0x3ff0000000000000⟩) (.leaf .missing)

def numberTargetBytes : Bytes := [4, 1, 1, 0x31, 0, 0, 0, 0, 0, 0, 0xf0, 0x3f, 0, 2]

theorem numberTarget_decodes :
    readTree numberTargetBytes = some (numberTarget, []) ∧ ¬ numberTarget.Built := by
  have hread : readTree numberTargetBytes = some (numberTarget, []) := rfl
  refine ⟨hread, ?_⟩
  intro hbuilt
  have hdecoded := (decoded_built_iff numberTargetBytes).1 numberTarget [] hread
  have hassignments := hdecoded.2.mp hbuilt
  have htarget := hassignments.1 _ List.mem_cons_self
  exact Bool.false_ne_true htarget.1

end FieldScript.Wire
