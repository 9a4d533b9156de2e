import FieldScript.Host.Memory
import FieldScript.Tree.Build

/-! A small set of host functions. They show each way a function can behave: scaling a field,
reading user data, failing after it has written, writing out of range. -/
namespace FieldScript.SampleFunctions

def firstField (keyword : String) (store : Store) : List Tree → Except EvalError Field
  | .leaf (.variable name) :: _ =>
    match store.field? name with
    | some field => .ok field
    | none => .error (.functionFailed keyword ("no field '" ++ name ++ "'"))
  | _ => .error (.functionFailed keyword "expected a field name")

def writeScaled (field : Field) (factor : Binary64) : Update Field Unit :=
  Field.commit (field.readings.map fun reading => reading.map (· * factor))

theorem keepsShape_writeScaled (field : Field) (factor : Binary64) :
    (writeScaled field factor).KeepsShape :=
  Field.keepsShape_commit _

def scale : FieldFunction where
  run store args := do
    let field ← .ofExcept (firstField "scale" store args)
    match args with
    | _ :: factor :: _ =>
      let factor ← .ofExcept factor.constant
      writeScaled field factor
    | _ => throw (.functionFailed "scale" "expected scale(F, k)")
  keepsShape store args := by
    refine (Update.keepsShape_ofExcept _).bind fun field => ?_
    split
    · exact (Update.keepsShape_ofExcept _).bind fun factor => keepsShape_writeScaled field factor
    · exact Update.keepsShape_throw _

def tableName : List Tree → String
  | _ :: arg :: _ => arg.leafName?.getD ""
  | _ => ""

def scaleByTable : FieldFunction where
  run store args := do
    let field ← .ofExcept (firstField "use_table" store args)
    let name := tableName args
    match (store.userData.get? name).bind UserData.asFloat? with
    | some factor => writeScaled field factor
    | none => throw (.functionFailed "use_table" ("no table '" ++ name ++ "'"))
  keepsShape store args := by
    refine (Update.keepsShape_ofExcept _).bind fun field => ?_
    dsimp only
    split
    · exact keepsShape_writeScaled field _
    · exact Update.keepsShape_throw _

def failAfterFill : FieldFunction where
  run _ _ := do
    modify fun field => field.fill ⟨0x405EC00000000000⟩
    throw (.functionFailed "broken" "sensor offline")
  keepsShape _ _ :=
    (Update.keepsShape_modify fun field => field.sameShape_fill _).bind fun _ =>
      Update.keepsShape_throw _

def setFirst : FieldFunction where
  run _ _ := Field.put 0 1
  keepsShape _ _ := Field.keepsShape_put 0 1

def writePastEnd : FieldFunction where
  run _ _ field := Field.put field.size 1 field
  keepsShape _ _ field := Field.keepsShape_put field.size 1 field

def countArgs : FieldFunction where
  run store args := (FieldFunction.filling (.ofNat args.length)).run store args
  keepsShape store args := (FieldFunction.filling (.ofNat args.length)).keepsShape store args

def wipe : FieldFunction where
  run _ _ := modify Field.clear
  keepsShape _ _ := Update.keepsShape_modify fun field => field.sameShape_fill field.sentinel

def present (store : Store) (args : List Tree) : Except EvalError UserData := do
  let field ← firstField "present" store args
  pure (.table (field.readings.filterMap id))

def argText (_ : Store) (args : List Tree) : Except EvalError UserData :=
  .ok (.text ("|".intercalate (args.map Tree.text)))

def noData (_ : Store) (_ : List Tree) : Except EvalError UserData :=
  .error (.functionFailed "no_data" "nothing to report")

def registry : Registry :=
  Registry.empty
    |>.register ⟨"scale", "Multiply a field by a constant."⟩ (.field scale)
    |>.register ⟨"broken", "Always fails."⟩ (.field failAfterFill)
    |>.register ⟨"touch_first", "Set point 0 to 1, keep the rest."⟩ (.field setFirst)
    |>.register ⟨"past_end", "Write one point too many."⟩ (.field writePastEnd)
    |>.register ⟨"fill_args", "Fill with the number of arguments."⟩ (.field countArgs)
    |>.register ⟨"wipe", "Fill with missing."⟩ (.field wipe)
    |>.register ⟨"use_table", "Scale F by the summary of user data T."⟩ (.field scaleByTable)
    |>.register ⟨"present", "Values of the present points."⟩ (.data present)
    |>.register ⟨"arg_text", "The arguments as text."⟩ (.data argText)
    |>.register ⟨"no_data", "Always fails."⟩ (.data noData)

end FieldScript.SampleFunctions
