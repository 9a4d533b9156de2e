import FieldScript.Render.Bracket
import FieldScript.Render.Inline
import FieldScript.Script

/-! Errors as a reader sees them: a title, then the lines of the script that a diagnostic is about,
with its messages beside them, and what may help. -/
namespace FieldScript.Render

def placeText (source : List Char) (position : Nat) : String :=
  match Source.lineAt? source position with
  | some (index, line) => toString (index + 1) ++ ":" ++ toString (position - line.offset + 1)
  | none => "?:?"

def sectionLines (source : List Char) (labels : List Label) : List (Source.Line × Nat) :=
  let first := (labels.map (·.first)).min?.getD 0
  let last := (labels.map (·.last)).foldl Nat.max 0
  ((Source.lines source).zipIdx.take (last + 1)).drop first

def sectionRows (source : List Char) (digits : Nat) (labels : List Label) : List String :=
  let lines := sectionLines source labels
  match labels with
  | [label] =>
    if label.isInline then inlineRows digits labels false lines
    else bracketRows digits label lines
  | _ => inlineRows digits labels false lines

def helpLead (source : List Char) (labels : List Label) : String :=
  match labels with
  | [label] =>
    if label.isInline then "" else bracketLead (Source.lines source).head? label
  | _ => ""

def helpRows (digits : Nat) (lead : String) (help : List String) : List String :=
  help.flatMap fun text =>
    [margin digits ++ " " ++ lead, margin digits ++ " " ++ lead ++ "Help: " ++ text]

/-- Every section is headed by the place of the whole diagnostic; help follows the last one. -/
def reportRows (source : List Char) (d : Diagnostic) (digits : Nat) (corner : String) :
    List (List Label) → List String
  | [] => []
  | labels :: rest =>
    let head := blanks (digits + 2) ++ corner ++ "─[ <script>:" ++ placeText source d.span.start
      ++ " ]"
    let foot := if rest.isEmpty then
        helpRows digits (helpLead source labels) d.help ++ ["".pushn '─' (digits + 2) ++ "╯"]
      else [margin digits]
    head :: margin digits :: sectionRows source digits labels ++ foot
      ++ reportRows source d digits "├" rest

def labelsOf (source : List Char) (d : Diagnostic) : List Label :=
  ((d.span, d.message) :: d.related).filterMap fun (span, message) =>
    Label.ofSpan? source span message

def diagnosticText (source : String) (d : Diagnostic) : String :=
  let cs := source.toList
  let labels := labelsOf cs d
  let digits := digitCount ((labels.map (·.last)).foldl Nat.max 0 + 1)
  ("[" ++ d.code ++ "] Error: " ++ d.message ++ "\n") ++
    (reportRows cs d digits "╭" (sections labels)).foldl (fun out text => out ++ text ++ "\n") ""

def text : EngineError → String
  | .compilation diagnostics source => String.join (diagnostics.map (diagnosticText source))
  | e => e.message ++ "\n"

end FieldScript.Render
