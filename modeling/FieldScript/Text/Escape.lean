import FieldScript.Text.Invisible

/-! Quoted text in debug output. -/
namespace FieldScript.Text

def hexDigits (n : Nat) : String := String.ofList (Nat.toDigits 16 n)

def escapedCode (c : Char) : String := "\\u\x7b" ++ hexDigits c.toNat ++ "\x7d"

def escaped (c : Char) : String :=
  if c = '"' then "\\\""
  else if c = '\\' then "\\\\"
  else if c = '\n' then "\\n"
  else if c = '\r' then "\\r"
  else if c = '\t' then "\\t"
  else if c.toNat = 0 then "\\0"
  else if c.toNat < 0x20 then escapedCode c
  else if c.toNat < 0x7F then c.toString
  else if c.toNat = 0x7F then escapedCode c
  else if isInvisible c then escapedCode c
  else c.toString

def quoted (s : String) : String :=
  "\"" ++ s.foldl (fun out c => out ++ escaped c) "" ++ "\""

end FieldScript.Text
