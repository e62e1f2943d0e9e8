import EcuQuiet.Text.Invisible

/-!
# Quoted text

Text between quotation marks, in which every character can be told from its neighbours: quotes,
backslashes and the common controls have a short escape, and whatever has no shape of its own is
written as its code point.
-/

namespace EcuQuiet.Text

/-- A code point in braces, in lower-case hexadecimal digits. -/
def codePoint (c : Char) : List Char :=
  ['\\', 'u', '\x7b'] ++ Nat.toDigits 16 c.toNat ++ ['\x7d']

/-- One character of quoted text. -/
def quotedChar (c : Char) : List Char :=
  match c with
  | '"' => ['\\', '"']
  | '\\' => ['\\', '\\']
  | '\n' => ['\\', 'n']
  | '\r' => ['\\', 'r']
  | '\t' => ['\\', 't']
  | '\x00' => ['\\', '0']
  | c => if isInvisible c then codePoint c else [c]

/-- Text between quotation marks. -/
def quoted (s : String) : String :=
  "\"" ++ String.ofList (s.toList.flatMap quotedChar) ++ "\""

/-- Text that may be missing. -/
def optional : Option String → String
  | none => "None"
  | some s => "Some(" ++ quoted s ++ ")"

end EcuQuiet.Text
