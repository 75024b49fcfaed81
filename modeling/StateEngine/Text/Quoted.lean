import StateEngine.Text.Visible
import StateEngine.Json.Basic

/-!
# Texts for inspection

`inspected` puts a string between quotes and leaves nothing invisible in it. `Json.debugText` names
the kind of a value and of each value in it.
-/

namespace StateEngine

/-- The digits of a number in base sixteen, lower case. -/
def hexDigits (n : Nat) : List Char := Nat.toDigits 16 n

/-- How a character is written between quotes: with a backslash, by its code, or as it is. -/
def inspectedChar (c : Char) : List Char :=
  match c with
  | '\x00' => ['\\', '0']
  | '\t' => ['\\', 't']
  | '\r' => ['\\', 'r']
  | '\n' => ['\\', 'n']
  | '\\' => ['\\', '\\']
  | '"' => ['\\', '"']
  | c => if isVisible c then [c] else ['\\', 'u', '\x7b'] ++ hexDigits c.toNat ++ ['\x7d']

/-- A string between quotes, every character of it visible. -/
def inspected (s : String) : String :=
  String.ofList ('"' :: s.toList.flatMap inspectedChar ++ ['"'])

namespace Json

mutual

/-- The text of a value that names its kind. -/
def debugText : Json → String
  | null => "Null"
  | bool b => "Bool(" ++ (if b then "true" else "false") ++ ")"
  | number n => "Number(" ++ n.text ++ ")"
  | string s => "String(" ++ inspected s ++ ")"
  | array items => "Array [" ++ ", ".intercalate (debugItems items) ++ "]"
  | object members => "Object \x7b" ++ ", ".intercalate (debugMembers members) ++ "\x7d"

def debugItems : List Json → List String
  | [] => []
  | v :: rest => v.debugText :: debugItems rest

def debugMembers : List (String × Json) → List String
  | [] => []
  | (k, v) :: rest => (inspected k ++ ": " ++ v.debugText) :: debugMembers rest

end

end Json

end StateEngine
