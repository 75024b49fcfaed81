import StateEngine.Json.Basic

/-!
# Writing values

`Json.text` is the compact text of a value: no blanks, and in strings only the quote, the backslash
and the control characters below the blank are escaped.
-/

namespace StateEngine

namespace Json

/-- A digit below sixteen, lower case. -/
def hexDigit (n : Nat) : Char := if n < 10 then Char.ofNat (48 + n) else Char.ofNat (87 + n)

/-- How a character is written inside a string. -/
def escape (c : Char) : List Char :=
  match c with
  | '"' => ['\\', '"']
  | '\\' => ['\\', '\\']
  | '\x08' => ['\\', 'b']
  | '\x0c' => ['\\', 'f']
  | '\n' => ['\\', 'n']
  | '\r' => ['\\', 'r']
  | '\t' => ['\\', 't']
  | c =>
    if c.toNat < 0x20 then ['\\', 'u', '0', '0', hexDigit (c.toNat / 16), hexDigit (c.toNat % 16)]
    else [c]

/-- A string between quotes. -/
def quoted (s : String) : List Char := '"' :: s.toList.flatMap escape ++ ['"']

mutual

/-- The characters of the compact text. -/
def chars : Json → List Char
  | null => ['n', 'u', 'l', 'l']
  | bool true => ['t', 'r', 'u', 'e']
  | bool false => ['f', 'a', 'l', 's', 'e']
  | number n => n.text.toList
  | string s => quoted s
  | array [] => ['[', ']']
  | array (v :: rest) => '[' :: v.chars ++ itemChars rest
  | object [] => ['{', '}']
  | object ((k, v) :: rest) => '{' :: quoted k ++ ':' :: v.chars ++ memberChars rest

/-- The items after the first, and the bracket that closes them. -/
def itemChars : List Json → List Char
  | [] => [']']
  | v :: rest => ',' :: v.chars ++ itemChars rest

/-- The members after the first, and the brace that closes them. -/
def memberChars : List (String × Json) → List Char
  | [] => ['}']
  | (k, v) :: rest => ',' :: quoted k ++ ':' :: v.chars ++ memberChars rest

end

/-- The compact text. -/
def text (v : Json) : String := String.ofList v.chars

end Json

end StateEngine
