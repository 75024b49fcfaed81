import StateEngine.Json.Basic

/-!
# Tokens

The text of a value is a sequence of tokens with blanks between them. `Lexer.step` takes one
character at a time; `tokens?` is the run of it over a whole text. A string's token holds what the
string stands for: its escapes are resolved, and a pair of surrogate escapes makes one character.
-/

namespace StateEngine

inductive Token where
  | openArray
  | closeArray
  | openObject
  | closeObject
  | colon
  | comma
  | string (value : String)
  /-- `null`, a truth value or a number. -/
  | scalar (value : Json)
  deriving Repr, Inhabited

/-- What the characters read so far leave open. Characters are kept last first. -/
inductive Lexer where
  | between
  | word (letters : List Char)
  | number (characters : List Char)
  | string (content : List Char)
  /-- After a backslash. -/
  | escape (content : List Char)
  /-- Inside the four digits of a `\u` escape, perhaps after an escaped high surrogate. -/
  | code (content : List Char) (high : Option Nat) (value : Nat) (missing : Nat)
  /-- After an escaped high surrogate, which the low one must follow. -/
  | pair (content : List Char) (high : Nat)
  /-- After an escaped high surrogate and a backslash. -/
  | pairEscape (content : List Char) (high : Nat)
  deriving Repr, Inhabited

namespace Lexer

/-- The four characters that may stand between tokens. -/
def isBlank (c : Char) : Bool := c = ' ' || c = '\t' || c = '\n' || c = '\r'

/-- The characters that numbers are written with. -/
def isNumeric (c : Char) : Bool :=
  c.isDigit || c = '-' || c = '+' || c = '.' || c = 'e' || c = 'E'

/-- The characters that `null`, `true` and `false` are written with. -/
def isLetter (c : Char) : Bool := 'a' ≤ c && c ≤ 'z'

def wordValue? : List Char → Option Json
  | ['n', 'u', 'l', 'l'] => some .null
  | ['t', 'r', 'u', 'e'] => some (.bool true)
  | ['f', 'a', 'l', 's', 'e'] => some (.bool false)
  | _ => none

def hexDigit? (c : Char) : Option Nat :=
  if c.isDigit then some (c.toNat - '0'.toNat)
  else if 'a' ≤ c ∧ c ≤ 'f' then some (c.toNat - 'a'.toNat + 10)
  else if 'A' ≤ c ∧ c ≤ 'F' then some (c.toNat - 'A'.toNat + 10)
  else none

/-- What a one-letter escape stands for. -/
def escaped? (c : Char) : Option Char :=
  match c with
  | '"' => some '"'
  | '\\' => some '\\'
  | '/' => some '/'
  | 'b' => some '\x08'
  | 'f' => some '\x0c'
  | 'n' => some '\n'
  | 'r' => some '\r'
  | 't' => some '\t'
  | _ => none

def isHighSurrogate (n : Nat) : Bool := 0xD800 ≤ n && n < 0xDC00

def isLowSurrogate (n : Nat) : Bool := 0xDC00 ≤ n && n < 0xE000

/-- The string that an escape with this code continues. A surrogate has to be one half of a
pair. -/
def completeCode (content : List Char) (high : Option Nat) (code : Nat) : Option Lexer :=
  match high with
  | none =>
    if isHighSurrogate code then some (.pair content code)
    else if isLowSurrogate code then none
    else some (.string (Char.ofNat code :: content))
  | some h =>
    if isLowSurrogate code then
      some (.string (Char.ofNat (0x10000 + (h - 0xD800) * 0x400 + (code - 0xDC00)) :: content))
    else none

/-- A character between tokens. -/
def start (c : Char) : Option (List Token × Lexer) :=
  if isBlank c then some ([], .between)
  else if c = '[' then some ([.openArray], .between)
  else if c = ']' then some ([.closeArray], .between)
  else if c = '{' then some ([.openObject], .between)
  else if c = '}' then some ([.closeObject], .between)
  else if c = ':' then some ([.colon], .between)
  else if c = ',' then some ([.comma], .between)
  else if c = '"' then some ([], .string [])
  else if c.isDigit || c = '-' then some ([], .number [c])
  else if isLetter c then some ([], .word [c])
  else none

/-- The next character: the tokens it completes and what it leaves open. -/
def step (lexer : Lexer) (c : Char) : Option (List Token × Lexer) :=
  match lexer with
  | between => start c
  | word letters =>
    if isLetter c then some ([], .word (c :: letters))
    else do
      let value ← wordValue? letters.reverse
      let (tokens, next) ← start c
      some (.scalar value :: tokens, next)
  | number characters =>
    if isNumeric c then some ([], .number (c :: characters))
    else do
      let value ← Number.ofChars? characters.reverse
      let (tokens, next) ← start c
      some (.scalar (.number value) :: tokens, next)
  | string content =>
    if c = '"' then some ([.string (String.ofList content.reverse)], .between)
    else if c = '\\' then some ([], .escape content)
    else if c.toNat < 0x20 then none
    else some ([], .string (c :: content))
  | escape content =>
    if c = 'u' then some ([], .code content none 0 4)
    else (escaped? c).map fun e => ([], .string (e :: content))
  | code content high value missing => do
    let d ← hexDigit? c
    let value := value * 16 + d
    if missing ≤ 1 then (completeCode content high value).map ([], ·)
    else some ([], .code content high value (missing - 1))
  | pair content high => if c = '\\' then some ([], .pairEscape content high) else none
  | pairEscape content high => if c = 'u' then some ([], .code content (some high) 0 4) else none

/-- The tokens that the end of the text completes. -/
def finish? : Lexer → Option (List Token)
  | between => some []
  | word letters => (wordValue? letters.reverse).map fun v => [.scalar v]
  | number characters => (Number.ofChars? characters.reverse).map fun n => [.scalar (.number n)]
  | _ => none

/-- The tokens of the rest of a text, after those found so far, last first. -/
def run? (found : List Token) (lexer : Lexer) : List Char → Option (List Token)
  | [] => lexer.finish?.map fun tokens => found.reverse ++ tokens
  | c :: rest =>
    match lexer.step c with
    | none => none
    | some (tokens, next) => run? (tokens.reverse ++ found) next rest

end Lexer

/-- The tokens of a text. -/
def tokens? (text : String) : Option (List Token) := Lexer.run? [] .between text.toList

end StateEngine
