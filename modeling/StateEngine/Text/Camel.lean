import StateEngine.Text.Uppercase

/-!
# Camel case

`camelized` joins the words of a name: points, hyphens, underscores and blanks separate words, and
each word starts with a capital.
-/

namespace StateEngine

/-- The characters with the White_Space property. -/
def isSpace (c : Char) : Bool :=
  let code := c.toNat
  (0x09 ≤ code && code ≤ 0x0D) || code == 0x20 || code == 0x85 || code == 0xA0 || code == 0x1680 ||
    (0x2000 ≤ code && code ≤ 0x200A) || code == 0x2028 || code == 0x2029 || code == 0x202F ||
    code == 0x205F || code == 0x3000

/-- The characters between the words of a name. -/
def isSeparator (c : Char) : Bool := c = '.' || c = '-' || c = '_' || isSpace c

/-- The words of a name joined; `initial` tells whether the next word is still to start. -/
def camelChars (initial : Bool) : List Char → List Char
  | [] => []
  | c :: rest =>
    if isSeparator c then camelChars true rest
    else if initial then upperChars c ++ camelChars false rest
    else c :: camelChars false rest

/-- **Camel case with an initial capital.** -/
def camelized (name : String) : String := String.ofList (camelChars true name.toList)

end StateEngine
