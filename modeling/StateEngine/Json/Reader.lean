import StateEngine.Json.Token

/-!
# Reading values

A value is read token by token, with the arrays and objects that are still open held on a stack.
A key that is repeated in an object keeps its first place and takes its last value. Containers nest
at most `maxDepth` deep.

* `Json.ofText?`: the value that a text writes, `none` if it writes none.
-/

namespace StateEngine

/-- A container that is still open. Its items are kept last first. -/
inductive OpenContainer where
  | array (items : List Json)
  /-- An object whose next value belongs to `key`. -/
  | object (members : Members) (key : String)
  deriving Repr, Inhabited

/-- What may come next, inside the containers that are open, the innermost first. -/
inductive Reader where
  | value (stack : List OpenContainer)
  /-- After an opening bracket: an item or the closing one. -/
  | arrayStart (stack : List OpenContainer)
  /-- After an opening brace: a key or the closing one. -/
  | objectStart (stack : List OpenContainer)
  | key (members : Members) (stack : List OpenContainer)
  | colon (members : Members) (key : String) (stack : List OpenContainer)
  /-- After a complete value. -/
  | complete (value : Json) (stack : List OpenContainer)
  deriving Repr, Inhabited

namespace Reader

/-- How many containers may be open at once. -/
def maxDepth : Nat := 127

/-- A token where a value has to start. -/
def valueStep (stack : List OpenContainer) : Token → Option Reader
  | .openArray => if stack.length < maxDepth then some (.arrayStart stack) else none
  | .openObject => if stack.length < maxDepth then some (.objectStart stack) else none
  | .string s => some (.complete (.string s) stack)
  | .scalar v => some (.complete v stack)
  | _ => none

/-- A token after a complete value: it goes on with or closes the innermost container. -/
def completeStep (value : Json) : List OpenContainer → Token → Option Reader
  | .array items :: stack, .comma => some (.value (.array (value :: items) :: stack))
  | .array items :: stack, .closeArray => some (.complete (.array (value :: items).reverse) stack)
  | .object members k :: stack, .comma => some (.key (members.put k value) stack)
  | .object members k :: stack, .closeObject => some (.complete (.object (members.put k value)) stack)
  | _, _ => none

def step : Reader → Token → Option Reader
  | value stack, t => valueStep stack t
  | arrayStart stack, .closeArray => some (.complete (.array []) stack)
  | arrayStart stack, t => valueStep (.array [] :: stack) t
  | objectStart stack, .closeObject => some (.complete (.object []) stack)
  | objectStart stack, .string k => some (.colon [] k stack)
  | objectStart _, _ => none
  | key members stack, .string k => some (.colon members k stack)
  | key _ _, _ => none
  | colon members k stack, .colon => some (.value (.object members k :: stack))
  | colon _ _ _, _ => none
  | complete v stack, t => completeStep v stack t

/-- The value, once every container is closed. -/
def result? : Reader → Option Json
  | complete v [] => some v
  | _ => none

/-- Read the rest of the tokens. -/
def run? (reader : Reader) : List Token → Option Json
  | [] => reader.result?
  | t :: rest =>
    match reader.step t with
    | none => none
    | some next => run? next rest

end Reader

/-- **The value that a text writes.** -/
def Json.ofText? (text : String) : Option Json :=
  (tokens? text).bind (Reader.run? (.value []))

end StateEngine
