/-!
# State names

A state name is a dotted path: `active.running` lies in the namespace `active`. `isWithin` tells
whether a name is another one or lies in it; `namespacesOf` lists the namespaces that a name
lies in.
-/

namespace StateEngine

/-- As a from-state: every state of the definition. -/
def everyState : String := "$all"

/-- As a to-state: the from-state itself. -/
def sameState : String := "$same"

/-- The initial state of a definition that names none. -/
def defaultInitialState : String := "initialized"

/-- The state that the default error event leads to. -/
def failedState : String := "failed"

/-- Whether a path is `outer`, or `outer` followed by a point and more. -/
def isWithinChars : (name outer : List Char) → Bool
  | [], [] => true
  | c :: _, [] => c == '.'
  | [], _ :: _ => false
  | c :: name, d :: outer => c == d && isWithinChars name outer

/-- **Whether a state is another state or namespace, or lies in it.** -/
def isWithin (name outer : String) : Bool := isWithinChars name.toList outer.toList

/-- The paths that end right before a point, after what was passed already, last first. -/
def namespaceChars (passed : List Char) : List Char → List (List Char)
  | [] => []
  | c :: rest =>
    if c = '.' ∧ !passed.isEmpty then passed.reverse :: namespaceChars (c :: passed) rest
    else namespaceChars (c :: passed) rest

/-- **The namespaces of a state name**, the outermost first. -/
def namespacesOf (name : String) : List String :=
  (namespaceChars [] name.toList).map String.ofList

end StateEngine
