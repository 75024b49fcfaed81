import StateEngine.Phase
import StateEngine.Text.Quoted

/-!
# Callbacks

A callback is called with a `Context`. It ends at once, with a value or an error, or hands back a
computation that is still pending; `Settlement` is what it hands back. Callbacks themselves and the
computations they leave pending belong to whoever hosts the machine: here they are any types.
-/

namespace StateEngine

/-- What a callback is told about the transition that calls it. -/
structure Context where
  event : String
  fromState : String
  toState : String
  phase : Phase
  args : List Json
  deriving Repr, Inhabited

/-- How a callback ends: with a value, or with the reason why it failed. -/
abbrev Outcome := Except Json Json

/-- What a callback hands back. -/
inductive Settlement (φ : Type) where
  | value (value : Json)
  | error (reason : Json)
  | pending (computation : φ)
  deriving Repr, Inhabited

namespace Settlement

variable {φ : Type}

/-- What a callback hands back that returns nothing. -/
def unit : Settlement φ := value .null

/-- What a callback hands back that has ended in a way. -/
def ofOutcome : Outcome → Settlement φ
  | .ok v => value v
  | .error reason => error reason

/-- The text for inspection. -/
def debugText : Settlement φ → String
  | value v => "Value(" ++ v.debugText ++ ")"
  | error reason => "Error(" ++ reason.debugText ++ ")"
  | pending _ => "Pending(..)"

end Settlement

/-- The text for inspection of any callback. -/
def callbackDebugText : String := "Callback(..)"

/-- What a pending computation answers when it is polled. -/
inductive Awaited (φ : Type) where
  /-- It is still pending, and asks for another poll. -/
  | yielding (computation : φ)
  /-- It is still pending, and asks for no poll before the machine is woken. -/
  | sleeping (computation : φ)
  | settled (outcome : Outcome)

end StateEngine
