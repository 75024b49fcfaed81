import StateEngine.Callback

/-!
# Targets

A target supplies guards and callbacks by name. A guard is a stored value or a predicate of the
current state. Targets hold their members in lists of pairs; a member that is set again is replaced.
-/

namespace StateEngine

/-- A guard: a stored value, or a predicate of the current state. -/
inductive Guard (π : Type) where
  | value (value : Json)
  | predicate (predicate : π)
  deriving Repr, Inhabited

namespace Guard

variable {π : Type}

/-- The text for inspection. -/
def debugText : Guard π → String
  | value v => "Guard::Value(" ++ v.debugText ++ ")"
  | predicate _ => "Guard::Predicate(..)"

/-- **Whether a guard holds** in a state. -/
def check (guard : Guard (String → Bool)) (state : String) : Bool :=
  match guard with
  | value v => v.truthy
  | predicate holds => holds state

end Guard

/-- The name of a target that has none. -/
def defaultTargetName : String := "target"

/-- Guards and callbacks by name. -/
structure Target (γ κ : Type) where
  name : String
  guards : List (String × γ)
  callbacks : List (String × κ)
  deriving Repr, Inhabited

namespace Target

variable {γ κ : Type}

def empty (name : String) : Target γ κ := ⟨name, [], []⟩

/-- The name in messages. -/
def describe (target : Target γ κ) : String :=
  if target.name.isEmpty then defaultTargetName else target.name

def guard? (target : Target γ κ) (name : String) : Option γ := target.guards.lookup name

def callback? (target : Target γ κ) (name : String) : Option κ := target.callbacks.lookup name

/-- Set a guard, replacing one of the same name. -/
def setGuard (target : Target γ κ) (name : String) (guard : γ) : Target γ κ :=
  { target with guards := (name, guard) :: target.guards }

/-- Set a callback, replacing one of the same name. -/
def setCallback (target : Target γ κ) (name : String) (callback : κ) : Target γ κ :=
  { target with callbacks := (name, callback) :: target.callbacks }

/-- Forget a guard. -/
def removeGuard (target : Target γ κ) (name : String) : Target γ κ :=
  { target with guards := target.guards.filter (·.1 != name) }

end Target

end StateEngine
