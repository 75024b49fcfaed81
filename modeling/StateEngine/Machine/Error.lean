import StateEngine.Definition.Error

/-!
# Refusals

Why an event is not dispatched. All of these arise before any callback runs.
-/

namespace StateEngine

/-- A guard that the target does not have. -/
structure UndefinedGuard where
  guard : String
  target : String
  deriving DecidableEq, Repr

def UndefinedGuard.message (error : UndefinedGuard) : String :=
  "expected guard " ++ named error.guard ++ " on target " ++ named error.target ++ " to be defined"

/-- Why an event is not dispatched. -/
inductive DispatchError where
  | unknownEvent (event : String) (known : List String)
  | noTransitionDefined (event state : String)
  | noTransitionResolved (event state : String)
  | undefinedGuard (error : UndefinedGuard)
  /-- The guards moved the machine out of the state that the transition leaves. -/
  | stateChanged (event resolvedFrom current : String)
  /-- Other transitions are active: their events, from-states and to-states. -/
  | transitionInProgress (current target : String) (active : List (String × String × String))
  deriving DecidableEq, Repr

def DispatchError.message : DispatchError → String
  | unknownEvent event known =>
    "unknown state event " ++ named event ++ " try one of [" ++ ", ".intercalate known ++ "]"
  | noTransitionDefined event state =>
    "no transition is defined for event " ++ named event ++ " in state " ++ named state
  | noTransitionResolved event state =>
    "no unguarded transition was resolved for event " ++ named event ++ " in state " ++ named state
  | undefinedGuard error => error.message
  | stateChanged event resolvedFrom current =>
    "event " ++ named event ++ " was resolved from state " ++ named resolvedFrom ++
      " but the machine moved to " ++ named current
  | transitionInProgress current target active =>
    let labels := active.map fun (event, source, target) =>
      event ++ " (" ++ source ++ " -> " ++ target ++ ")"
    "unable to transition out of " ++ named current ++ " state to " ++ named target ++
      " state while transitions are active: [" ++ ", ".intercalate labels ++ "]"

end StateEngine
