import StateEngine.Definition.Compile
import StateEngine.Machine.Basic

/-!
# Building machines

A machine is built from the value of a definition. Unless the definition has an error event of its
own, one is added that leads from every state to `failed`, and lists of allowed states take `failed`
in.

* `withErrorEvent`: a definition's value with the default error event.
* `Machine.build`: the machine of a definition's value.
-/

namespace StateEngine

/-- The default error event: from every state to the failed one. -/
def defaultErrorEvent : Json := .object [("transition", .object [(everyState, .string failedState)])]

/-- Whether a value is a string. -/
def Json.isString (value : Json) (s : String) : Bool := value.string? == some s

/-- A list with the failed state in it; anything else as it is. -/
def allowFailed : Json → Json
  | .array items =>
    if items.any (·.isString failedState) then .array items
    else .array (items ++ [.string failedState])
  | value => value

/-- The object of events with the default error event, if it has events but no error event. -/
def Members.addErrorEvent? (events : Members) : Option Members :=
  if events.isEmpty || (events.map (·.1)).contains errorEvent then none
  else some (events ++ [(errorEvent, defaultErrorEvent)])

/-- The object of states with the failed state in its lists. -/
def allowFailedIn : Json → Json
  | .object states =>
    .object (Members.change (Members.change states "knownStates" allowFailed)
      "explicitStates" allowFailed)
  | value => value

/-- **A definition's value with the default error event**, unless it has its own or no events. -/
def withErrorEvent (spec : Json) : Json :=
  match spec with
  | .object root =>
    match ((root.lookup "events").bind Json.members?).bind Members.addErrorEvent? with
    | none => spec
    | some events =>
      .object (Members.change (Members.change root "events" fun _ => .object events)
        "states" allowFailedIn)
  | _ => spec

/-- Why a machine is not built. -/
inductive BuildError where
  | definition (error : DefinitionError)
  | unknownInitialState (state : String) (known : List String)
  deriving DecidableEq, Repr

def BuildError.message : BuildError → String
  | definition error => error.message
  | unknownInitialState state known =>
    "initial state " ++ named state ++ " is not a defined state, try one of [" ++
      ", ".intercalate known ++ "]"

variable {κ φ : Type}

/-- The state a machine starts in: the definition's own, unless another one is given. -/
def Definition.startState (definition : Definition κ) :
    Option String → Except BuildError String
  | none => .ok definition.initialState
  | some state =>
    if definition.hasState state then .ok state
    else .error (.unknownInitialState state definition.stateNames)

/-- **The machine of a definition's value**, with inline hooks, the name of the target, the texts of
identities, perhaps a state to start in, and a number of listeners. -/
def Machine.build (spec : Json) (inline : List (InlineHook κ)) (targetName : String)
    (idText : TransitionId → String) (initialState : Option String) (listeners : Nat) :
    Except BuildError (Machine κ φ) := do
  let definition ← (Definition.compile (withErrorEvent spec) inline).mapError .definition
  let state ← definition.startState initialState
  return .start definition targetName idText state listeners

end StateEngine
