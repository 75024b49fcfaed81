import StateEngine.Definition.Error
import StateEngine.Definition.Record
import StateEngine.Json.Basic
import StateEngine.StateName

/-!
# Declarations

A definition is written as a value: an object of states and an object of events. Reading it gives a
`Declaration`, in which defaults are filled in, single items are lists, and a member that is `null`
counts as absent. The names `$all` and `$same` still stand for states here.

* `Mapping.read`: one transition object, with the defaults of its event.
* `EventDeclaration.read`: one event.
* `Declaration.read`: a whole definition, apart from the hooks of its states.
-/

namespace StateEngine

/-- Transitions of one event to one state, from each of the sources. -/
structure Mapping where
  sources : List String
  target : String
  guards : Guards
  callbacks : CallbackNames
  deriving DecidableEq, Repr, Inhabited

/-- An event and its transitions, in the order in which they are tried. -/
structure EventDeclaration where
  name : String
  mappings : List Mapping
  deriving DecidableEq, Repr, Inhabited

/-- A definition as it is declared. -/
structure Declaration where
  initialState : String
  /-- The only states that may occur, if the definition lists them. -/
  allowed : Option (List String)
  events : List EventDeclaration
  /-- The members of the object of states, among them the hooks. -/
  states : Members
  deriving Repr, Inhabited

/-- The keys of a transition object that are not from-states. -/
def reservedTransitionKeys : List String :=
  ["from", "to", "guard", "doIf", "unless", "doUnless", "before", "after", "willEnter", "didEnter",
    "willExit", "didExit"]

/-- The strings of a list of values, or an error at the first that is none. -/
def stringsOr (error : DefinitionError) (items : List Json) : Except DefinitionError (List String) :=
  items.mapM fun item =>
    match item.string? with
    | some s => .ok s
    | none => .error error

/-- A value, or an error if there is none. -/
def orError {α : Type} (error : DefinitionError) : Option α → Except DefinitionError α
  | some a => .ok a
  | none => .error error

/-- The name of a guard, under the first of two keys that is present. -/
def guardName (event : String) (members : Members) (key other : String) :
    Except DefinitionError (Option String) :=
  match members.firstPresent? [key, other] with
  | none => .ok none
  | some value => (orError (.invalidProperty event key .guardName) value.string?).map some

/-- The guards that an object declares itself. -/
def Guards.read (event : String) (members : Members) : Except DefinitionError Guards := do
  let doIf ← guardName event members "guard" "doIf"
  let doUnless ← guardName event members "unless" "doUnless"
  return ⟨doIf, doUnless⟩

/-- The callbacks that an object declares for a phase. -/
def callbackNames (event : String) (members : Members) (phase : Phase) :
    Except DefinitionError (List String) :=
  stringsOr (.invalidProperty event phase.key .callbackNames)
    ((members.lookup phase.key).getD .null).toItems

namespace Mapping

/-- The sources under the key `from`: a state name or a list of at least one. -/
def readSources (event : String) (value : Json) : Except DefinitionError (List String) :=
  let error := DefinitionError.invalidProperty event "from" .stateNames
  if value.toItems.isEmpty then .error error else stringsOr error value.toItems

/-- **The sources and the target of a transition object.** There is one mapping: either one key that
is not reserved, from its name to its value, or `from` and `to`. -/
def readStates (event : String) (members : Members) :
    Except DefinitionError (List String × String) :=
  let sources := members.presentKeys.filter fun key => !reservedTransitionKeys.contains key
  let source? := members.present? "from"
  let target? := members.present? "to"
  let count := sources.length + if source?.isSome || target?.isSome then 1 else 0
  if 1 < count then .error (.multipleMappings event count)
  else
    match sources, source?, target? with
    | source :: _, _, _ => do
      let target ← orError (.invalidProperty event source .mapsToStateName)
        ((members.present? source).bind Json.string?)
      return ([source], target)
    | [], some source, some target => do
      let target ← orError (.invalidProperty event "to" .stateName) target.string?
      let sources ← readSources event source
      return (sources, target)
    | [], _, _ => .error (.missingMapping event)

/-- One transition object. Its own guards, if it has any, replace those of the event; its callbacks
come after those of the event. -/
def read (event : String) (guards : Guards) (callbacks : CallbackNames) (members : Members) :
    Except DefinitionError Mapping := do
  let (sources, target) ← readStates event members
  if sources.contains sameState then throw (.sameAsFromState event)
  let own ← Guards.read event members
  let callbacks ← PhaseTable.ofFnM fun phase =>
    (callbackNames event members phase).map (callbacks.get phase ++ ·)
  return ⟨sources, target, if own.any then own else guards, callbacks⟩

end Mapping

namespace EventDeclaration

/-- The transition objects of an event: one value, or the items of a list. -/
def transitionItems (name : String) (members : Members) : Except DefinitionError (List Json) :=
  match members.present? "transition", members.present? "transitions" with
  | some _, some _ => .error (.conflictingTransitionKeys name)
  | none, none => .error (.missingTransitions name)
  | some value, none => .ok value.toItems
  | none, some value => .ok value.toItems

/-- One event. -/
def read (name : String) (entry : Json) : Except DefinitionError EventDeclaration := do
  let members ← orError (.invalidEvent name) entry.members?
  let items ← transitionItems name members
  if items.isEmpty then throw (.emptyEvent name)
  let guards ← Guards.read name members
  let callbacks ← PhaseTable.ofFnM (callbackNames name members)
  let mappings ← items.mapM fun item => do
    let members ← orError (.invalidTransition name) item.members?
    Mapping.read name guards callbacks members
  return ⟨name, mappings⟩

end EventDeclaration

namespace Declaration

/-- The object of events, which has to be there. -/
def readEvents (root : Members) : Except DefinitionError Members :=
  match root.present? "events" with
  | none => .error .missingEvents
  | some value => orError .invalidEvents value.members?

/-- The object of states, which may be absent. -/
def readStates (root : Members) : Except DefinitionError Members :=
  match root.present? "states" with
  | none => .ok []
  | some value => orError .invalidStates value.members?

def readInitial (states : Members) : Except DefinitionError String :=
  match states.present? "initialState" with
  | none => .ok defaultInitialState
  | some value => orError (.invalidStateProperty "initialState" .stateName) value.string?

/-- The states that are listed, each once. -/
def readAllowed (states : Members) : Except DefinitionError (Option (List String)) :=
  let error := DefinitionError.invalidStateProperty "knownStates" .stateNameList
  match states.firstPresent? ["knownStates", "explicitStates"] with
  | none => .ok none
  | some (.array items) => (stringsOr error items).map fun names => some names.eraseDups
  | some _ => .error error

/-- **A whole definition.** -/
def read (spec : Json) : Except DefinitionError Declaration := do
  let root ← orError .notAnObject spec.members?
  let events ← readEvents root
  let states ← readStates root
  if events.isEmpty then throw .noEvents
  let initialState ← readInitial states
  let allowed ← readAllowed states
  let events ← events.mapM fun (name, entry) => EventDeclaration.read name entry
  return ⟨initialState, allowed, events, states⟩

end Declaration

end StateEngine
