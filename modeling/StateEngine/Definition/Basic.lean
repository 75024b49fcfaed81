import StateEngine.Definition.Error
import StateEngine.Definition.Record
import StateEngine.StateName
import StateEngine.Text.Camel

/-!
# Definitions

A definition is the table of transitions of a machine: its states and events, the records that
connect them, and the hooks of its states. It runs no callbacks, it only answers questions.

* `Definition.recordsFor`: the records of an event, perhaps from one state only, in the order in
  which they are tried.
* `Definition.lookupStates`, `Definition.stateMatches`: states in a namespace.
* `Definition.accessors`: a named test for each namespace and each state.
-/

namespace StateEngine

/-- A hook of a state: the name of a callback, or a callback itself. -/
inductive Hook (κ : Type) where
  | named (name : String)
  | inline (callback : κ)
  deriving Repr, Inhabited

/-- A hook and where it hangs. -/
structure StateHook (κ : Type) where
  state : String
  phase : Phase
  hook : Hook κ
  deriving Repr, Inhabited

/-- A callback that is attached to a state directly. -/
structure InlineHook (κ : Type) where
  state : String
  phase : Phase
  callback : κ
  deriving Repr, Inhabited

/-- A state with the records that leave it and those that enter it. -/
structure State where
  name : String
  exits : List Record
  enters : List Record
  deriving DecidableEq, Repr, Inhabited

/-- An event with its records, in the order in which they are tried. -/
structure Event where
  name : String
  records : List Record
  deriving DecidableEq, Repr, Inhabited

/-- A named test: whether the current state is `path` or lies in it. -/
structure Accessor where
  name : String
  path : String
  deriving DecidableEq, Repr, Inhabited

/-- The table of transitions of a machine. -/
structure Definition (κ : Type) where
  initialState : String
  states : List State
  events : List Event
  hooks : List (StateHook κ)
  deriving Repr, Inhabited

namespace Definition

variable {κ : Type}

def stateNames (definition : Definition κ) : List String := definition.states.map (·.name)

def eventNames (definition : Definition κ) : List String := definition.events.map (·.name)

def hasState (definition : Definition κ) (name : String) : Bool :=
  definition.stateNames.contains name

def hasEvent (definition : Definition κ) (name : String) : Bool :=
  definition.eventNames.contains name

/-- The position of a state among the states. -/
def stateIndex? (definition : Definition κ) (name : String) : Option Nat :=
  definition.stateNames.findIdx? (· == name)

/-- The namespaces that states lie in, in the order in which they first occur. -/
def namespaces (definition : Definition κ) : List String :=
  (definition.stateNames.flatMap namespacesOf).eraseDups

/-- The namespaces, then the states that are none. -/
def paths (definition : Definition κ) : List String :=
  definition.namespaces ++
    definition.stateNames.filter fun name => !definition.namespaces.contains name

/-- One test for each namespace and each state. -/
def accessors (definition : Definition κ) : List Accessor :=
  definition.paths.map fun path => ⟨"isIn" ++ camelized path, path⟩

/-- The records of an event, and only those from a state if one is given. -/
def recordsFor (definition : Definition κ) (event : String) (source : Option String) :
    List Record :=
  match definition.events.find? (·.name == event) with
  | none => []
  | some found => found.records.filter fun r => source.all (r.fromState == ·)

def lookupState (definition : Definition κ) (name : String) : Except LookupError State :=
  match definition.states.find? (·.name == name) with
  | some state => .ok state
  | none => .error (.unknownState name)

def lookupEvent (definition : Definition κ) (name : String) : Except LookupError Event :=
  match definition.events.find? (·.name == name) with
  | some event => .ok event
  | none => .error (.unknownEvent name)

/-- The states that are a path or lie in it; there has to be one. -/
def lookupStates (definition : Definition κ) (path : String) : Except LookupError (List State) :=
  match definition.states.filter fun state => isWithin state.name path with
  | [] => .error (.noStatesMatching path)
  | states => .ok states

/-- Whether a state is a path or lies in it; some state of the definition has to. -/
def stateMatches (definition : Definition κ) (state path : String) : Except LookupError Bool :=
  (definition.lookupStates path).map fun _ => isWithin state path

/-- The hooks of a state for a phase: those that the definition names, then the inline ones. -/
def hooksOf (definition : Definition κ) (state : String) (phase : Phase) : List (Hook κ) :=
  (definition.hooks.filter fun h => h.state == state && h.phase == phase).map (·.hook)

end Definition

end StateEngine
