import StateEngine.Phase

/-!
# Errors of definitions

`DefinitionError` lists what can be wrong with a definition, `LookupError` what a question about one
can name in vain. Each has one text, `message`.
-/

namespace StateEngine

/-- What a property should have been. -/
inductive Expected where
  | mapsToStateName
  | stateName
  | stateNames
  | stateNameList
  | guardName
  | callbackNames
  | hookObject
  | hookKey
  deriving DecidableEq, Repr

def Expected.text : Expected → String
  | mapsToStateName => "must map to a state name"
  | stateName => "must be a state name"
  | stateNames => "must be a state name or a list of state names"
  | stateNameList => "must be a list of state names"
  | guardName => "must be the name of a guard"
  | callbackNames => "must be a callback name or a list of callback names"
  | hookObject => "must be an object of lifecycle hooks"
  | hookKey => "is not a lifecycle hook, use willEnter, didEnter, willExit or didExit"

/-- What is wrong with a definition. -/
inductive DefinitionError where
  /-- Its text writes no value. -/
  | unreadable
  | notAnObject
  | missingEvents
  | invalidEvents
  | invalidStates
  | noEvents
  | invalidEvent (event : String)
  | missingTransitions (event : String)
  | conflictingTransitionKeys (event : String)
  | emptyEvent (event : String)
  | invalidTransition (event : String)
  | multipleMappings (event : String) (count : Nat)
  | missingMapping (event : String)
  | invalidProperty (event key : String) (expected : Expected)
  | sameAsFromState (event : String)
  | ambiguous (event state : String)
  | undefinedState (state : String)
  | unusedState (state : String)
  | invalidStateProperty (key : String) (expected : Expected)
  /-- The phase is the first one that the hooks name, if they name any. -/
  | unknownHookState (state : String) (phase : Option Phase)
  | invalidHookPhase (phase : Phase)
  deriving DecidableEq, Repr

/-- A name between quotes, as messages give it. -/
def named (name : String) : String := "\"" ++ name ++ "\""

def DefinitionError.message : DefinitionError → String
  | unreadable => "definition could not be parsed"
  | notAnObject => "definition must be an object"
  | missingEvents => "definition requires an \"events\" property"
  | invalidEvents => "\"events\" must be an object"
  | invalidStates => "\"states\" must be an object if passed"
  | noEvents => "definition requires at least one event"
  | invalidEvent event => "event " ++ named event ++ " must be an object"
  | missingTransitions event =>
    "event " ++ named event ++ " must declare \"transition\" or \"transitions\""
  | conflictingTransitionKeys event =>
    "event " ++ named event ++ " declares both \"transition\" and \"transitions\""
  | emptyEvent event => "event " ++ named event ++ " has no transitions, it needs at least one"
  | invalidTransition event =>
    "transition definitions for event " ++ named event ++ " must be objects"
  | multipleMappings event count =>
    "only one from-state to to-state mapping is allowed per object, event " ++ named event ++
      " declares " ++ toString count
  | missingMapping event =>
    "a transition for event " ++ named event ++ " does not declare a from-state and to-state"
  | invalidProperty event key expected =>
    "property " ++ named key ++ " of a transition for event " ++ named event ++ " " ++ expected.text
  | sameAsFromState event =>
    "\"$same\" cannot be used as a from-state (event " ++ named event ++ ")"
  | ambiguous event state =>
    "there is more than one unguarded transition for event " ++ named event ++ " in state " ++
      named state
  | undefinedState state => named state ++ " is not a defined state"
  | unusedState state => named state ++ " is not used by any transition"
  | invalidStateProperty key expected => "state property " ++ named key ++ " " ++ expected.text
  | unknownHookState state phase =>
    "lifecycle hook " ++ (phase.map Phase.name).getD "\x7b\x7d" ++ " is declared for unknown state " ++
      named state
  | invalidHookPhase phase =>
    phase.name ++ " is not a state lifecycle hook, use willEnter, didEnter, willExit or didExit"

/-- A question about a definition named something that the definition does not have. -/
inductive LookupError where
  | unknownState (name : String)
  | unknownEvent (name : String)
  | noStatesMatching (name : String)
  deriving DecidableEq, Repr

def LookupError.message : LookupError → String
  | unknownState name => "state " ++ named name ++ " is not defined"
  | unknownEvent name => "event " ++ named name ++ " is not defined"
  | noStatesMatching name =>
    "there are no states or substates defined matching " ++ named name

end StateEngine
