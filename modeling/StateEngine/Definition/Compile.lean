import StateEngine.Definition.Basic
import StateEngine.Definition.Declaration

/-!
# From declarations to definitions

A declaration compiles in five steps: its states are named, `$all` and `$same` are replaced by
states, no event may be left with no records or leave a state unguarded in two ways, the hooks of
states are gathered, and the records are entered into the table of states.

* `Declaration.stateNames`: the states that are mentioned, in the order in which they first occur,
  or the states that are listed if just these are mentioned.
* `Mapping.records`: the records of a mapping, once the states are known.
* `State.table`: the states with the records that leave and enter them.
* `Definition.compile`: the definition that a value declares.
-/

namespace StateEngine

namespace Mapping

/-- The states that a mapping mentions, source by source. -/
def mentioned (mapping : Mapping) : List String :=
  (mapping.sources.flatMap fun source => [source, mapping.target]).filter fun name =>
    name != everyState && name != sameState

/-- The states that a source stands for. -/
def expandSource (known : List String) (source : String) : List String :=
  if source = everyState then known else [source]

/-- The state that the target stands for, coming from a state. -/
def expandTarget (mapping : Mapping) (source : String) : String :=
  if mapping.target = sameState then source else mapping.target

/-- The records of a mapping, source by source. -/
def records (known : List String) (event : String) (mapping : Mapping) : List Record :=
  (mapping.sources.flatMap (expandSource known)).map fun source =>
    ⟨event, source, mapping.expandTarget source, mapping.guards, mapping.callbacks⟩

end Mapping

namespace EventDeclaration

def mentioned (event : EventDeclaration) : List String := event.mappings.flatMap Mapping.mentioned

/-- The records of an event, in the order in which they are tried. -/
def records (known : List String) (event : EventDeclaration) : List Record :=
  event.mappings.flatMap (Mapping.records known event.name)

/-- The event with its records, unless it has none, or leaves some state unguarded in two ways. -/
def compile (known : List String) (event : EventDeclaration) : Except DefinitionError Event :=
  if (event.records known).isEmpty then .error (.emptyEvent event.name)
  else
    match Record.clash? [] (event.records known) with
    | some state => .error (.ambiguous event.name state)
    | none => .ok ⟨event.name, event.records known⟩

end EventDeclaration

namespace Declaration

/-- The states that a declaration mentions, the initial state first, each once. -/
def mentioned (declaration : Declaration) : List String :=
  (declaration.initialState :: declaration.events.flatMap EventDeclaration.mentioned).eraseDups

/-- **The states of a declaration.** If it lists its states, they are those it mentions. -/
def stateNames (declaration : Declaration) : Except DefinitionError (List String) :=
  match declaration.allowed with
  | none => .ok declaration.mentioned
  | some allowed =>
    match declaration.mentioned.find? fun name => !allowed.contains name with
    | some name => .error (.undefinedState name)
    | none =>
      match allowed.find? fun name => !declaration.mentioned.contains name with
      | some name => .error (.unusedState name)
      | none => .ok allowed

end Declaration

/-- The members of the object of states that are not hooks. -/
def reservedStateKeys : List String := ["initialState", "knownStates", "explicitStates"]

namespace StateHook

variable {κ : Type}

/-- The hooks that one member of the object of states declares. -/
def readState (known : List String) (state : String) (value : Json) :
    Except DefinitionError (List (StateHook κ)) := do
  let members ← orError (.invalidStateProperty state .hookObject) value.members?
  match members.find? fun member => (Phase.ofHookKey? member.1).isNone with
  | some (key, _) => throw (.invalidStateProperty (state ++ "." ++ key) .hookKey)
  | none => pure ()
  if !known.contains state then
    throw (.unknownHookState state (members.head?.bind fun member => Phase.ofHookKey? member.1))
  let hooks ← Phase.hooks.mapM fun phase => do
    let names ← stringsOr (.invalidStateProperty (state ++ "." ++ phase.name) .callbackNames)
      ((members.lookup phase.key).getD .null).toItems
    return names.map fun name => ⟨state, phase, .named name⟩
  return hooks.flatten

/-- The hooks that the object of states declares. -/
def readAll (known : List String) (states : Members) :
    Except DefinitionError (List (StateHook κ)) := do
  let declared := states.filter fun (key, value) => !reservedStateKeys.contains key && !value.isNull
  let hooks ← declared.mapM fun (state, value) => readState known state value
  return hooks.flatten

/-- An inline hook hangs on a known state, in a phase that states can hook into. -/
def ofInline (known : List String) (hook : InlineHook κ) : Except DefinitionError (StateHook κ) :=
  if hook.phase.side?.isNone then .error (.invalidHookPhase hook.phase)
  else if !known.contains hook.state then .error (.unknownHookState hook.state (some hook.phase))
  else .ok ⟨hook.state, hook.phase, .inline hook.callback⟩

end StateHook

namespace State

/-- A state with no records yet. -/
def bare (name : String) : State := ⟨name, [], []⟩

/-- One more record that leaves a state. -/
def addExit (record : Record) (state : State) : State := { state with exits := state.exits ++ [record] }

/-- One more record that enters a state. -/
def addEnter (record : Record) (state : State) : State := { state with enters := state.enters ++ [record] }

/-- Change the entry of a name, which is found by the place of the name. Nothing changes for a name that is not
there. -/
def change (names : List String) (name : String) (f : State → State) (table : List State) : List State :=
  match names.findIdx? (· == name) with
  | none => table
  | some place => table.modify place f

/-- **Enter a record into a table**, under the state that it leaves and under the one that it enters. -/
def index (names : List String) (table : List State) (record : Record) : List State :=
  change names record.toState (addEnter record) (change names record.fromState (addExit record) table)

/-- The table of some states, filled record by record. -/
def table (names : List String) (records : List Record) : List State :=
  records.foldl (index names) (names.map bare)

end State

variable {κ : Type}

/-- The definition of a declaration, with inline hooks. -/
def Declaration.compile (declaration : Declaration) (inline : List (InlineHook κ)) :
    Except DefinitionError (Definition κ) := do
  let known ← declaration.stateNames
  let events ← declaration.events.mapM (EventDeclaration.compile known)
  let declared ← StateHook.readAll known declaration.states
  let attached ← inline.mapM (StateHook.ofInline known)
  let states := State.table known (events.flatMap (·.records))
  return ⟨declaration.initialState, states, events, declared ++ attached⟩

/-- **The definition that a value declares**, with inline hooks. -/
def Definition.compile (spec : Json) (inline : List (InlineHook κ)) :
    Except DefinitionError (Definition κ) := do
  let declaration ← Declaration.read spec
  declaration.compile inline

end StateEngine
