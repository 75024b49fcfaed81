import StateEngine.Machine.Error
import StateEngine.Machine.Program

/-!
# Resolving events

An event in a state has candidate records, in order. The first one wins that has no guard, whose
`doIf` guard holds or whose `doUnless` guard fails. Guards are read one by one, `doIf` before
`doUnless`, and none after the one that decides.

* `firstPassing`: the record that wins among candidates.
* `resolve`: the record that an event selects in the current state.
* `canEnter`: whether some record into a state would win among those into it.
-/

namespace StateEngine

variable {κ φ : Type}

/-- Whether a guard of the target holds in a state. -/
def checkGuard (name state : String) : Program κ φ (Except UndefinedGuard Bool) := do
  match ← ask (.guard name state) with
  | some holds => pure (.ok holds)
  | none => do
    let machine ← look
    pure (.error ⟨name, machine.targetName⟩)

/-- Whether the guard that must not hold lets a record pass in a state. -/
def passesUnless (guards : Guards) (state : String) : Program κ φ (Except UndefinedGuard Bool) :=
  match guards.doUnless with
  | none => pure (.ok false)
  | some name => do
    let holds ← checkGuard name state
    pure (holds.map (!·))

/-- Whether one of the guards that a record has lets it pass in a state. -/
def passes (guards : Guards) (state : String) : Program κ φ (Except UndefinedGuard Bool) :=
  match guards.doIf with
  | none => passesUnless guards state
  | some name => do
    match ← checkGuard name state with
    | .error error => pure (.error error)
    | .ok true => pure (.ok true)
    | .ok false => passesUnless guards state

/-- **The first of the candidates that passes** in a state. -/
def firstPassing (state : String) : List Record → Program κ φ (Except UndefinedGuard (Option Record))
  | [] => pure (.ok none)
  | record :: rest =>
    if record.isGuarded then do
      match ← passes record.guards state with
      | .error error => pure (.error error)
      | .ok true => pure (.ok (some record))
      | .ok false => firstPassing state rest
    else pure (.ok (some record))

/-- **The record that an event selects** in the current state. -/
def resolve (event : String) : Program κ φ (Except DispatchError Record) := do
  let machine ← look
  let state := machine.state
  match machine.definition.recordsFor event (some state) with
  | [] => pure (.error (.noTransitionDefined event state))
  | candidates =>
    match ← firstPassing state candidates with
    | .error error => pure (.error (.undefinedGuard error))
    | .ok none => pure (.error (.noTransitionResolved event state))
    | .ok (some record) => pure (.ok record)

/-- The records from a state of the definition into another one. -/
def Definition.between (definition : Definition κ) (source target : String) : List Record :=
  match definition.lookupState source with
  | .error _ => []
  | .ok state => state.exits.filter (·.toState == target)

/-- Whether a record from the current state into a state would win among those into it. -/
def canEnter (target : String) : Program κ φ (Except UndefinedGuard Bool) := do
  let machine ← look
  let winner ← firstPassing machine.state (machine.definition.between machine.state target)
  pure (winner.map Option.isSome)

end StateEngine
