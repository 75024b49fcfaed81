import StateEngine.Machine.Perform
import StateEngine.Machine.Resolve

/-!
# Dispatching events

Sending an event resolves it to a transition, which becomes active at once, and makes a future that
performs the transition when it is polled. While a transition is active, only transitions that stay
in the current state may join it. A transition whose phases succeed is committed. One that rejects
aborts all others, and unless its event is the error event, that event is dispatched before the
future yields the rejection.

* `send`, `transitionFor`: a new transition, active or not.
* `poll`: go on with a future, up to its end or to the next pending computation.
* `setState`: set the current state directly.
-/

namespace StateEngine

variable {κ φ : Type}

/-- The transition that an event would trigger, without performing it. -/
def transitionFor (event : String) (args : List Json) :
    Program κ φ (Except DispatchError TransitionId) := do
  match ← resolve event with
  | .error error => pure (.error error)
  | .ok record => do
    let machine ← look
    make (.add record args)
    pure (.ok machine.nextTransition)

/-- The transitions that are active, as messages list them. -/
def Machine.activeLabels (machine : Machine κ φ) : List (String × String × String) :=
  machine.activeTransitions.map fun t => (t.record.event, t.record.fromState, t.record.toState)

/-- Whether a record may become active: the machine is still in its from-state, and nothing else is
active unless the record stays in the current state. -/
def Machine.permit (machine : Machine κ φ) (record : Record) : Except DispatchError Unit :=
  if record.fromState ≠ machine.state then
    .error (.stateChanged record.event record.fromState machine.state)
  else if machine.isTransitioning && record.toState != machine.state then
    .error (.transitionInProgress machine.state record.toState machine.activeLabels)
  else .ok ()

/-- **The record that an event selects**, if it may become active. -/
def select (event : String) : Program κ φ (Except DispatchError Record) := do
  let machine ← look
  if !machine.definition.hasEvent event then
    pure (.error (.unknownEvent event machine.definition.eventNames))
  else
    match ← resolve event with
    | .error error => pure (.error error)
    | .ok record => do
      let machine ← look
      match machine.permit record with
      | .error error => pure (.error error)
      | .ok () => pure (.ok record)

/-- **Send an event**: an active transition, and the future that will perform it. -/
def send (event : String) (args : List Json) :
    Program κ φ (Except DispatchError (TransitionId × FutureId)) := do
  match ← select event with
  | .error error => pure (.error error)
  | .ok record => do
    let machine ← look
    make (.launch record args)
    pure (.ok (machine.nextTransition, machine.nextFuture))

/-- Notify listeners of a change, one after the other. -/
def notifyAll (change : StateChange) : List Nat → Program κ φ Unit
  | [] => pure ()
  | listener :: rest => do
    let _ ← ask (.notify listener change)
    notifyAll change rest

/-- Notify the listeners that there are now. -/
def notify (change : StateChange) : Program κ φ Unit := do
  let machine ← look
  notifyAll change (List.range machine.listeners)

/-- **Settle a dispatch whose phases succeeded.** It is committed, unless its transition is not
active or was aborted. -/
def settle (future : FutureId) (id : TransitionId) (record : Record) : Program κ φ Unit := do
  let machine ← look
  if machine.isActive id && !machine.isAborted id then
    make (.commit future id record)
    notify ⟨some record.event, machine.state, record.toState⟩
  else
    make (.release future id)

/-- **Set the current state directly.** The history does not tell. -/
def setState (name : String) : Program κ φ (Except LookupError Unit) := do
  let machine ← look
  match machine.definition.lookupState name with
  | .error error => pure (.error error)
  | .ok _ => do
    make (.setState name)
    notify ⟨none, machine.state, name⟩
    pure (.ok ())

/-- What polling a future comes to. -/
inductive Polled where
  | pending
  /-- The single phase of the future is over. -/
  | finished
  | resolved (transition : TransitionId)
  | rejected (rejection : Rejection)

/-- The end of a future that is no dispatch. -/
def finish (future : FutureId) (result : Polled) : Except Rejection Unit → Program κ φ Polled
  | .ok () => do
    make (.closeFuture future)
    pure result
  | .error rejection => do
    make (.closeFuture future)
    pure (.rejected rejection)

/-- Put a future back that waits for the calls of a phase. -/
def rest (future : FutureId) (phase : Phase) (roster : Roster φ) : Program κ φ Polled := do
  make (.setStage future (.waiting phase roster))
  pure .pending

/-- The end or the rest of an error dispatch. Whatever it came to, the future yields the rejection
that it was dispatched for. -/
def recover (future : FutureId) (id : TransitionId) (record : Record) (rejection : Rejection) :
    Advance φ → Program κ φ Polled
  | .waiting phase roster => rest future phase roster
  | .over (.ok ()) => do
    settle future id record
    pure (.rejected rejection)
  | .over (.error _) => do
    make (.fail future id none)
    pure (.rejected rejection)

/-- The argument of the error event: what went wrong, and with which transition. -/
def errorPayload (rejection : Rejection) (id : String) (t : Transition) : Json :=
  .object [("error", rejection.toJson), ("transition", t.toJson id)]

/-- **Dispatch the error event** for a transition that rejected. If it cannot be dispatched, that is
all. -/
def dispatchError (future : FutureId) (id : TransitionId) (t : Transition) (rejection : Rejection) :
    Program κ φ Polled := do
  match ← select errorEvent with
  | .error _ => do
    make (.closeFuture future)
    pure (.rejected rejection)
  | .ok record => do
    let machine ← look
    let args := [errorPayload rejection (machine.idText id) t]
    make (.relaunch future rejection record args)
    let advance ← startPerform machine.nextTransition (.fresh record args)
    recover future machine.nextTransition record rejection advance

/-- The end or the rest of a dispatch. -/
def conclude (future : FutureId) (id : TransitionId) (t : Transition) :
    Advance φ → Program κ φ Polled
  | .waiting phase roster => rest future phase roster
  | .over (.ok ()) => do
    settle future id t.record
    pure (.resolved id)
  | .over (.error rejection) =>
    if t.record.event = errorEvent then do
      make (.fail future id none)
      pure (.rejected rejection)
    else do
      make (.fail future id (some rejection))
      dispatchError future id t rejection

/-- Go on performing a transition from where a future stands. -/
def advance (id : TransitionId) (t : Transition) : Stage φ → Program κ φ (Advance φ)
  | .waiting phase roster => continuePerform id t phase roster
  | _ => startPerform id t

/-- Go on with a single phase from where a future stands. -/
def advancePhase (id : TransitionId) (t : Transition) (phase : Phase) :
    Stage φ → Program κ φ (Advance φ)
  | .waiting phase roster => continuePhase id phase roster
  | _ => startPhase id t phase

/-- Go on with a future from where it stands. -/
def pollFrom (future : FutureId) (id : TransitionId) (t : Transition) (purpose : Purpose)
    (stage : Stage φ) : Program κ φ Polled :=
  match purpose with
  | .phase phase => do
    match ← advancePhase id t phase stage with
    | .waiting phase roster => rest future phase roster
    | .over result => finish future .finished result
  | .perform => do
    match ← advance id t stage with
    | .waiting phase roster => rest future phase roster
    | .over result => finish future (.resolved id) result
  | .dispatch => do
    let advance ← advance id t stage
    conclude future id t advance
  | .recovery rejection => do
    let advance ← advance id t stage
    recover future id t.record rejection advance

/-- **Poll a future.** Nothing answers for one that is gone or is being polled already. -/
def poll (future : FutureId) : Program κ φ (Option Polled) := do
  let machine ← look
  match machine.future? future with
  | none => pure none
  | some ⟨id, purpose, stage⟩ =>
    if stage.isBusy then pure none
    else
      match machine.transition? id with
      | none => pure none
      | some t => do
        make (.setStage future .busy)
        let polled ← pollFrom future id t purpose stage
        pure (some polled)

end StateEngine
