import StateEngine.Definition.Basic
import StateEngine.History.Basic
import StateEngine.Machine.Roster
import StateEngine.Transition.Basic

/-!
# Machines

A machine has a current state, the transitions that are active, the history of what was committed,
and futures. A future performs a transition when it is polled; in between it rests with the calls
whose outcomes it waits for. Transitions and futures are known by the order in which they were made.

The callbacks `κ` and the pending computations `φ` belong to whoever hosts the machine.

* `Machine.launch`, `Machine.relaunch`: the ways into the active list.
* `Machine.commit`, `Machine.release`, `Machine.fail`, `Machine.abortActive`, `Machine.abortAll`: the
  ways out of it.
* `Machine.dropFuture`: a dispatch that is given up takes its transition with it.
* `Machine.wake`: computations that sleep ask to be polled again.
* `Machine.inState`, `Machine.accessor?`: questions about the current state.
-/

namespace StateEngine

abbrev TransitionId := Nat

abbrev FutureId := Nat

/-- The event that is dispatched when a transition rejects. -/
def errorEvent : String := "error"

/-- Where a future stands: not polled yet, being polled, or waiting for the calls of a phase. -/
inductive Stage (φ : Type) where
  | unpolled
  | busy
  | waiting (phase : Phase) (roster : Roster φ)
  /-- Being polled, while the error event is dispatched for the rejection of its transition. -/
  | failed (rejection : Rejection)

/-- Whether a future is being polled. -/
def Stage.isBusy {φ : Type} : Stage φ → Bool
  | busy => true
  | failed _ => true
  | _ => false

/-- What a future is for. -/
inductive Purpose where
  /-- One phase of its transition. -/
  | phase (phase : Phase)
  /-- All phases of its transition. -/
  | perform
  /-- All phases of its transition, and then the commit. -/
  | dispatch
  /-- The error dispatch of a dispatch that rejected, whose rejection it will yield. -/
  | recovery (rejection : Rejection)

/-- Whether giving up a future of this purpose aborts its transition. -/
def Purpose.isDispatch : Purpose → Bool
  | dispatch => true
  | recovery _ => true
  | _ => false

/-- A future and the transition that it performs. -/
structure Future (φ : Type) where
  transition : TransitionId
  purpose : Purpose
  stage : Stage φ

/-- A change of the current state. There is an event unless the state was set directly. -/
structure StateChange where
  event : Option String
  source : String
  target : String
  deriving DecidableEq, Repr

/-- A running machine. -/
structure Machine (κ φ : Type) where
  definition : Definition κ
  /-- The name of the target in messages. -/
  targetName : String
  /-- The text of each identity. Whoever hosts the machine may give different texts to different ones. -/
  idText : TransitionId → String
  state : String
  /-- Every transition, in the order of their identities. -/
  transitions : List Transition
  /-- The transitions that are active, the oldest first. -/
  active : List TransitionId
  history : History Unit
  /-- How many listeners there are; they are notified in order. -/
  listeners : Nat
  /-- Every future, in the order of their identities; one that is gone leaves `none`. -/
  futures : List (Option (Future φ))
  /-- How often the machine was woken. -/
  wakeUps : Nat

namespace Machine

variable {κ φ : Type}

/-- A machine in a state, with nothing active. -/
def start (definition : Definition κ) (targetName : String) (idText : TransitionId → String) (state : String)
    (listeners : Nat) : Machine κ φ :=
  ⟨definition, targetName, idText, state, [], [], .empty, listeners, [], 0⟩

def transition? (machine : Machine κ φ) (id : TransitionId) : Option Transition :=
  machine.transitions[id]?

/-- Whether some transition is active. -/
def isTransitioning (machine : Machine κ φ) : Bool := !machine.active.isEmpty

def isActive (machine : Machine κ φ) (id : TransitionId) : Bool := machine.active.contains id

def activeTransitions (machine : Machine κ φ) : List Transition :=
  machine.active.filterMap machine.transition?

/-- Whether the transition was aborted. -/
def isAborted (machine : Machine κ φ) (id : TransitionId) : Bool :=
  (machine.transition? id).any Transition.isAborted

/-- A mark in the book of a transition. -/
def note (machine : Machine κ φ) (id : TransitionId) (mark : Mark) : Machine κ φ :=
  { machine with transitions := machine.transitions.modify id (·.mark mark) }

/-- A new transition, under the next identity. -/
def addTransition (machine : Machine κ φ) (t : Transition) : Machine κ φ :=
  { machine with transitions := machine.transitions ++ [t] }

/-- The identity of the next transition. -/
def nextTransition (machine : Machine κ φ) : TransitionId := machine.transitions.length

/-- Abort a transition, active or not. -/
def abort (machine : Machine κ φ) (id : TransitionId) : Machine κ φ := machine.note id .abort

/-- A transition becomes active, as the youngest. -/
def activate (machine : Machine κ φ) (id : TransitionId) : Machine κ φ :=
  { machine with active := machine.active ++ [id] }

/-- A transition is no longer active. -/
def deactivate (machine : Machine κ φ) (id : TransitionId) : Machine κ φ :=
  { machine with active := machine.active.filter (· != id) }

/-- Abort a transition if it is active. -/
def abortActive (machine : Machine κ φ) (id : TransitionId) : Machine κ φ :=
  if machine.isActive id then (machine.deactivate id).abort id else machine

/-- Abort every active transition. -/
def abortAll (machine : Machine κ φ) : Machine κ φ :=
  machine.active.foldl abort { machine with active := [] }

/-- One more listener. -/
def subscribe (machine : Machine κ φ) : Machine κ φ :=
  { machine with listeners := machine.listeners + 1 }

def future? (machine : Machine κ φ) (id : FutureId) : Option (Future φ) :=
  (machine.futures[id]?).join

/-- The identity of the next future. -/
def nextFuture (machine : Machine κ φ) : FutureId := machine.futures.length

/-- A new future that has not been polled, under the next identity. -/
def addFuture (machine : Machine κ φ) (id : TransitionId) (purpose : Purpose) : Machine κ φ :=
  { machine with futures := machine.futures ++ [some ⟨id, purpose, .unpolled⟩] }

/-- A future stands elsewhere. -/
def setStage (machine : Machine κ φ) (id : FutureId) (stage : Stage φ) : Machine κ φ :=
  { machine with
    futures := machine.futures.modify id fun slot => slot.map fun future => { future with stage } }

/-- A future is gone. -/
def closeFuture (machine : Machine κ φ) (id : FutureId) : Machine κ φ :=
  { machine with futures := machine.futures.set id none }

/-- **Give a future up.** The transition of a dispatch is aborted if it is active. A future that is
being polled stays. -/
def dropFuture (machine : Machine κ φ) (id : FutureId) : Machine κ φ :=
  match machine.future? id with
  | none => machine
  | some future =>
    if future.stage.isBusy then machine
    else
      let machine := machine.closeFuture id
      if future.purpose.isDispatch then machine.abortActive future.transition else machine

/-- **A new transition of a record becomes active**, and there is a new future that dispatches it. -/
def launch (machine : Machine κ φ) (record : Record) (args : List Json) : Machine κ φ :=
  ((machine.addTransition (.fresh record args)).activate machine.nextTransition).addFuture
    machine.nextTransition .dispatch

/-- **A new transition of the error event becomes active.** It is performed by the future whose
transition rejected. -/
def relaunch (machine : Machine κ φ) (future : FutureId) (rejection : Rejection) (record : Record)
    (args : List Json) : Machine κ φ :=
  let id := machine.nextTransition
  let machine := (machine.addTransition (.fresh record args)).activate id
  { machine with futures := machine.futures.set future (some ⟨id, .recovery rejection, .busy⟩) }

/-- A dispatch settles without a commit. -/
def release (machine : Machine κ φ) (future : FutureId) (id : TransitionId) : Machine κ φ :=
  (machine.closeFuture future).deactivate id

/-- **A dispatch settles with a commit**: the transition is active no longer, its to-state is the
current state, and the history has one more entry. -/
def commit (machine : Machine κ φ) (future : FutureId) (id : TransitionId) (record : Record) :
    Machine κ φ :=
  { machine.release future id with
    state := record.toState
    history := machine.history.record ⟨record.event, machine.state, record.toState, ()⟩ }

/-- **A dispatch settles with a rejection.** Its transition is active no longer, nor is any other,
and all others are aborted. If a rejection is given, the future has still to dispatch the error event
for it. -/
def fail (machine : Machine κ φ) (future : FutureId) (id : TransitionId) :
    Option Rejection → Machine κ φ
  | none => (machine.release future id).abortAll
  | some rejection => ((machine.setStage future (.failed rejection)).deactivate id).abortAll

/-- The current state is another one. -/
def setState (machine : Machine κ φ) (name : String) : Machine κ φ := { machine with state := name }

/-- Wake the machine: every computation that sleeps asks to be polled again. -/
def wake (machine : Machine κ φ) : Machine κ φ :=
  { machine with wakeUps := machine.wakeUps + 1 }

/-- Whether the current state is a path or lies in it. -/
def inState (machine : Machine κ φ) (path : String) : Except LookupError Bool :=
  machine.definition.stateMatches machine.state path

/-- The value of the first accessor of a name. -/
def accessor? (machine : Machine κ φ) (name : String) : Option Bool := do
  let accessor ← machine.definition.accessors.find? (·.name == name)
  (machine.inState accessor.path).toOption

/-- The texts for inspection of the active transitions. -/
def activeTexts (machine : Machine κ φ) : List String :=
  machine.active.filterMap fun id => (machine.transition? id).map (·.debugText (machine.idText id))

/-- The text for inspection. -/
def debugText (machine : Machine κ φ) : String :=
  "Machine \x7b current_state: " ++ inspected machine.state ++ ", active: [" ++
    ", ".intercalate machine.activeTexts ++ "], events: [" ++
    ", ".intercalate (machine.definition.eventNames.map inspected) ++ "] \x7d"

end Machine

end StateEngine
