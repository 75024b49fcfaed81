import StateEngine.Machine.Basic

/-!
# Changes of a machine

Whatever happens to a machine is a sequence of changes, each made at once.

* `Change`: all that can be done to a machine.
* `Change.apply`: the machine after a change.
-/

namespace StateEngine

/-- All that can be done to a machine. -/
inductive Change (φ : Type) where
  /-- A mark in the book of a transition. -/
  | note (id : TransitionId) (mark : Mark)
  /-- A new transition that is not active. -/
  | add (record : Record) (args : List Json)
  /-- A new transition that is active, and a future that dispatches it. -/
  | launch (record : Record) (args : List Json)
  /-- A new transition of the error event, for the future whose transition rejected. -/
  | relaunch (future : FutureId) (rejection : Rejection) (record : Record) (args : List Json)
  | addFuture (id : TransitionId) (purpose : Purpose)
  | setStage (future : FutureId) (stage : Stage φ)
  | closeFuture (future : FutureId)
  | dropFuture (future : FutureId)
  /-- A dispatch settles without a commit. -/
  | release (future : FutureId) (id : TransitionId)
  /-- A dispatch settles with a commit. -/
  | commit (future : FutureId) (id : TransitionId) (record : Record)
  /-- A dispatch settles with a rejection, for which the error event is still to be dispatched if it
  is given. -/
  | fail (future : FutureId) (id : TransitionId) (rejection : Option Rejection)
  | abortActive (id : TransitionId)
  | abortAll
  | setState (name : String)
  | subscribe
  | wake

variable {κ φ : Type}

/-- **The machine after a change.** -/
def Change.apply (machine : Machine κ φ) : Change φ → Machine κ φ
  | note id mark => machine.note id mark
  | add record args => machine.addTransition (.fresh record args)
  | launch record args => machine.launch record args
  | relaunch future rejection record args => machine.relaunch future rejection record args
  | addFuture id purpose => machine.addFuture id purpose
  | setStage future stage => machine.setStage future stage
  | closeFuture future => machine.closeFuture future
  | dropFuture future => machine.dropFuture future
  | release future id => machine.release future id
  | commit future id record => machine.commit future id record
  | fail future id rejection => machine.fail future id rejection
  | abortActive id => machine.abortActive id
  | abortAll => machine.abortAll
  | setState name => machine.setState name
  | subscribe => machine.subscribe
  | wake => machine.wake

end StateEngine
