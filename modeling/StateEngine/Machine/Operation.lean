import StateEngine.Machine.Dispatch

/-!
# Operations

All that a host can do with a machine, and with the transitions and futures that it got from it.
Mere questions about the machine are left out, for they change nothing and ask for nothing.

* `Operation.program`: what an operation does.
-/

namespace StateEngine

/-- What a host can do with a machine. -/
inductive Operation where
  | send (event : String) (args : List Json)
  | transitionFor (event : String) (args : List Json)
  /-- A future that performs a transition, or one phase of it, but commits nothing. -/
  | perform (id : TransitionId) (phase : Option Phase)
  | callbacksFor (id : TransitionId) (phase : Phase)
  | poll (future : FutureId)
  | drop (future : FutureId)
  | abort (id : TransitionId)
  | abortActive (id : TransitionId)
  | abortAll
  | canEnter (target : String)
  | setState (name : String)
  | subscribe
  | wake

/-- What an operation comes to. -/
def Operation.Result : Operation → Type
  | send _ _ => Except DispatchError (TransitionId × FutureId)
  | transitionFor _ _ => Except DispatchError TransitionId
  | perform _ _ => FutureId
  | callbacksFor _ _ => Option (Except MissingCallback (List String))
  | poll _ => Option Polled
  | canEnter _ => Except UndefinedGuard Bool
  | setState _ => Except LookupError Unit
  | _ => Unit

variable {κ φ : Type}

/-- A new future that performs a transition, or one phase of it. -/
def makeFuture (id : TransitionId) (phase : Option Phase) : Program κ φ FutureId := do
  let machine ← look
  make (.addFuture id (phase.elim .perform .phase))
  pure machine.nextFuture

/-- The identifiers of the callbacks of a phase of a transition. -/
def callbackIds (id : TransitionId) (phase : Phase) :
    Program κ φ (Option (Except MissingCallback (List String))) := do
  let machine ← look
  match machine.transition? id with
  | none => pure none
  | some t => do
    let found ← callbacksFor t phase
    pure (some (found.map fun callbacks => callbacks.map (·.1)))

/-- **What an operation does.** -/
def Operation.program : (op : Operation) → Program κ φ op.Result
  | .send event args => StateEngine.send event args
  | .transitionFor event args => StateEngine.transitionFor event args
  | .perform id phase => makeFuture id phase
  | .callbacksFor id phase => callbackIds id phase
  | .poll future => StateEngine.poll future
  | .drop future => make (.dropFuture future)
  | .abort id => make (.note id .abort)
  | .abortActive id => make (.abortActive id)
  | .abortAll => make .abortAll
  | .canEnter target => StateEngine.canEnter target
  | .setState name => StateEngine.setState name
  | .subscribe => make .subscribe
  | .wake => make .wake

end StateEngine
