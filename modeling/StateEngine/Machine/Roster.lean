import StateEngine.Callback

/-!
# Calls and their turns

The callbacks of a phase are called, and then polled until each has an outcome. Up to `crowdLimit`
calls are all polled, one after the other, whenever the phase is. More of them are a crowd, whose
calls queue for their turns: one that is still pending after its turn goes to the end of the queue,
unless its computation sleeps. Then it stays out of the queue until the machine is woken.

* `Roster.heed`: the sleeping calls of a machine that was woken queue again.
* `Roster.next?`, `Roster.record`: a turn of the call at the head of the queue.
* `Roster.Fair`: whether the queues hold just the calls that have no outcome yet.
-/

namespace StateEngine

/-- Where a called callback stands: what it handed back is due to be polled, or sleeps, or its
outcome has been noted. -/
inductive Standing (φ : Type) where
  | due (settlement : Settlement φ)
  | asleep (computation : φ)
  | noted (outcome : Outcome)

/-- A callback of a phase that has been called. -/
structure Call (φ : Type) where
  id : String
  standing : Standing φ

/-- The outcome of a call, once it is noted. -/
def Call.outcome? {φ : Type} (call : Call φ) : Option Outcome :=
  match call.standing with
  | .due _ => none
  | .asleep _ => none
  | .noted outcome => some outcome

/-- The computation of a call that is still pending. -/
def Call.pending? {φ : Type} (call : Call φ) : Option φ :=
  match call.standing with
  | .due (.pending computation) => some computation
  | .asleep computation => some computation
  | _ => none

/-- The calls of a phase. The queues hold positions in the list of calls; only a crowd uses them. -/
structure Roster (φ : Type) where
  calls : List (Call φ)
  /-- The calls whose turn will come, the next one first. -/
  queue : List Nat
  /-- The calls that sleep, in the order in which they fell asleep. -/
  sleepers : List Nat
  /-- How often the machine had been woken when it was last heeded. -/
  heeded : Nat

/-- The most calls that are all polled whenever their phase is. -/
def crowdLimit : Nat := 30

/-- How many calls of a crowd may yield without an outcome between them before the others have to
wait for the next poll of the phase. -/
def yieldLimit : Nat := 2

namespace Roster

variable {φ : Type}

/-- Calls of which none has been polled. -/
def start (calls : List (Call φ)) : Roster φ := ⟨calls, List.range calls.length, [], 0⟩

/-- Whether the calls queue for their turns. -/
def isCrowd (roster : Roster φ) : Bool := crowdLimit < roster.calls.length

/-- How many calls have no outcome yet. -/
def unsettled (roster : Roster φ) : Nat := roster.calls.countP (·.outcome?.isNone)

/-- The outcomes of all calls in their order, once each call has one. -/
def outcomes? (roster : Roster φ) : Option (List Outcome) := roster.calls.mapM Call.outcome?

/-- If the machine was woken since it was last heeded, the sleepers queue again, in the order in
which they fell asleep. -/
def heed (roster : Roster φ) (wakeUps : Nat) : Roster φ :=
  if roster.heeded = wakeUps then roster
  else
    { roster with
      queue := roster.queue ++ roster.sleepers
      sleepers := []
      heeded := wakeUps }

/-- The call whose turn it is, with its position, and the roster without it in the queue. -/
def next? (roster : Roster φ) : Option (Nat × Call φ × Roster φ) :=
  match roster.queue with
  | [] => none
  | position :: queue =>
    roster.calls[position]?.map fun call => (position, call, { roster with queue })

/-- A call as it stands after its turn: it queues again if it is still due. -/
def record (roster : Roster φ) (position : Nat) (call : Call φ) : Roster φ :=
  let roster := { roster with calls := roster.calls.set position call }
  match call.standing with
  | .due _ => { roster with queue := roster.queue ++ [position] }
  | .asleep _ => { roster with sleepers := roster.sleepers ++ [position] }
  | .noted _ => roster

/-- Whether the queues of a crowd hold just the calls that have no outcome yet, each once. -/
structure Fair (roster : Roster φ) (wakeUps : Nat) : Prop where
  nodup : (roster.queue ++ roster.sleepers).Nodup
  mem : ∀ i, i ∈ roster.queue ++ roster.sleepers ↔
    ∃ call, roster.calls[i]? = some call ∧ call.outcome? = none
  heeded : roster.heeded ≤ wakeUps

end Roster

end StateEngine
