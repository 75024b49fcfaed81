import StateEngine.Machine.Build
import StateEngine.Machine.Operation
import StateEngine.Script.Answer
import StateEngine.Script.Basic
import StateEngine.Target

/-!
# Running scripts

A `Host` holds a machine, its target, its listeners and the slots of a script. `Host.answer` is how
it answers the machine's requests, which may run nested steps; `Host.step` runs one step. Nested
steps are run at a bounded depth: each use of a cue counts against its times, so that
`Step.weight` bounds how often nested steps can start at all, and with it how deep.

* `Script.run`: what each step answers, with the machine and the log as the step leaves them.
-/

namespace StateEngine

/-- A cue in use: how often it was used is counted under a number. -/
structure LiveCue where
  counter : Nat
  cue : Cue

/-- A predicate in use: the states that it holds in. -/
structure LivePredicate where
  states : List String
  cue : LiveCue

abbrev LiveGuard := Guard LivePredicate

/-- A callback in use, under the name that it is logged by. -/
structure LiveCallback where
  name : String
  script : CallbackScript
  cue : LiveCue

structure LiveListener where
  name : String
  cue : LiveCue

/-- A computation that is pending for some more polls and until a gate is released. It yields as
long as it waits for polls, and sleeps as long as it waits for the gate. -/
structure Computation where
  name : String
  wait : Nat
  gate : Option String
  outcome : Outcome

abbrev ScriptedMachine := Machine LiveCallback Computation

/-- The host of a machine. -/
structure Host where
  machine : ScriptedMachine
  target : Target LiveGuard LiveCallback
  /-- Whether each read of the target is logged. -/
  traced : Bool
  listeners : List LiveListener
  released : List String
  /-- How often each cue was used. -/
  uses : List Nat
  futures : List (String × FutureId)
  transitions : List (String × TransitionId)
  /-- The log, last entry first. -/
  log : List LogEntry

/-- How nested steps are run. -/
abbrev Nested := List Step → Host → Host

namespace Host

def write (host : Host) (entry : LogEntry) : Host := { host with log := entry :: host.log }

/-- Log a read of the target. -/
def trace (host : Host) (entry : LogEntry) : Host := if host.traced then host.write entry else host

/-- Put a cue in use. -/
def enlist (host : Host) (cue : Cue) : LiveCue × Host :=
  (⟨host.uses.length, cue⟩, { host with uses := host.uses ++ [0] })

def enlistGuard (host : Host) : GuardScript → LiveGuard × Host
  | .value value => (.value value, host)
  | .states states cue =>
    let (cue, host) := host.enlist cue
    (.predicate ⟨states, cue⟩, host)

def enlistCallback (host : Host) (name : String) (script : CallbackScript) : LiveCallback × Host :=
  let (cue, host) := host.enlist script.cue
  (⟨name, script, cue⟩, host)

def enlistListener (host : Host) (script : ListenerScript) : LiveListener × Host :=
  let (cue, host) := host.enlist script.cue
  (⟨script.name, cue⟩, host)

/-- Use a cue: its steps are run while it has times left. -/
def useCue (nested : Nested) (live : LiveCue) (host : Host) : Host :=
  if (host.uses[live.counter]?).getD 0 < live.cue.times then
    nested live.cue.steps { host with uses := host.uses.modify live.counter (· + 1) }
  else host

/-- Whether a guard of the target holds in a state. -/
def checkGuard (nested : Nested) (name state : String) (host : Host) : Option Bool × Host :=
  let host := host.trace (.readGuard name)
  match host.target.guard? name with
  | none => (none, host)
  | some (.value value) => (some value.truthy, host)
  | some (.predicate predicate) =>
    (some (predicate.states.contains state),
      useCue nested predicate.cue (host.write (.guard name state)))

/-- Call a callback. -/
def call (nested : Nested) (callback : LiveCallback) (context : Context) (host : Host) :
    Settlement Computation × Host :=
  let host := useCue nested callback.cue (host.write (.call callback.name context))
  let outcome := callback.script.outcome.getD (.ok (.array context.args))
  if callback.script.wait = 0 ∧ callback.script.gate.isNone then (.ofOutcome outcome, host)
  else (.pending ⟨callback.name, callback.script.wait, callback.script.gate, outcome⟩, host)

/-- Poll a pending computation. -/
def pollComputation (computation : Computation) (host : Host) : Awaited Computation × Host :=
  match computation.wait with
  | wait + 1 => (.yielding { computation with wait }, host)
  | 0 =>
    if computation.gate.all host.released.contains then
      (.settled computation.outcome, host.write (.settle computation.name))
    else (.sleeping computation, host)

/-- **The answer to a request** of the machine. -/
def answer (nested : Nested) :
    (request : Request LiveCallback Computation) → Host → request.Reply × Host
  | .guard name state, host => checkGuard nested name state host
  | .callback name, host =>
    let host := host.trace (.readCallback name)
    (host.target.callback? name, host)
  | .call callback context, host => call nested callback context host
  | .poll computation, host => pollComputation computation host
  | .notify listener change, host =>
    match host.listeners[listener]? with
    | none => ((), host)
    | some live => ((), useCue nested live.cue (host.write (.change live.name change)))

/-- Run an operation of the machine. -/
def perform (nested : Nested) (op : Operation) (host : Host) : op.Result × Host :=
  op.program.run (fun machine host => { host with machine }) machine (answer nested) host

/-- Set a slot. -/
def putSlot (slots : List (String × Nat)) (slot : String) (id : Nat) : List (String × Nat) :=
  (slot, id) :: slots.filter (·.1 != slot)

/-- Empty a slot. -/
def clearSlot (slots : List (String × Nat)) (slot : String) : List (String × Nat) :=
  slots.filter (·.1 != slot)

/-- Put a future into a slot; one that was there is dropped after that. -/
def putFuture (nested : Nested) (host : Host) (slot : String) (id : FutureId) : Host :=
  let old := host.futures.lookup slot
  let host := { host with futures := putSlot host.futures slot id }
  match old with
  | none => host
  | some old => (host.perform nested (.drop old)).2

def putTransition (host : Host) (slot : String) (id : TransitionId) : Host :=
  { host with transitions := putSlot host.transitions slot id }

def summary (host : Host) (id : TransitionId) : Summary :=
  ((host.machine.transition? id).map fun t => t.record.summary).getD ⟨"", "", ""⟩

/-- Answer with the transition in a slot. -/
def withTransition (host : Host) (slot : String)
    (f : TransitionId → Transition → Host → Answer × Host) : Answer × Host :=
  match host.transitions.lookup slot with
  | none => (.noSlot, host)
  | some id =>
    match host.machine.transition? id with
    | none => (.noSlot, host)
    | some t => f id t host

/-- Poll a future until it is no longer pending, some times at most. -/
def pollUpTo (nested : Nested) (id : FutureId) : Nat → Host → Option Polled × Host
  | 0, host => (some .pending, host)
  | limit + 1, host =>
    match host.perform nested (.poll id) with
    | (some .pending, host) => pollUpTo nested id limit host
    | result => result

/-- Poll the future in a slot, some times at most. It is out of its slot meanwhile, and back if it
is still pending. -/
def pollSlot (nested : Nested) (limit : Nat) (slot : String) (host : Host) : Answer × Host :=
  match host.futures.lookup slot with
  | none => (.noSlot, host)
  | some id =>
    match pollUpTo nested id limit { host with futures := clearSlot host.futures slot } with
    | (none, host) => (.noSlot, host)
    | (some .pending, host) => (.polled .pending, host.putFuture nested slot id)
    | (some .finished, host) => (.polled .finished, host)
    | (some (.resolved t), host) => (.polled (.resolved (host.summary t)), host)
    | (some (.rejected rejection), host) => (.polled (.rejected rejection), host)

/-- Send an event into a slot. -/
def sendSlot (nested : Nested) (event : String) (args : List Json) (slot : String) (host : Host) :
    Except DispatchError Summary × Host :=
  match host.perform nested (.send event args) with
  | (.error error, host) => (.error error, host)
  | (.ok (transition, future), host) =>
    let summary := host.summary transition
    (.ok summary, (host.putTransition slot transition).putFuture nested slot future)

/-- Make a future of the transition in a slot. -/
def makeFuture (nested : Nested) (phase : Option Phase) (slot : String) (host : Host) :
    Answer × Host :=
  host.withTransition slot fun id _ host =>
    let (future, host) := host.perform nested (.perform id phase)
    (.null, host.putFuture nested slot future)

/-- **One step of a script.** -/
def step (nested : Nested) (host : Host) : Step → Answer × Host
  | .send event args slot =>
    match sendSlot nested event args slot host with
    | (.error error, host) => (.dispatchError error, host)
    | (.ok summary, host) => (.sent summary, host)
  | .fire event args slot =>
    match sendSlot nested event args slot host with
    | (.error error, host) => (.dispatchError error, host)
    | (.ok _, host) => pollSlot nested runLimit slot host
  | .poll slot => pollSlot nested 1 slot host
  | .run slot => pollSlot nested runLimit slot host
  | .drop slot =>
    match host.futures.lookup slot with
    | none => (.flag false, host)
    | some id =>
      let host := { host with futures := clearSlot host.futures slot }
      (.flag true, (host.perform nested (.drop id)).2)
  | .release gate =>
    (.null, ({ host with released := gate :: host.released }.perform nested .wake).2)
  | .transitionFor event args slot =>
    match host.perform nested (.transitionFor event args) with
    | (.error error, host) => (.dispatchError error, host)
    | (.ok id, host) => (.transition (host.summary id), host.putTransition slot id)
  | .perform slot => makeFuture nested none slot host
  | .callback slot phase => makeFuture nested (some phase) slot host
  | .callbacksFor slot phase =>
    host.withTransition slot fun id _ host =>
      match host.perform nested (.callbacksFor id phase) with
      | (none, host) => (.noSlot, host)
      | (some (.error error), host) => (.missing error, host)
      | (some (.ok ids), host) => (.callbacks ids, host)
  | .inspect slot => host.withTransition slot fun _ t host => (.inspected t, host)
  | .record slot => host.withTransition slot fun _ t host => (.record t.record, host)
  | .toValue slot => host.withTransition slot fun id t host => (.value (t.toJson (host.machine.idText id)), host)
  | .outcome slot phase id =>
    host.withTransition slot fun _ t host =>
      (.outcome (t.progress.resolutions.find? phase id) (t.progress.rejections.find? phase id), host)
  | .abort slot =>
    host.withTransition slot fun id _ host => (.null, (host.perform nested (.abort id)).2)
  | .abortActive slot =>
    host.withTransition slot fun id _ host => (.null, (host.perform nested (.abortActive id)).2)
  | .hasActive slot =>
    host.withTransition slot fun id _ host => (.flag (host.machine.isActive id), host)
  | .abortAll => (.null, (host.perform nested .abortAll).2)
  | .inState name =>
    match host.machine.inState name with
    | .error error => (.lookupError error, host)
    | .ok value => (.flag value, host)
  | .canEnter name =>
    match host.perform nested (.canEnter name) with
    | (.error error, host) => (.undefinedGuard error, host)
    | (.ok value, host) => (.flag value, host)
  | .accessor name =>
    match host.machine.accessor? name with
    | none => (.null, host)
    | some value => (.flag value, host)
  | .accessors =>
    (.accessors (host.machine.definition.accessors.map fun a => (a, host.machine.accessor? a.name)),
      host)
  | .setState name =>
    match host.perform nested (.setState name) with
    | (.error error, host) => (.lookupError error, host)
    | (.ok (), host) => (.null, host)
  | .setGuard name script =>
    let (guard, host) := host.enlistGuard script
    (.null, { host with target := host.target.setGuard name guard })
  | .setCallback name script =>
    let (callback, host) := host.enlistCallback name script
    (.null, { host with target := host.target.setCallback name callback })
  | .removeGuard name =>
    (.flag (host.target.guard? name).isSome, { host with target := host.target.removeGuard name })
  | .subscribe script =>
    let (listener, host) := host.enlistListener script
    (.null, ({ host with listeners := host.listeners ++ [listener] }.perform nested .subscribe).2)
  | .history => (.history host.machine.history, host)
  | .names =>
    let definition := host.machine.definition
    (.names definition.stateNames definition.eventNames definition.initialState
      host.target.describe, host)
  | .debug => (.text host.machine.debugText, host)
  | .unusable _ => (.unusable, host)

/-- Run nested steps and log what they answer, down to a depth. -/
def runNested : Nat → Nested
  | 0, _, host => host
  | depth + 1, steps, host =>
    steps.foldl
      (fun host s =>
        let (answer, host) := host.step (runNested depth) s
        host.write (.step s.verb answer))
      host

end Host

/-- What a target is made of. -/
structure TargetScript where
  name : String
  guards : List (String × GuardScript)
  callbacks : List (String × CallbackScript)
  /-- Whether each read is logged. -/
  traced : Bool

/-- A machine, its surroundings, and the steps to run on it. -/
structure Script where
  spec : Json
  initialState : Option String
  hooks : List (InlineHook CallbackScript)
  listeners : List ListenerScript
  target : TargetScript
  steps : List Step

/-- A step's answer, with the machine and the log as the step leaves them. -/
structure StepReport where
  answer : Answer
  state : String
  transitioning : Bool
  active : List Summary
  log : List LogEntry

/-- What a script comes to. -/
structure Report where
  initialState : String
  steps : List StepReport

namespace Script

/-- How often the cues of all scripts of a list can run. -/
def totalWeight {α : Type} (weight : α → Nat) (scripts : List α) : Nat :=
  scripts.foldr (fun item sum => weight item + sum) 0

/-- A bound on how deep nested steps can run. -/
def depth (script : Script) : Nat :=
  totalWeight (fun hook => hook.callback.weight) script.hooks +
    totalWeight ListenerScript.weight script.listeners +
    totalWeight (fun (_, guard) => guard.weight) script.target.guards +
    totalWeight (fun (_, callback) => callback.weight) script.target.callbacks +
    stepsWeight script.steps

/-- The inline hooks in use: the one at position `i` is named `hook<i>` and has the counter `i`. -/
def liveHooks (script : Script) : List (InlineHook LiveCallback) :=
  script.hooks.mapIdx fun i hook =>
    ⟨hook.state, hook.phase, "hook" ++ toString i, hook.callback, i, hook.callback.cue⟩

/-- Put the target and the listeners of a script in use. -/
def furnish (script : Script) (host : Host) : Host :=
  let host := script.listeners.foldl
    (fun host listener =>
      let (live, host) := host.enlistListener listener
      { host with listeners := host.listeners ++ [live] })
    host
  let host := script.target.guards.foldl
    (fun host (name, guard) =>
      let (live, host) := host.enlistGuard guard
      { host with target := host.target.setGuard name live })
    host
  script.target.callbacks.foldl
    (fun host (name, callback) =>
      let (live, host) := host.enlistCallback name callback
      { host with target := host.target.setCallback name live })
    host

/-- The text that reports give for every identity, since it differs from run to run. -/
def idText (_ : TransitionId) : String := "<id>"

/-- The host of a script, before its first step. -/
def host (script : Script) : Except BuildError Host := do
  let target : Target LiveGuard LiveCallback := .empty script.target.name
  let machine ← Machine.build script.spec script.liveHooks target.describe idText script.initialState
    script.listeners.length
  return script.furnish
    ⟨machine, target, script.target.traced, [], [], script.hooks.map fun _ => 0, [], [], []⟩

/-- Run the steps of a script one after the other. -/
def runSteps (depth : Nat) : List Step → Host → List StepReport
  | [], _ => []
  | s :: rest, host =>
    let (answer, host) := host.step (Host.runNested depth) s
    let machine := host.machine
    ⟨answer, machine.state, machine.isTransitioning,
      machine.activeTransitions.map (·.record.summary), host.log.reverse⟩ ::
      runSteps depth rest { host with log := [] }

/-- **Run a script.** -/
def run (script : Script) : Except BuildError Report := do
  let host ← script.host
  return ⟨host.machine.definition.initialState, runSteps script.depth script.steps host⟩

end Script

end StateEngine
