import StateEngine.Phase
import StateEngine.Json.Basic

/-!
# Scripts

A script drives a machine step by step. Its guards, callbacks and listeners are scripted too: each
may run steps of its own, on the same machine, the first few times that it is used. Futures and
transitions are kept in slots by name.

* `Step`: what a script can do.
* `Cue`: the steps that a guard, a callback or a listener runs when it is used.
* `Step.weight`: how often the cues that a step sets up can run in all.
-/

namespace StateEngine

mutual

/-- One step of a script. -/
inductive Step where
  | send (event : String) (args : List Json) (slot : String)
  /-- Send an event and run its future. -/
  | fire (event : String) (args : List Json) (slot : String)
  | poll (slot : String)
  /-- Poll a future until it settles, up to `runLimit` times. -/
  | run (slot : String)
  | drop (slot : String)
  /-- Release a gate, for good, and wake the machine. -/
  | release (gate : String)
  | transitionFor (event : String) (args : List Json) (slot : String)
  | perform (slot : String)
  | callback (slot : String) (phase : Phase)
  | callbacksFor (slot : String) (phase : Phase)
  | inspect (slot : String)
  | record (slot : String)
  | toValue (slot : String)
  | outcome (slot : String) (phase : Phase) (id : String)
  | abort (slot : String)
  | abortActive (slot : String)
  | hasActive (slot : String)
  | abortAll
  | inState (name : String)
  | canEnter (name : String)
  | accessor (name : String)
  | accessors
  | setState (name : String)
  | setGuard (name : String) (guard : GuardScript)
  | setCallback (name : String) (callback : CallbackScript)
  | removeGuard (name : String)
  | subscribe (listener : ListenerScript)
  | history
  | names
  | debug
  /-- A step that cannot be made out. -/
  | unusable (verb : Json)

/-- The steps that are run when something is used, the first `times` times. -/
inductive Cue where
  | mk (times : Nat) (steps : List Step)

/-- A guard: a stored value, or whether the current state is in a list. -/
inductive GuardScript where
  | value (value : Json)
  | states (states : List String) (cue : Cue)

/-- A callback. It ends with an outcome, or with the arguments of the event as its value if it has
no outcome of its own. A callback with a wait or a gate hands back a pending computation. -/
inductive CallbackScript where
  | mk (outcome : Option (Except Json Json)) (wait : Nat) (gate : Option String) (cue : Cue)

/-- A listener. -/
inductive ListenerScript where
  | mk (name : String) (cue : Cue)

end

instance : Inhabited Step := ⟨.unusable .null⟩

instance : Inhabited Cue := ⟨.mk 0 []⟩

instance : Inhabited GuardScript := ⟨.value .null⟩

instance : Inhabited CallbackScript := ⟨.mk (some (.ok .null)) 0 none default⟩

instance : Inhabited ListenerScript := ⟨.mk "" default⟩

/-- How often a future is polled at most when it is run. -/
def runLimit : Nat := 50

def Cue.times : Cue → Nat
  | mk times _ => times

def Cue.steps : Cue → List Step
  | mk _ steps => steps

namespace CallbackScript

def outcome : CallbackScript → Option (Except Json Json)
  | mk outcome _ _ _ => outcome

def wait : CallbackScript → Nat
  | mk _ wait _ _ => wait

def gate : CallbackScript → Option String
  | mk _ _ gate _ => gate

def cue : CallbackScript → Cue
  | mk _ _ _ cue => cue

end CallbackScript

namespace ListenerScript

def name : ListenerScript → String
  | mk name _ => name

def cue : ListenerScript → Cue
  | mk _ cue => cue

end ListenerScript

mutual

/-- How often the cues that a step sets up can run in all. -/
def Step.weight : Step → Nat
  | .setGuard _ guard => guard.weight
  | .setCallback _ callback => callback.weight
  | .subscribe listener => listener.weight
  | _ => 0

/-- How often a cue, and the cues that its steps set up, can run in all. -/
def Cue.weight : Cue → Nat
  | .mk times steps => times * (1 + stepsWeight steps)

def GuardScript.weight : GuardScript → Nat
  | .value _ => 0
  | .states _ cue => cue.weight

def CallbackScript.weight : CallbackScript → Nat
  | .mk _ _ _ cue => cue.weight

def ListenerScript.weight : ListenerScript → Nat
  | .mk _ cue => cue.weight

def stepsWeight : List Step → Nat
  | [] => 0
  | step :: rest => step.weight + stepsWeight rest

end

namespace Step

/-- The word for a step. -/
def verb : Step → Json
  | send _ _ _ => .string "send"
  | fire _ _ _ => .string "fire"
  | poll _ => .string "poll"
  | run _ => .string "run"
  | drop _ => .string "drop"
  | release _ => .string "release"
  | transitionFor _ _ _ => .string "transitionFor"
  | perform _ => .string "perform"
  | callback _ _ => .string "callback"
  | callbacksFor _ _ => .string "callbacksFor"
  | inspect _ => .string "inspect"
  | record _ => .string "record"
  | toValue _ => .string "toValue"
  | outcome _ _ _ => .string "outcome"
  | abort _ => .string "abort"
  | abortActive _ => .string "abortActive"
  | hasActive _ => .string "hasActive"
  | abortAll => .string "abortAll"
  | inState _ => .string "inState"
  | canEnter _ => .string "canEnter"
  | accessor _ => .string "accessor"
  | accessors => .string "accessors"
  | setState _ => .string "setState"
  | setGuard _ _ => .string "setGuard"
  | setCallback _ _ => .string "setCallback"
  | removeGuard _ => .string "removeGuard"
  | subscribe _ => .string "subscribe"
  | history => .string "history"
  | names => .string "names"
  | debug => .string "debug"
  | unusable verb => verb

end Step

end StateEngine
