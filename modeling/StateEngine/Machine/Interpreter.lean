import StateEngine.Definition.Basic
import StateEngine.History.Basic
import StateEngine.Target

/-!
# The textbook interpreter

What a machine means can be said without futures, polls or an active list. If every guard is a stored
value or a predicate of the state, and every callback has one outcome in a context, then an event takes
a state and a history to others at once. Here that is said from the tables alone: nothing is used that a
machine runs.

* `Interpreter.selected?`: the first of the candidates that wins, unless a guard is undefined.
* `Interpreter.called`: the callbacks of each of the six phases.
* `Interpreter.phase`, `Interpreter.perform`: what a phase of a record comes to, and what all of them do.
* `Interpreter.conclude`: the commit, or what the error event makes of a rejection.
* `Interpreter.step`, `Interpreter.interpret`: one event, and a list of them.
-/

namespace StateEngine

/-- What the meaning of events rests on: the table of transitions, the guards and callbacks by name, the
texts of identities, and the outcome of each callback. -/
structure Interpreter (κ : Type) where
  definition : Definition κ
  target : Target (Guard (String → Bool)) κ
  idText : Nat → String
  outcome : κ → Context → Outcome

namespace Interpreter

/-- Where events have led. -/
structure Config where
  state : String
  /-- What was committed, the oldest entry first. -/
  entries : List (Entry Unit)
  /-- How many transitions there were. Each has had an identity of its own. -/
  begun : Nat

variable {κ : Type} (I : Interpreter κ)

/-! ## Which record wins -/

/-- **Whether a stored value counts as true.** -/
def isTrue : Json → Bool
  | .null => false
  | .bool value => value
  | .number (.integer value) => value ≠ 0
  | .number (.double value) => value.magnitude.mantissa ≠ 0
  | .string value => value ≠ ""
  | .array _ => true
  | .object _ => true

/-- Whether a guard holds in a state, if it is defined. -/
def holds? (name state : String) : Option Bool :=
  match I.target.guards.lookup name with
  | none => none
  | some (.value value) => some (isTrue value)
  | some (.predicate holds) => some (holds state)

/-- **Whether a record wins in a state**, if its guards are defined: it has none, or the first one holds,
or the other one fails. The other one is not asked for if the first one holds. -/
def wins? (record : Record) (state : String) : Option Bool :=
  match record.guards with
  | ⟨none, none⟩ => some true
  | ⟨some name, none⟩ => I.holds? name state
  | ⟨none, some other⟩ => do return !(← I.holds? other state)
  | ⟨some name, some other⟩ => do
    if ← I.holds? name state then return true else return !(← I.holds? other state)

/-- **The first of the candidates that wins** in a state. There is none once a guard is undefined. -/
def winner? (state : String) : List Record → Option Record
  | [] => none
  | record :: rest => do if ← I.wins? record state then some record else winner? state rest

/-- The record that an event selects in a state. -/
def selected? (event state : String) : Option Record :=
  I.winner? state (I.definition.recordsFor event (some state))

/-! ## What a record does -/

/-- What the target is called. -/
def targetName : String := if I.target.name = "" then "target" else I.target.name

/-- The callback of a name. If the target lacks it, a message says who has named it. -/
def callback (name namedBy : String) : Except Json κ :=
  match I.target.callbacks.lookup name with
  | some callback => .ok callback
  | none => .error (.string ("callback \"" ++ name ++ "\" on target \"" ++ I.targetName ++
      "\" is not defined, it is named by the " ++ namedBy))

/-- The hooks of a state for a phase, which messages give a name. -/
def hooks (state : String) (phase : Phase) (phaseName : String) : List (Except Json κ) :=
  (I.definition.hooks.filter fun hook => hook.state = state ∧ hook.phase = phase).map fun hook =>
    match hook.hook with
    | .inline callback => .ok callback
    | .named name => I.callback name (phaseName ++ " hook of state \"" ++ state ++ "\"")

/-- The callbacks that a record names for a phase. -/
def named (record : Record) (phaseName : String) (names : List String) : List (Except Json κ) :=
  names.map fun name => I.callback name (phaseName ++ " list of transition \"" ++ record.event ++ "\" (" ++
    record.fromState ++ " -> " ++ record.toState ++ ")")

/-- **What a phase calls**, in order, or what is said of each callback that the target lacks. The inner
phases begin with the hooks of the state that is left, or of the one that is entered. -/
def called (record : Record) : Phase → List (Except Json κ)
  | .beforeEvent => I.named record "beforeEvent" record.callbacks.beforeEvent
  | .willExit =>
    I.hooks record.fromState .willExit "willExit" ++ I.named record "willExit" record.callbacks.willExit
  | .willEnter =>
    I.hooks record.toState .willEnter "willEnter" ++ I.named record "willEnter" record.callbacks.willEnter
  | .didExit =>
    I.hooks record.fromState .didExit "didExit" ++ I.named record "didExit" record.callbacks.didExit
  | .didEnter =>
    I.hooks record.toState .didEnter "didEnter" ++ I.named record "didEnter" record.callbacks.didEnter
  | .afterEvent => I.named record "afterEvent" record.callbacks.afterEvent

/-- **What calls come to**: they fail with the reason of the last one that fails. -/
def verdict : List Outcome → Except Json Unit
  | [] => .ok ()
  | outcome :: later => do
    verdict later
    let _ ← outcome

/-- **What a phase of a record comes to.** Its callbacks have to be there, and all have to succeed. -/
def phase (record : Record) (args : List Json) (phase : Phase) : Except Json Unit := do
  let callbacks ← (I.called record phase).mapM id
  verdict (callbacks.map fun callback =>
    I.outcome callback ⟨record.event, record.fromState, record.toState, phase, args⟩)

/-- **What a record comes to**: its phases, one after the other. The first that fails ends it. -/
def perform (record : Record) (args : List Json) : Except Json Unit :=
  [Phase.beforeEvent, .willExit, .willEnter, .didExit, .didEnter, .afterEvent].forM (I.phase record args)

/-! ## What an event does -/

/-- The to-state of a record is the current state, and the history tells. -/
def commit (c : Config) (event : String) (record : Record) : Config :=
  { c with state := record.toState, entries := c.entries ++ [⟨event, c.state, record.toState, ()⟩] }

/-- **What the error event is told**: the reason, and the transition that it happened to. -/
def report (id : String) (record : Record) (args : List Json) (reason : Json) : Json :=
  .object [("error", reason), ("transition", .object [("id", .string id), ("event", .string record.event),
    ("fromState", .string record.fromState), ("toState", .string record.toState), ("eventArgs", .array args)])]

/-- **What the error event makes of a rejection**: its own record has to be there and to succeed. -/
def recover (c : Config) (report : Json) : Config :=
  match I.selected? "error" c.state with
  | none => c
  | some record =>
    let c := { c with begun := c.begun + 1 }
    match I.perform record [report] with
    | .ok () => commit c "error" record
    | .error _ => c

/-- What becomes of an event whose record came to a result, under an identity. -/
def conclude (c : Config) (id : String) (event : String) (record : Record) (args : List Json) :
    Except Json Unit → Config
  | .ok () => commit c event record
  | .error reason => if event = "error" then c else I.recover c (report id record args reason)

/-- **One event**, with its arguments. -/
def step (c : Config) (event : String × List Json) : Config :=
  match I.selected? event.1 c.state with
  | none => c
  | some record =>
    I.conclude { c with begun := c.begun + 1 } (I.idText c.begun) event.1 record event.2
      (I.perform record event.2)

/-- **Any number of events**, from a state with no history. -/
def interpret (state : String) (events : List (String × List Json)) : Config :=
  events.foldl I.step ⟨state, [], 0⟩

end Interpreter

end StateEngine
