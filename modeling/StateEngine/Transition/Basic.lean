import StateEngine.Callback
import StateEngine.Transition.Rejection

/-!
# Transitions

A transition is a record bound to the arguments of its event. `Progress` is the book that is kept of
it while it is performed: its status, and what each callback came to.

* `Mark`, `Progress.mark`: the only ways in which a book changes.
* `Outcomes`: values by phase and callback identifier.
-/

namespace StateEngine

/-- Where a transition is in its life. The last three are final. -/
inductive Status where
  | pending
  | resolving
  | resolved
  | rejected
  | aborted
  deriving DecidableEq, Repr, Inhabited

namespace Status

def isFinal : Status → Bool
  | resolved | rejected | aborted => true
  | _ => false

/-- The name in lower case, as values give it. -/
def name : Status → String
  | pending => "pending"
  | resolving => "resolving"
  | resolved => "resolved"
  | rejected => "rejected"
  | aborted => "aborted"

/-- The name with a capital, as texts for inspection give it. -/
def debugName : Status → String
  | pending => "Pending"
  | resolving => "Resolving"
  | resolved => "Resolved"
  | rejected => "Rejected"
  | aborted => "Aborted"

end Status

/-- Values by phase and callback identifier. -/
abbrev Outcomes := List ((Phase × String) × Json)

namespace Outcomes

def find? (outcomes : Outcomes) (phase : Phase) (id : String) : Option Json :=
  outcomes.lookup (phase, id)

/-- Set a value, replacing one that is there. -/
def put (phase : Phase) (id : String) (value : Json) : Outcomes → Outcomes
  | [] => [((phase, id), value)]
  | (k, v) :: rest =>
    if k = (phase, id) then (k, value) :: rest else (k, v) :: put phase id value rest

/-- Set a value unless one is there. -/
def putNew (outcomes : Outcomes) (phase : Phase) (id : String) (value : Json) : Outcomes :=
  if (outcomes.find? phase id).isSome then outcomes else outcomes.put phase id value

/-- The identifiers and values of a phase, by identifier. -/
def ofPhase (outcomes : Outcomes) (phase : Phase) : List (String × Json) :=
  (outcomes.filterMap fun ((p, id), value) => if p = phase then some (id, value) else none).mergeSort
    fun a b => decide (a.1 ≤ b.1)

end Outcomes

/-- The book of a transition. -/
structure Progress where
  status : Status
  /-- Whether phases are running; `none` before the first one starts. -/
  isResolving : Option Bool
  /-- Whether the transition rejected; `none` until it settles. -/
  isRejected : Option Bool
  /-- What each callback resolved with last. -/
  resolutions : Outcomes
  /-- What each callback failed with first. -/
  rejections : Outcomes
  /-- The rejection that stopped the transition. -/
  rejection : Option Rejection
  deriving Repr

namespace Progress

def fresh : Progress := ⟨.pending, none, none, [], [], none⟩

/-- A phase starts. -/
def begin (p : Progress) : Progress :=
  { p with
    isResolving := some true
    status := if p.status = .pending then .resolving else p.status }

/-- A callback settles: a value replaces the last one, a failure leaves the first one. -/
def settle (p : Progress) (phase : Phase) (id : String) : Outcome → Progress
  | .ok value => { p with resolutions := p.resolutions.put phase id value }
  | .error reason => { p with rejections := p.rejections.putNew phase id reason }

/-- Every phase is over. An aborted transition stays aborted. -/
def resolve (p : Progress) : Progress :=
  { p with
    isResolving := some false
    isRejected := some false
    status := if p.status = .aborted then .aborted else .resolved }

/-- A phase failed. An aborted transition stays aborted. -/
def reject (p : Progress) (rejection : Rejection) : Progress :=
  { p with
    isResolving := some false
    isRejected := some true
    rejection := some rejection
    status := if p.status = .aborted then .aborted else .rejected }

/-- The transition no longer counts. Callbacks that run keep running. -/
def abort (p : Progress) : Progress := { p with status := .aborted }

end Progress

/-- What can be noted in the book of a transition. -/
inductive Mark where
  | begin
  | settle (phase : Phase) (id : String) (outcome : Outcome)
  | resolve
  | reject (rejection : Rejection)
  | abort

/-- A book with one more mark. -/
def Progress.mark (p : Progress) : Mark → Progress
  | .begin => p.begin
  | .settle phase id outcome => p.settle phase id outcome
  | .resolve => p.resolve
  | .reject rejection => p.reject rejection
  | .abort => p.abort

/-- A record bound to the arguments of its event. -/
structure Transition where
  record : Record
  args : List Json
  progress : Progress
  deriving Repr

namespace Transition

/-- A transition that has not been performed. -/
def fresh (record : Record) (args : List Json) : Transition := ⟨record, args, .fresh⟩

def isAborted (t : Transition) : Bool := t.progress.status = .aborted

/-- A transition with one more mark in its book. -/
def mark (t : Transition) (mark : Mark) : Transition := { t with progress := t.progress.mark mark }

/-- The summary that the error event carries, under the text of the transition's identity. -/
def toJson (t : Transition) (id : String) : Json :=
  .object [("id", .string id), ("event", .string t.record.event),
    ("fromState", .string t.record.fromState), ("toState", .string t.record.toState),
    ("eventArgs", .array t.args)]

/-- What a callback of a phase is told. -/
def context (t : Transition) (phase : Phase) : Context :=
  ⟨t.record.event, t.record.fromState, t.record.toState, phase, t.args⟩

def flagText : Option Bool → String
  | none => "null"
  | some true => "true"
  | some false => "false"

/-- The text of a transition, on eight lines. -/
def text (t : Transition) : String :=
  "\n".intercalate [
    "Transition \x7b",
    "  event: " ++ t.record.event ++ ",",
    "  eventArgs: " ++ (Json.array t.args).text ++ ",",
    "  fromState: \"" ++ t.record.fromState ++ "\",",
    "  toState: \"" ++ t.record.toState ++ "\",",
    "  isResolving: " ++ flagText t.progress.isResolving ++ ",",
    "  isRejected: " ++ flagText t.progress.isRejected,
    "\x7d"]

/-- The text for inspection. -/
def debugText (t : Transition) (id : String) : String :=
  "Transition \x7b id: " ++ id ++ ", event: " ++ inspected t.record.event ++ ", from_state: " ++
    inspected t.record.fromState ++ ", to_state: " ++ inspected t.record.toState ++ ", status: " ++
    t.progress.status.debugName ++ " \x7d"

end Transition

end StateEngine
