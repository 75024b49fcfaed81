import StateEngine.Definition.Reading

/-!
# Which values are definitions

Whether a value can be compiled is a matter of its members alone. The conditions stand here one beside the
other: none of them depends on passes, on an order of checks, or on names that were replaced.

* `AcceptsTransition`, `AcceptsEvent`: the conditions on a transition object and on an event.
* `Mentions`: the states that a value mentions, which are those that there are.
* `Accepts`: **the conditions on a value and on inline hooks** under which they compile.
-/

namespace StateEngine.Reading

/-! ## Values of members -/

def IsObject (value : Json) : Prop := ∃ members, value = .object members

def IsString (value : Json) : Prop := ∃ name, value = .string name

/-- Whether a value is a list of strings. -/
def IsStrings (value : Json) : Prop := ∃ names, value = .ofStrings names

/-- Whether a value is absent, a string or a list of strings. -/
def NamesCallbacks (value : Json) : Prop := value = .null ∨ IsString value ∨ IsStrings value

/-- Whether a value is a string or a list of at least one string. -/
def NamesStates (value : Json) : Prop :=
  IsString value ∨ ∃ name others, value = .ofStrings (name :: others)

/-- The first of two members that is not `null`, and `null` if both are. -/
def first (object : Json) (key other : String) : Json :=
  match member object key with
  | .null => member object other
  | value => value

/-- Whether a value is absent, or a string. -/
def AtMostString (value : Json) : Prop := value = .null ∨ IsString value

/-! ## Events and their transition objects -/

/-- What events and transition objects may say alike: which guards there are, each under the first of two
keys, and which callbacks. -/
structure AcceptsNames (object : Json) : Prop where
  doIf : AtMostString (first object "guard" "doIf")
  doUnless : AtMostString (first object "unless" "doUnless")
  callbacks : ∀ phase : Phase, NamesCallbacks (member object (phaseKey phase))

/-- The keys of a transition object that may be from-states themselves: none that is reserved, and none
whose value is `null`. -/
def freeKeys (object : Json) : List String := (keys object).filter (· ∉ transitionKeys)

/-- **Exactly one mapping**: one free key, whose value is the to-state, or `from` and `to`. -/
inductive Maps (object : Json) : Prop where
  | free {key : String} : freeKeys object = [key] → IsString (member object key) →
      member object "from" = .null → member object "to" = .null → Maps object
  | keyed : freeKeys object = [] → NamesStates (member object "from") →
      IsString (member object "to") → Maps object

/-- **What a transition object has to be.** -/
structure AcceptsTransition (object : Json) : Prop where
  isObject : IsObject object
  maps : Maps object
  notSame : "$same" ∉ entries object
  names : AcceptsNames object

/-- **What an event has to be.** It has its transition objects under one of two keys. -/
structure AcceptsEvent (event : Json) : Prop where
  isObject : IsObject event
  oneKey : member event "transition" = .null ↔ member event "transitions" ≠ .null
  nonempty : objects event ≠ []
  transitions : ∀ object ∈ objects event, AcceptsTransition object
  names : AcceptsNames event

/-! ## States -/

/-- The events of a value, with their names. -/
def events (spec : Json) : Members := members (member spec "events")

/-- The object of states, and what is in it. -/
def states (spec : Json) : Members := members (member spec "states")

def initialState (spec : Json) : String :=
  (text? (member (member spec "states") "initialState")).getD "initialized"

/-- The list of the only states that there may be. -/
def allowList (spec : Json) : Json := first (member spec "states") "knownStates" "explicitStates"

/-- **The states that a value mentions**: the initial state, and what transition objects lead from or to,
except for the two names that stand for other states. -/
def Mentions (spec : Json) (state : String) : Prop :=
  state = initialState spec ∨ state ≠ "$all" ∧ state ≠ "$same" ∧
    ∃ entry ∈ events spec, ∃ object ∈ objects entry.2, state ∈ entries object ∨ state = target object

/-- The records that an event has in a state. -/
def recordsFrom (name : String) (event : Json) (state : String) : List Record :=
  (objects event).flatMap fun object =>
    ((entries object).filter fun entry => entry = state ∨ entry = "$all").map fun _ =>
      record name event object state

/-- What the object of states may hook into a state. -/
structure AcceptsHooks (value : Json) : Prop where
  phases : ∃ members, value = .object members ∧
    ∀ hook ∈ members, ∃ phase ∈ hookPhases, hook.1 = phaseKey phase
  callbacks : ∀ phase ∈ hookPhases, NamesCallbacks (member value (phaseKey phase))

/-! ## Whole values -/

/-- **The conditions on a value and on inline hooks** under which they make a definition. -/
structure Accepts {κ : Type} (spec : Json) (inline : List (InlineHook κ)) : Prop where
  isObject : IsObject spec
  hasEvents : ∃ entry others, member spec "events" = .object (entry :: others)
  hasStates : member spec "states" = .null ∨ IsObject (member spec "states")
  initial : AtMostString (member (member spec "states") "initialState")
  allowList : allowList spec = .null ∨ IsStrings (allowList spec)
  events : ∀ entry ∈ events spec, AcceptsEvent entry.2
  /-- A list of the only states there may be has all that are mentioned, and no others. -/
  allowed : ∀ names, Reading.allowList spec = .ofStrings names →
    ∀ state, state ∈ names ↔ Mentions spec state
  /-- No event leaves a state in two ways that are not guarded. -/
  unambiguous : ∀ entry ∈ Reading.events spec, ∀ state, Mentions spec state →
    ((recordsFrom entry.1 entry.2 state).filter fun record => record.guards = ⟨none, none⟩).length ≤ 1
  hooks : ∀ entry ∈ states spec, entry.1 ∉ stateKeys → entry.2 ≠ .null →
    AcceptsHooks entry.2 ∧ Mentions spec entry.1
  inline : ∀ hook ∈ inline, hook.phase ∈ hookPhases ∧ Mentions spec hook.state

end StateEngine.Reading
