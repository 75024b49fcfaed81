import StateEngine.Definition.Basic
import StateEngine.Json.Basic

/-!
# What a definition's value says

The value of a definition can be read one state at a time: go through the transition objects of an
event as they are written, and through the from-entries of each, and every entry that means the state
gives one record. Nothing is collected, expanded or checked on the way, and no function that compiles is used.

* `Reading.phaseKey`, `Reading.transitionKeys`, `Reading.stateKeys`: the keys that have a meaning of their own.
* `Reading.record`: the record that an entry of a transition object gives in a state.
* `Reading.recordsIn`: what a value says of an event in one state.
* `Reading.recordsOf`: what it says of an event in all of the known states.
* `Reading.stateHooks`, `Reading.inlineHooks`: what hangs on a state in a phase.
-/

namespace StateEngine.Reading

/-! ## Values -/

/-- The members of an object, in order. Nothing else has any. -/
def members : Json → Members
  | .object members => members
  | _ => []

/-- The member of an object under a key, and `null` if there is none. -/
def member (object : Json) (key : String) : Json := ((members object).lookup key).getD .null

/-- The keys of the members that are not `null`, in order. -/
def keys (object : Json) : List String :=
  (members object).filterMap fun
    | (_, .null) => none
    | (key, _) => some key

/-- The items of a list, or the one value that stands for a list. Where there is nothing there is no item. -/
def items : Json → List Json
  | .null => []
  | .array items => items
  | value => [value]

/-- The string that a value is. -/
def text? : Json → Option String
  | .string text => some text
  | _ => none

/-- The strings in a list, or the one string that stands for a list. -/
def strings (value : Json) : List String := (items value).filterMap text?

/-! ## Keys -/

/-- **The key under which callbacks are declared for a phase.** -/
def phaseKey : Phase → String
  | .beforeEvent => "before"
  | .willExit => "willExit"
  | .willEnter => "willEnter"
  | .didExit => "didExit"
  | .didEnter => "didEnter"
  | .afterEvent => "after"

/-- The phases that states hook into. -/
def hookPhases : List Phase := [.willEnter, .didEnter, .willExit, .didExit]

/-- The keys of a transition object that are never from-states themselves. -/
def transitionKeys : List String :=
  ["from", "to", "guard", "doIf", "unless", "doUnless", "before", "after", "willEnter", "didEnter",
    "willExit", "didExit"]

/-- The keys of the object of states that are never states themselves. -/
def stateKeys : List String := ["initialState", "knownStates", "explicitStates"]

/-! ## Events -/

/-- The event of a name, as it is written. -/
def event (spec : Json) (name : String) : Json := member (member spec "events") name

/-- The transition objects of an event, in the order in which they are written. A lone object counts
as a list of one. -/
def objects (event : Json) : List Json :=
  items (member event "transition") ++ items (member event "transitions")

/-- The key of a transition object that is a from-state itself. -/
def implicit? (object : Json) : Option String := (keys object).find? (· ∉ transitionKeys)

/-- The from-entries of a transition object, in order. -/
def entries (object : Json) : List String :=
  match implicit? object with
  | some key => [key]
  | none => strings (member object "from")

/-- The to-state of a transition object, as it is written. -/
def target (object : Json) : String :=
  (text? (member object ((implicit? object).getD "to"))).getD ""

/-- The guards that an object declares, each under the first of two keys. -/
def guards (object : Json) : Guards where
  doIf := text? (member object "guard") <|> text? (member object "doIf")
  doUnless := text? (member object "unless") <|> text? (member object "doUnless")

/-- The callbacks that an object declares for a phase. -/
def callbacks (object : Json) (phase : Phase) : List String := strings (member object (phaseKey phase))

/-- **The record that an entry of a transition object gives in a state.** Guards of its own replace
those of the event, and its callbacks come after those of the event. -/
def record (name : String) (event object : Json) (state : String) : Record where
  event := name
  fromState := state
  toState := if target object = "$same" then state else target object
  guards := if guards object = ⟨none, none⟩ then guards event else guards object
  callbacks :=
    { beforeEvent := callbacks event .beforeEvent ++ callbacks object .beforeEvent
      willExit := callbacks event .willExit ++ callbacks object .willExit
      willEnter := callbacks event .willEnter ++ callbacks object .willEnter
      didExit := callbacks event .didExit ++ callbacks object .didExit
      didEnter := callbacks event .didEnter ++ callbacks object .didEnter
      afterEvent := callbacks event .afterEvent ++ callbacks object .afterEvent }

/-- **What a value says of an event in a state**: one record for each entry that is the state, or that
stands for every state. -/
def recordsIn (spec : Json) (name state : String) : List Record :=
  (objects (event spec name)).flatMap fun object =>
    ((entries object).filter fun entry => entry = state ∨ entry = "$all").map fun _ =>
      record name (event spec name) object state

/-- **What a value says of an event in the known states**: an entry that stands for every state gives
a record for each of them, in their order. -/
def recordsOf (spec : Json) (name : String) (known : List String) : List Record :=
  (objects (event spec name)).flatMap fun object =>
    (entries object).flatMap fun entry =>
      (if entry = "$all" then known else [entry]).map (record name (event spec name) object)

/-! ## Hooks -/

/-- The names that the object of states hooks into a phase of a state, as they are written. -/
def stateHooks (spec : Json) (state : String) (phase : Phase) : List String :=
  ((members (member spec "states")).filter fun (key, _) => key = state ∧ key ∉ stateKeys).flatMap
    fun (_, value) => strings (member value (phaseKey phase))

/-- The inline hooks of a state for a phase, in the order in which they were attached. -/
def inlineHooks {κ : Type} (inline : List (InlineHook κ)) (state : String) (phase : Phase) : List κ :=
  (inline.filter fun hook => hook.state = state ∧ hook.phase = phase).map (·.callback)

end StateEngine.Reading
