import StateEngine.Machine.Dispatch

/-!
# What a script sees

`Answer` is what a step of a script comes to, `LogEntry` what its guards, callbacks, listeners and
nested steps leave in the log.
-/

namespace StateEngine

/-- An event with the states that its transition leads from and to. -/
structure Summary where
  event : String
  source : String
  target : String
  deriving DecidableEq, Repr

def Record.summary (record : Record) : Summary := ⟨record.event, record.fromState, record.toState⟩

/-- What polling a future answers. -/
inductive PollAnswer where
  | pending
  | finished
  | resolved (summary : Summary)
  | rejected (rejection : Rejection)

/-- What a step comes to. -/
inductive Answer where
  | null
  | flag (value : Bool)
  | unusable
  /-- The step names a slot that holds nothing. -/
  | noSlot
  | dispatchError (error : DispatchError)
  | undefinedGuard (error : UndefinedGuard)
  | lookupError (error : LookupError)
  | missing (error : MissingCallback)
  | sent (summary : Summary)
  | transition (summary : Summary)
  | polled (answer : PollAnswer)
  | callbacks (ids : List String)
  | inspected (transition : Transition)
  | record (record : Record)
  | value (value : Json)
  | outcome (resolution rejection : Option Json)
  | accessors (values : List (Accessor × Option Bool))
  | history (history : History Unit)
  | names (states events : List String) (initialState target : String)
  | text (text : String)

/-- What is logged while a step runs. -/
inductive LogEntry where
  | readGuard (name : String)
  | readCallback (name : String)
  | guard (name state : String)
  | call (name : String) (context : Context)
  | settle (name : String)
  | change (listener : String) (change : StateChange)
  | step (verb : Json) (answer : Answer)

end StateEngine
