import StateEngine.Phase

/-!
# Transition records

A record is one compiled transition: an event, a from-state, a to-state, at most two guards, and the
names of the callbacks of each phase.
-/

namespace StateEngine

/-- The guards of a transition, by name. It may be taken if `doIf` holds or `doUnless` fails. -/
structure Guards where
  doIf : Option String
  doUnless : Option String
  deriving DecidableEq, Repr, Inhabited

namespace Guards

def none : Guards := ⟨.none, .none⟩

/-- Whether there is a guard. -/
def any (guards : Guards) : Bool := guards.doIf.isSome || guards.doUnless.isSome

end Guards

/-- The names of the callbacks of each phase. -/
abbrev CallbackNames := PhaseTable (List String)

/-- One compiled transition. -/
structure Record where
  event : String
  fromState : String
  toState : String
  guards : Guards
  callbacks : CallbackNames
  deriving DecidableEq, Repr, Inhabited

namespace Record

/-- A record without guards may always be taken. -/
def isGuarded (record : Record) : Bool := record.guards.any

/-- The event and the states, for messages. -/
def label (record : Record) : String :=
  "\"" ++ record.event ++ "\" (" ++ record.fromState ++ " -> " ++ record.toState ++ ")"

/-- The first state from which two of the records go unguarded, when `taken` already holds the
from-states of unguarded records. -/
def clash? (taken : List String) : List Record → Option String
  | [] => none
  | r :: rest =>
    if r.isGuarded then clash? taken rest
    else if taken.contains r.fromState then some r.fromState
    else clash? (r.fromState :: taken) rest

end Record

end StateEngine
