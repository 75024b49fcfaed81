import StateEngine.History.Timestamp
import StateEngine.Json.Basic

/-!
# Histories

A history is the list of the state changes that were committed, the oldest first. Its entries carry
a stamp of any type; with timestamps it can be written as a value and read again.

* `History.record`: a new history with one more entry; the old one is unchanged.
* `History.path`: the states that were gone through.
* `History.toJson`, `History.ofJson?`: a history as a value.
-/

namespace StateEngine

/-- A committed change of state. -/
structure Entry (τ : Type) where
  event : String
  source : String
  target : String
  stamp : τ
  deriving DecidableEq, Repr, Inhabited

/-- The changes that were committed, the oldest first. -/
structure History (τ : Type) where
  entries : List (Entry τ)
  deriving DecidableEq, Repr, Inhabited

namespace History

variable {τ : Type}

def empty : History τ := ⟨[]⟩

def length (history : History τ) : Nat := history.entries.length

/-- The history with one more entry. -/
def record (history : History τ) (entry : Entry τ) : History τ := ⟨history.entries ++ [entry]⟩

/-- **The states gone through**: the first source, then every target. -/
def path (history : History τ) : List String :=
  (history.entries.head?.map (·.source)).toList ++ history.entries.map (·.target)

/-- The time from the first entry to the last one. -/
def duration? (history : History Timestamp) : Option Duration := do
  let first ← history.entries.head?
  let last ← history.entries.getLast?
  last.stamp.since? first.stamp

end History

def Entry.toJson (entry : Entry Timestamp) : Json :=
  .object [("event", .string entry.event), ("from", .string entry.source),
    ("to", .string entry.target), ("timestamp", .string entry.stamp.text)]

/-- The string under a key. -/
def Members.string? (members : Members) (key : String) : Option String :=
  (members.lookup key).bind Json.string?

def Entry.ofJson? (value : Json) : Option (Entry Timestamp) := do
  let members ← value.members?
  let event ← members.string? "event"
  let source ← members.string? "from"
  let target ← members.string? "to"
  let stamp ← (members.string? "timestamp").bind Timestamp.ofText?
  return ⟨event, source, target, stamp⟩

namespace History

/-- **A history as a value.** -/
def toJson (history : History Timestamp) : Json :=
  .object [("transitions", .array (history.entries.map Entry.toJson))]

/-- The history that a value stands for. -/
def ofJson? (value : Json) : Option (History Timestamp) := do
  let members ← value.members?
  match members.lookup "transitions" with
  | some (.array items) => (items.mapM Entry.ofJson?).map History.mk
  | _ => none

end History

end StateEngine
