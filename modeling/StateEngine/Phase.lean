/-!
# Phases

A transition is performed in six phases. The four inner ones also run the hooks of a state: of the
state that is left, or of the state that is entered.

* `Phase.all`: the phases in the order in which they are performed.
* `Phase.hooks`: the phases that a state may hook into, in the order in which hooks are read.
* `PhaseTable`: one value for each phase.
-/

namespace StateEngine

inductive Phase where
  | beforeEvent
  | willExit
  | willEnter
  | didExit
  | didEnter
  | afterEvent
  deriving DecidableEq, Repr, Inhabited

/-- The side of a transition whose state hooks a phase runs. -/
inductive Side where
  | entered
  | left
  deriving DecidableEq, Repr

namespace Phase

/-- The phases in the order in which a transition performs them. -/
def all : List Phase := [beforeEvent, willExit, willEnter, didExit, didEnter, afterEvent]

/-- The phases that a state may hook into. -/
def hooks : List Phase := [willEnter, didEnter, willExit, didExit]

def name : Phase → String
  | beforeEvent => "beforeEvent"
  | willExit => "willExit"
  | willEnter => "willEnter"
  | didExit => "didExit"
  | didEnter => "didEnter"
  | afterEvent => "afterEvent"

/-- The key that declares callbacks for a phase. The outer phases have short ones. -/
def key : Phase → String
  | beforeEvent => "before"
  | afterEvent => "after"
  | phase => phase.name

/-- The state whose hooks a phase runs, if it runs any. -/
def side? : Phase → Option Side
  | willEnter => some .entered
  | didEnter => some .entered
  | willExit => some .left
  | didExit => some .left
  | _ => none

/-- The phases that are performed after this one. -/
def later (phase : Phase) : List Phase := (all.dropWhile (· ≠ phase)).drop 1

/-- The phase of a name. -/
def ofName? (name : String) : Option Phase := all.find? (·.name = name)

/-- The phase that a state hooks into by a key. -/
def ofHookKey? (key : String) : Option Phase := hooks.find? (·.key = key)

end Phase

/-- One value for each phase. -/
structure PhaseTable (α : Type) where
  beforeEvent : α
  willExit : α
  willEnter : α
  didExit : α
  didEnter : α
  afterEvent : α
  deriving DecidableEq, Repr, Inhabited

namespace PhaseTable

variable {α β : Type}

def get (table : PhaseTable α) : Phase → α
  | .beforeEvent => table.beforeEvent
  | .willExit => table.willExit
  | .willEnter => table.willEnter
  | .didExit => table.didExit
  | .didEnter => table.didEnter
  | .afterEvent => table.afterEvent

/-- The table of a function. -/
def ofFn (f : Phase → α) : PhaseTable α :=
  ⟨f .beforeEvent, f .willExit, f .willEnter, f .didExit, f .didEnter, f .afterEvent⟩

@[simp] theorem get_ofFn (f : Phase → α) (phase : Phase) : (ofFn f).get phase = f phase := by
  cases phase <;> rfl

@[ext] theorem ext_get {t u : PhaseTable α} (h : ∀ phase, t.get phase = u.get phase) : t = u := by
  cases t; cases u
  simp only [mk.injEq]
  exact ⟨h .beforeEvent, h .willExit, h .willEnter, h .didExit, h .didEnter, h .afterEvent⟩

/-- Fill a table phase by phase, in their order, stopping at the first error. -/
def ofFnM {ε : Type} (f : Phase → Except ε α) : Except ε (PhaseTable α) := do
  let beforeEvent ← f .beforeEvent
  let willExit ← f .willExit
  let willEnter ← f .willEnter
  let didExit ← f .didExit
  let didEnter ← f .didEnter
  let afterEvent ← f .afterEvent
  return ⟨beforeEvent, willExit, willEnter, didExit, didEnter, afterEvent⟩

end PhaseTable

end StateEngine
