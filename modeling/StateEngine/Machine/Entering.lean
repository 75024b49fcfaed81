import StateEngine.Machine.Selection

/-!
# Entering states

Whether a state can be entered is asked of the records that lead there. But events lead there, and the records
of an event compete, wherever they lead. With guards that are predicates of the state each of these questions
has one answer.

* `Program.alone`: what a program comes to if nobody else is there.
* `Record.passes`: whether a record passes, without regard to others.
* `Machine.Leads`: whether an event leads to a state.
-/

namespace StateEngine

variable {κ φ α : Type}

/-- **What a program comes to alone**: its requests have fixed answers, and nobody else changes the machine. -/
def Program.alone (answers : (request : Request κ φ) → request.Reply) (p : Program κ φ α)
    (machine : Machine κ φ) : α × Machine κ φ :=
  p.run (fun machine _ => machine) id (fun request machine => (answers request, machine)) machine

/-- Whether guards are defined, and are predicates of the state. -/
def GuardsAre (holds : String → String → Bool) (answers : (request : Request κ φ) → request.Reply) : Prop :=
  ∀ name state, answers (.guard name state) = some (holds name state)

/-- Whether one of the guards that a record has lets it pass in a state. -/
def Guards.pass (holds : String → String → Bool) (state : String) (guards : Guards) : Bool :=
  guards.doIf.any (holds · state) || guards.doUnless.any (!holds · state)

/-- **Whether a record passes** in a state: it has no guard, or one of its guards lets it pass. -/
def Record.passes (holds : String → String → Bool) (state : String) (record : Record) : Bool :=
  !record.isGuarded || record.guards.pass holds state

/-- **Whether an event leads to a state**: it triggers a transition now, whose record leads there. -/
def Machine.Leads (machine : Machine κ φ) (answers : (request : Request κ φ) → request.Reply)
    (event : String) (args : List Json) (target : String) : Prop :=
  ∃ id after t, (transitionFor event args).alone answers machine = (.ok id, after) ∧
    after.transition? id = some t ∧ t.record.toState = target

/-- Whether some record leads from the current state to another one and passes, whichever event it is of. -/
def Machine.Admits (machine : Machine κ φ) (holds : String → String → Bool) (target : String) : Prop :=
  ∃ event, ∃ record ∈ machine.candidates event,
    record.toState = target ∧ record.passes holds machine.state = true

/-- Whether every record that leads to a state and passes comes after one of the same event that passes as well
and leads elsewhere. -/
def Machine.Displaces (machine : Machine κ φ) (holds : String → String → Bool) (target : String) : Prop :=
  ∀ event before record after, machine.candidates event = before ++ record :: after →
    record.toState = target → record.passes holds machine.state = true →
    ∃ other ∈ before, other.passes holds machine.state = true ∧ other.toState ≠ target

end StateEngine
