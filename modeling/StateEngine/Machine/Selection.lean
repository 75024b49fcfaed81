import StateEngine.Machine.Performance

/-!
# Selections

Which of several records an event selects, said without regard to how they are searched. It is the first that
is unguarded or that one of its guards lets pass, and to find it guards are read one by one, in the order of
the records and `doIf` before `doUnless`, up to the one that decides.

* `Guards.tests`: the guards of a record, each with the answer that lets the record pass.
* `Tries`: how the guards of one record are read.
* `Selects`: how a record is selected, which guards are read for it and what each of them answers.
-/

namespace StateEngine

variable {κ φ : Type}

/-- A guard, and the answer that lets a record pass. -/
structure Test where
  guard : String
  passing : Bool
  deriving DecidableEq, Repr

/-- The guards of a record in the order in which they are read. -/
def Guards.tests (guards : Guards) : List Test :=
  (guards.doIf.map fun name => ⟨name, true⟩).toList ++
    (guards.doUnless.map fun name => ⟨name, false⟩).toList

/-- A guard that was read, and what the target answered: nothing if it lacks the guard. -/
structure Read where
  guard : String
  answer : Option Bool
  deriving DecidableEq, Repr

/-- What is done to read a guard in a state. -/
def Read.act (state : String) (read : Read) : Act κ φ := .asked (.guard read.guard state) read.answer

namespace Test

/-- The guard lets the record pass. -/
def passed (test : Test) : Read := ⟨test.guard, some test.passing⟩

/-- The guard is defined, but it does not let the record pass. -/
def failed (test : Test) : Read := ⟨test.guard, some !test.passing⟩

def undefined (test : Test) : Read := ⟨test.guard, none⟩

end Test

/-- **How the guards of a record are read**: up to the first that lets it pass, or that is not defined, and
all of them if there is no such guard. -/
inductive Tries (tests : List Test) : List Read → Except String Bool → Prop where
  | passed {before : List Test} {test : Test} {after : List Test} :
      tests = before ++ test :: after →
      Tries tests (before.map Test.failed ++ [test.passed]) (.ok true)
  | undefined {before : List Test} {test : Test} {after : List Test} :
      tests = before ++ test :: after →
      Tries tests (before.map Test.failed ++ [test.undefined]) (.error test.guard)
  | failed : Tries tests (tests.map Test.failed) (.ok false)

/-- All guards of a record are read, and none of them lets it pass. -/
def Record.failed (record : Record) : List Read := record.guards.tests.map Test.failed

/-- What a selection comes to. -/
inductive Verdict where
  | selected (record : Record)
  | undefined (guard : String)
  | none
  deriving DecidableEq, Repr

/-- **How a record is selected.** All records before it are guarded and do not pass, and of the guards after
the one that decides none is read. -/
inductive Selects (candidates : List Record) : List Read → Verdict → Prop where
  | unguarded {before : List Record} {record : Record} {after : List Record} :
      candidates = before ++ record :: after → (∀ r ∈ before, r.isGuarded = true) →
      record.isGuarded = false →
      Selects candidates (before.flatMap Record.failed) (.selected record)
  | passed {before : List Record} {record : Record} {after : List Record} {reads : List Read} :
      candidates = before ++ record :: after → (∀ r ∈ before, r.isGuarded = true) →
      Tries record.guards.tests reads (.ok true) →
      Selects candidates (before.flatMap Record.failed ++ reads) (.selected record)
  | undefined {before : List Record} {record : Record} {after : List Record} {reads : List Read}
      {guard : String} :
      candidates = before ++ record :: after → (∀ r ∈ before, r.isGuarded = true) →
      Tries record.guards.tests reads (.error guard) →
      Selects candidates (before.flatMap Record.failed ++ reads) (.undefined guard)
  | none : (∀ r ∈ candidates, r.isGuarded = true) →
      Selects candidates (candidates.flatMap Record.failed) .none

/-- The records that an event may select in the current state, in order. -/
def Machine.candidates (machine : Machine κ φ) (event : String) : List Record :=
  machine.definition.recordsFor event (some machine.state)

/-- Why an event selects none of its candidates, although all guards that are read are defined. -/
def Machine.unresolved (machine : Machine κ φ) (event : String) : DispatchError :=
  if machine.candidates event = [] then .noTransitionDefined event machine.state
  else .noTransitionResolved event machine.state

namespace Verdict

/-- The transition that is made of the record that is selected. -/
def changes (args : List Json) : Verdict → List (Act κ φ)
  | selected record => [.made (.add record args)]
  | _ => []

/-- What is told of it. -/
def resolved (machine : Machine κ φ) (event : String) : Verdict → Except DispatchError Record
  | selected record => .ok record
  | undefined guard => .error (.undefinedGuard ⟨guard, machine.targetName⟩)
  | none => .error (machine.unresolved event)

end Verdict

/-- Whether guards answer as a target says. Its answer may depend on what was read before. -/
def Answered (target : List Read → String → Option Bool) (past : List Read) : List Read → Prop
  | [] => True
  | read :: reads => read.answer = target past read.guard ∧ Answered target (past ++ [read]) reads

end StateEngine
