import Mathlib.Logic.Function.Iterate
import StateEngine.Machine.Interpreter
import StateEngine.Machine.World

/-!
# Drivers

A driver is a host that never enters the machine from inside a request, and whose guards and callbacks
are pure: a guard is a stored value or a predicate of the state, and a callback settles sooner or later
with an outcome that only depends on the callback and its context. When it settles is left open, and so
is how often its computation is polled until then.

* `Settles`: a settlement that comes to an outcome, however it is polled.
* `Driver`: guards, callbacks, and the ways in which callbacks may settle.
* `Driver.Runs`: a program that a driver answers, from its start to its end.
* `Driver.Completes`, `Driver.Drives`: one event driven to its completion, and a list of them.
* `Driver.Terminates`: a future cannot be driven forever.
-/

namespace StateEngine

variable {κ φ α : Type}

/-- **Whether a settlement comes to an outcome**, whatever the polls of its computation answer. -/
inductive Settles (polls : φ → Awaited φ → Prop) (outcome : Outcome) : Settlement φ → Prop where
  | value {value : Json} : outcome = .ok value → Settles polls outcome (.value value)
  | error {reason : Json} : outcome = .error reason → Settles polls outcome (.error reason)
  | pending {computation : φ} :
      (∀ next, polls computation (.yielding next) → Settles polls outcome (.pending next)) →
      (∀ next, polls computation (.sleeping next) → Settles polls outcome (.pending next)) →
      (∀ settled, polls computation (.settled settled) → settled = outcome) →
      Settles polls outcome (.pending computation)

/-- **A host whose guards and callbacks are pure.** -/
structure Driver (κ φ : Type) where
  target : Target (Guard (String → Bool)) κ
  /-- The outcome of a callback in a context. -/
  outcome : κ → Context → Outcome
  /-- What a callback may hand back. -/
  calls : κ → Context → Settlement φ → Prop
  /-- What a pending computation may answer. -/
  polls : φ → Awaited φ → Prop
  calls_any (callback : κ) (context : Context) : ∃ settlement, calls callback context settlement
  polls_any (computation : φ) : ∃ awaited, polls computation awaited
  /-- Callbacks settle. -/
  settles {callback : κ} {context : Context} {settlement : Settlement φ} :
    calls callback context settlement → Settles polls (outcome callback context) settlement

/-- Whether a future can be polled at once: its calls queue for their turns. -/
def Machine.Due (m : Machine κ φ) (f : FutureId) : Prop :=
  ∃ x phase roster, m.future? f = some x ∧ x.stage = .waiting phase roster ∧ roster.queue ≠ []

namespace Driver

variable (d : Driver κ φ)

/-- The interpreter of a machine, with the guards and callbacks of a driver. -/
def interpreter (m : Machine κ φ) : Interpreter κ := ⟨m.definition, d.target, m.idText, d.outcome⟩

/-- What a driver may answer to a request. -/
def Reply : (request : Request κ φ) → request.Reply → Prop
  | .guard name state, reply => reply = (d.target.guard? name).map (·.check state)
  | .callback name, reply => reply = d.target.callback? name
  | .call callback context, reply => d.calls callback context reply
  | .poll computation, reply => d.polls computation reply
  | .notify _ _, _ => True

/-- **A program that a driver answers**, and that nothing else comes between. -/
inductive Runs : Program κ φ α → Machine κ φ → α → Machine κ φ → Prop where
  | done (a : α) (m : Machine κ φ) : Runs (.done a) m a m
  | look {next : Machine κ φ → Program κ φ α} {m m' : Machine κ φ} {a : α} :
      Runs (next m) m a m' → Runs (.look next) m a m'
  | change {c : Change φ} {next : Program κ φ α} {m m' : Machine κ φ} {a : α} :
      Runs next (c.apply m) a m' → Runs (.change c next) m a m'
  | ask {request : Request κ φ} {resume : request.Reply → Program κ φ α} {reply : request.Reply}
      {m m' : Machine κ φ} {a : α} :
      d.Reply request reply → Runs (resume reply) m a m' → Runs (.ask request resume) m a m'

/-- **Driving a future to its completion**: it is polled until it has settled. The machine may be woken
any number of times before each poll. -/
inductive Completes (f : FutureId) : Machine κ φ → Machine κ φ → Prop where
  | ended {m m' : Machine κ φ} {polled : Polled} :
      d.Runs (poll f) m (some polled) m' → polled ≠ .pending → Completes f m m'
  | again {m m₁ m' : Machine κ φ} :
      d.Runs (poll f) m (some .pending) m₁ → Completes f m₁ m' → Completes f m m'
  | wake {m m' : Machine κ φ} : Completes f m.wake m' → Completes f m m'

/-- **Driving a list of events**: each is sent and driven to completion before the next one. -/
inductive Drives : List (String × List Json) → Machine κ φ → Machine κ φ → Prop where
  | nil (m : Machine κ φ) : Drives [] m m
  | refused {event : String} {args : List Json} {error : DispatchError}
      {events : List (String × List Json)} {m m₁ m' : Machine κ φ} :
      d.Runs (send event args) m (.error error) m₁ → Drives events m₁ m' →
      Drives ((event, args) :: events) m m'
  | sent {event : String} {args : List Json} {id : TransitionId} {f : FutureId}
      {events : List (String × List Json)} {m m₁ m₂ m' : Machine κ φ} :
      d.Runs (send event args) m (.ok (id, f)) m₁ → d.Completes f m₁ m₂ → Drives events m₂ m' →
      Drives ((event, args) :: events) m m'

/-- **A future cannot be driven forever**, if it is only polled again once it is due or the machine was
woken. -/
inductive Terminates (f : FutureId) : Machine κ φ → Prop where
  | poll {m : Machine κ φ} :
      (∀ m₁, d.Runs (poll f) m (some .pending) m₁ →
        ∀ wakes, 0 < wakes ∨ m₁.Due f → Terminates f (Machine.wake^[wakes] m₁)) →
      Terminates f m

end Driver

end StateEngine
