import StateEngine.Machine.Change

/-!
# Programs that ask

An operation of a machine looks at the machine, changes it, and stops whenever it needs its host: to
read a guard, to find or call a callback, to poll a pending computation, to notify a listener. Before
it answers, the host may run any other operation on the same machine. A `Program` is a finite tree of
such steps: whatever the machine is and whatever the answers are, it ends.

* `look`, `make`, `ask`: the three steps; programs are a lawful monad.
* `Program.run`: run a program with a host that holds the machine.
-/

namespace StateEngine

/-- What a machine needs its host for. -/
inductive Request (κ φ : Type) where
  /-- Whether a guard holds in a state. -/
  | guard (name state : String)
  /-- The callback of a name. -/
  | callback (name : String)
  | call (callback : κ) (context : Context)
  | poll (computation : φ)
  | notify (listener : Nat) (change : StateChange)

/-- What the host answers. Guards and callbacks may be undefined. -/
def Request.Reply {κ φ : Type} : Request κ φ → Type
  | guard _ _ => Option Bool
  | callback _ => Option κ
  | call _ _ => Settlement φ
  | poll _ => Awaited φ
  | notify _ _ => Unit

/-- An operation under way: it is done, or it goes on with the machine as it is, after a change, or
once a request is answered. -/
inductive Program (κ φ α : Type) where
  | done (result : α)
  | look (next : Machine κ φ → Program κ φ α)
  | change (change : Change φ) (next : Program κ φ α)
  | ask (request : Request κ φ) (resume : request.Reply → Program κ φ α)

variable {κ φ α β : Type}

namespace Program

/-- Go on with another program. -/
def bind : Program κ φ α → (α → Program κ φ β) → Program κ φ β
  | done a, f => f a
  | look next, f => look fun machine => (next machine).bind f
  | change c next, f => change c (next.bind f)
  | ask request resume, f => ask request fun reply => (resume reply).bind f

instance : Monad (Program κ φ) where
  pure := done
  bind := bind

theorem bind_done (p : Program κ φ α) : p.bind done = p := by
  induction p with
  | done a => rfl
  | look next ih =>
    simp only [bind]
    congr 1
    funext machine
    exact ih machine
  | change c next ih => simp only [bind, ih]
  | ask request resume ih =>
    simp only [bind]
    congr 1
    funext reply
    exact ih reply

theorem bind_assoc {γ : Type} (p : Program κ φ α) (f : α → Program κ φ β) (g : β → Program κ φ γ) :
    (p.bind f).bind g = p.bind fun a => (f a).bind g := by
  induction p with
  | done a => rfl
  | look next ih =>
    simp only [bind]
    congr 1
    funext machine
    exact ih machine
  | change c next ih => simp only [bind, ih]
  | ask request resume ih =>
    simp only [bind]
    congr 1
    funext reply
    exact ih reply

instance : LawfulMonad (Program κ φ) := LawfulMonad.mk' _ bind_done (fun _ _ => rfl) bind_assoc

/-- **Run a program with a host.** The host keeps the machine while it answers. -/
def run {η : Type} (put : Machine κ φ → η → η) (get : η → Machine κ φ)
    (answer : (request : Request κ φ) → η → request.Reply × η) : Program κ φ α → η → α × η
  | done a, host => (a, host)
  | look next, host => (next (get host)).run put get answer host
  | change c next, host => next.run put get answer (put (c.apply (get host)) host)
  | ask request resume, host =>
    let (reply, host) := answer request host
    (resume reply).run put get answer host

end Program

/-- The machine as it is. -/
def look : Program κ φ (Machine κ φ) := .look .done

/-- Change the machine. -/
def make (c : Change φ) : Program κ φ Unit := .change c (.done ())

/-- Ask the host. -/
def ask (request : Request κ φ) : Program κ φ request.Reply := .ask request .done

end StateEngine
