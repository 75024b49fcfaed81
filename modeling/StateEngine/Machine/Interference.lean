import StateEngine.Machine.World

/-!
# Polls amid interference

A future is polled again and again until it yields. Whatever else there is may change the machine at any time
meanwhile: between two polls, while the host is asked for something, or between any two steps of a poll.

* `Machine.Directs`: futures that perform their transition directly, without a dispatch.
* `Move`, `Moment`: what can happen next to a machine and the poll that is under way.
* `Move.aborts`, `Move.settles`: aborts by hand, and the settling of a dispatch.
* `Moment.Next`, `Moment.Runs`: **the runs of a future**, move by move.
* `World.moment`: where the run of a future is in a world.
* `Machine.Agrees`, `Progress.Agrees`: machines and books that only differ in a status.
-/

namespace StateEngine

/-- Whether a future is no dispatch, or gone. -/
def Machine.Directs {κ φ : Type} (m : Machine κ φ) (f : FutureId) : Prop :=
  ∀ x, m.future? f = some x → x.purpose.isDispatch = false

/-- **What can happen next.** -/
inductive Move (κ φ : Type) where
  /-- Somebody else changes the machine. -/
  | other (change : Change φ)
  /-- The future is polled. -/
  | poll
  /-- The poll looks at the machine. -/
  | look
  /-- The poll changes the machine. -/
  | change (change : Change φ)
  /-- The poll gets its answer to a request. -/
  | answer (request : Request κ φ) (reply : request.Reply)
  /-- The poll is over. -/
  | yield (polled : Option Polled)

/-- A machine, and what is left to do of the poll that is under way. -/
structure Moment (κ φ : Type) where
  machine : Machine κ φ
  poll? : Option (Program κ φ (Option Polled))

variable {κ φ : Type}

/-- Whether somebody aborts a transition by hand. -/
def Move.aborts (id : TransitionId) : Move κ φ → Bool
  | .other (.note i .abort) => i == id
  | _ => false

/-- Whether the poll settles a dispatch of a transition that has not rejected. -/
def Move.settles (id : TransitionId) : Move κ φ → Bool
  | .change (.commit _ i _) => i == id
  | .change (.release _ i) => i == id
  | _ => false

namespace Moment

/-- **One move** in the run of a future. Others may do what they like, but do not make it a dispatch. -/
inductive Next (f : FutureId) : Moment κ φ → Move κ φ → Moment κ φ → Prop where
  | other {m : Machine κ φ} {poll? : Option (Program κ φ (Option Polled))} {c : Change φ} :
      (m.Directs f → (c.apply m).Directs f) → Next f ⟨m, poll?⟩ (.other c) ⟨c.apply m, poll?⟩
  | poll {m : Machine κ φ} : Next f ⟨m, none⟩ .poll ⟨m, some (poll f)⟩
  | look {m : Machine κ φ} {next : Machine κ φ → Program κ φ (Option Polled)} :
      Next f ⟨m, some (.look next)⟩ .look ⟨m, some (next m)⟩
  | change {m : Machine κ φ} {c : Change φ} {next : Program κ φ (Option Polled)} :
      Next f ⟨m, some (.change c next)⟩ (.change c) ⟨c.apply m, some next⟩
  | answer {m : Machine κ φ} {request : Request κ φ} {resume : request.Reply → Program κ φ (Option Polled)}
      (reply : request.Reply) :
      Next f ⟨m, some (.ask request resume)⟩ (.answer request reply) ⟨m, some (resume reply)⟩
  | yield {m : Machine κ φ} {polled : Option Polled} :
      Next f ⟨m, some (.done polled)⟩ (.yield polled) ⟨m, none⟩

/-- **A run of a future**: its polls, with all that they ask for and all that others do. -/
inductive Runs (f : FutureId) : Moment κ φ → List (Move κ φ) → Moment κ φ → Prop where
  | nil (x : Moment κ φ) : Runs f x [] x
  | cons {x y z : Moment κ φ} {move : Move κ φ} {moves : List (Move κ φ)} :
      x.Next f move y → Runs f y moves z → Runs f x (move :: moves) z

end Moment

/-- What is left to do of a poll that waits, if an operation is one of the future. -/
def Waiting.poll? (f : FutureId) : Waiting κ φ → Option (Program κ φ (Option Polled))
  | ⟨.poll g, request, resume⟩ => if g = f then some (.ask request resume) else none
  | _ => none

/-- **Where the run of a future is in a world.** -/
def World.moment (f : FutureId) (w : World κ φ) : Moment κ φ := ⟨w.machine, w.waiting.findSome? (Waiting.poll? f)⟩

/-- **Whether two machines agree on everything but the status of a transition**: they are the same once it is
aborted in both. -/
def Machine.Agrees (id : TransitionId) (m m' : Machine κ φ) : Prop := m.abort id = m'.abort id

/-- Whether two books agree on everything but the status. -/
structure Progress.Agrees (p p' : Progress) : Prop where
  isResolving_eq : p'.isResolving = p.isResolving
  isRejected_eq : p'.isRejected = p.isRejected
  rejection_eq : p'.rejection = p.rejection
  resolutions_eq : p'.resolutions = p.resolutions
  rejections_eq : p'.rejections = p.rejections

end StateEngine
