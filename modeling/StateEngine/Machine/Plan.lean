import StateEngine.Machine.Driver
import StateEngine.Machine.Polling

/-!
# Plans

What a transition comes to can be told before any of its callbacks is called, once it is known which callbacks the
target has, and how each of them ends. When it ends does not matter, nor what else happens meanwhile.

* `Plan`: the callbacks of a target, and how the callbacks end that the phases list.
* `Plan.phase`, `Plan.result`: what a phase comes to, and what a transition comes to.
* `Plan.invoked`, `Plan.settled`: the callbacks that are called, and what is noted of them.
* `Plan.Fails`: how a phase fails.
* `Plan.Keeps`: **whether what is done keeps to a plan**.
* `Plan.Carries`: whether phases are performed as planned.
* `Driver.Follows`, `Driver.Brings`: a driver whose callbacks end as planned, and a future that it drives.
-/

namespace StateEngine

variable {κ φ : Type}

/-- **A plan** for a transition. -/
structure Plan (κ : Type) where
  /-- The callback of a name, if the target has it. -/
  callback? : String → Option κ
  /-- How the callback ends that a phase lists at a position. -/
  outcome : Phase → Nat → Outcome

namespace Plan

variable (P : Plan κ) (d : Definition κ) (target : String)

/-! ## What is planned -/

/-- The callback of a name, which the target has to have. -/
def named (name : String) (missing : String → MissingCallback) : Except MissingCallback κ :=
  match P.callback? name with
  | none => .error (missing target)
  | some callback => .ok callback

/-- The callback that a phase lists. -/
def find (record : Record) (phase : Phase) : Listed κ → Except MissingCallback κ
  | .inlineHook _ _ callback => .ok callback
  | .stateHook state name => P.named target name fun target => .stateHook name target state phase
  | .transition name => P.named target name fun target => .transition name target record phase

/-- The callbacks of a phase, or the first of them that is missing. -/
def found (record : Record) (phase : Phase) : Except MissingCallback (List κ) :=
  (d.listed record phase).mapM (P.find target record phase)

/-- **What a phase comes to**: it rejects if a callback is missing, and otherwise with the failure of the last of
those that fail. -/
def phase (record : Record) (phase : Phase) : Except Rejection Unit :=
  match P.found d target record phase with
  | .error missing => .error (.missing missing)
  | .ok callbacks => verdict ((List.range callbacks.length).map (P.outcome phase))

/-- **What phases come to**, one after the other. The first that rejects is the last. -/
def result (record : Record) : List Phase → Except Rejection Unit
  | [] => .ok ()
  | phase :: later => do
    P.phase d target record phase
    result record later

/-- **How a phase fails**: a callback is missing, or none is and the last of those that fail fails so. -/
inductive Fails (record : Record) (phase : Phase) : Rejection → Prop where
  | missing {missing : MissingCallback} : P.found d target record phase = .error missing →
      Fails record phase (.missing missing)
  | callback {callbacks : List κ} {i : Nat} {reason : Json} :
      P.found d target record phase = .ok callbacks → i < callbacks.length →
      P.outcome phase i = .error reason →
      (∀ j, i < j → j < callbacks.length → ∃ value, P.outcome phase j = .ok value) →
      Fails record phase (.callback reason)

/-- The phases that are come to: all up to the first that rejects. -/
def reached (record : Record) : List Phase → List Phase
  | [] => []
  | phase :: later =>
    match P.phase d target record phase with
    | .ok () => phase :: reached record later
    | .error _ => [phase]

/-- The callbacks of a phase that are called, and what they are told: none if one is missing. -/
def calls (t : Transition) (phase : Phase) : List (κ × Context) :=
  match P.found d target t.record phase with
  | .error _ => []
  | .ok callbacks => callbacks.map fun callback => (callback, t.context phase)

/-- What the callbacks of a phase settle with. -/
def settlements (record : Record) (phase : Phase) : List (Phase × String × Outcome) :=
  match P.found d target record phase with
  | .error _ => []
  | .ok _ => (d.listed record phase).mapIdx fun i listed => (phase, listed.id, P.outcome phase i)

/-- **The callbacks that are called** for a transition, and what they are told. -/
def invoked (t : Transition) (phases : List Phase) : List (κ × Context) :=
  (P.reached d target t.record phases).flatMap (P.calls d target t)

/-- **What the callbacks settle with** that are called for a transition. -/
def settled (record : Record) (phases : List Phase) : List (Phase × String × Outcome) :=
  (P.reached d target record phases).flatMap (P.settlements d target record)

end Plan

/-! ## Keeping to a plan -/

/-- How a callback ends that has handed back a settlement, by the fate of its computation. -/
def Settlement.comesTo (fate : φ → Outcome) : Settlement φ → Outcome
  | value v => .ok v
  | error reason => .error reason
  | pending computation => fate computation

/-- How a computation ends that has answered a poll. -/
def Awaited.comesTo (fate : φ → Outcome) : Awaited φ → Outcome
  | yielding computation => fate computation
  | sleeping computation => fate computation
  | settled outcome => outcome

/-- **Whether what is done keeps to a plan**: callbacks are found if the target has them, each call of a phase ends
as planned for its position, and no poll changes how a computation ends. -/
structure Plan.Keeps (P : Plan κ) (fate : φ → Outcome) (acts : List (Act κ φ)) : Prop where
  lookups : ∀ name reply, Act.asked (.callback name) reply ∈ acts → reply = P.callback? name
  calls : ∀ phase (i : Nat) (settlement : Settlement φ),
    (acts.filterMap (Act.handed? phase))[i]? = some settlement →
      settlement.comesTo fate = P.outcome phase i
  polls : ∀ computation (reply : Awaited φ), Act.asked (.poll computation) reply ∈ acts →
    reply.comesTo fate = fate computation

/-- The last mark that is made for a transition that comes to a result. -/
def Mark.ofResult : Except Rejection Unit → Mark
  | .ok () => .resolve
  | .error rejection => .reject rejection

/-- **Whether phases are performed as planned**: the result is the planned one, the callbacks are called that are
planned, in this order, each of them settles as planned, no phase begins before all that were called in the phases
before it have settled, and the last that is noted is the result. -/
structure Plan.Carries (P : Plan κ) (d : Definition κ) (target : String) (id : TransitionId) (t : Transition)
    (phases : List Phase) (acts : List (Act κ φ)) (result : Except Rejection Unit) : Prop where
  result_eq : result = P.result d target t.record phases
  invoked_eq : acts.filterMap Act.invocation? = P.invoked d target t phases
  settled_perm : (acts.filterMap (Act.settled? id)).Perm (P.settled d target t.record phases)
  among : ∀ phase ∈ acts.filterMap Act.phase?, phase ∈ phases
  in_order : (acts.filterMap Act.phase?).Pairwise fun earlier later => earlier = later ∨ later ∈ earlier.later
  last_mark : (acts.filterMap (Act.mark? id)).getLast? = some (.ofResult result)

/-! ## Driving a future as planned -/

/-- A future that has not been polled, and is to perform a transition. -/
structure Machine.Poised (d : Definition κ) (target : String) (f : FutureId) (id : TransitionId) (t : Transition)
    (m : Machine κ φ) : Prop extends Machine.Serves d target m where
  future : m.future? f = some ⟨id, .perform, .unpolled⟩
  book : ∃ progress, m.transition? id = some { t with progress }

/-- **Driving a future to its completion**, and what its last poll answers. -/
inductive Driver.Brings (driver : Driver κ φ) (f : FutureId) : Machine κ φ → Polled → Machine κ φ → Prop where
  | ended {m m' : Machine κ φ} {polled : Polled} :
      driver.Runs (poll f) m (some polled) m' → polled ≠ .pending → Brings driver f m polled m'
  | again {m m₁ m' : Machine κ φ} {polled : Polled} :
      driver.Runs (poll f) m (some .pending) m₁ → Brings driver f m₁ polled m' → Brings driver f m polled m'
  | wake {m m' : Machine κ φ} {polled : Polled} :
      Brings driver f m.wake polled m' → Brings driver f m polled m'

/-- **Whether the callbacks of a driver end as planned** for a transition. -/
structure Driver.Follows (driver : Driver κ φ) (P : Plan κ) (d : Definition κ) (t : Transition) : Prop where
  callback_eq : ∀ name, driver.target.callback? name = P.callback? name
  outcomes_eq : ∀ phase callbacks, P.found d driver.target.describe t.record phase = .ok callbacks →
    callbacks.map (fun callback => driver.outcome callback (t.context phase)) =
      (List.range callbacks.length).map (P.outcome phase)

end StateEngine
