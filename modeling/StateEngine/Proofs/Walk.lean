import StateEngine.Proofs.Course
import StateEngine.Proofs.Performing

/-!
# Walks through a transition

Performing a transition comes to many points, and most of what there is to say of them is said of a few:
where the phases have to wait, where all of them are over, and where one of them fails. A `Walk` asks for
no more than that.

* `Program.first?`: the change that a program is about to make, and `Made.course`: it is made in the move.
* `Walk.advance`: **the points of performing a transition**, and of what follows.
-/

namespace StateEngine

open Program

variable {κ φ α β : Type} {R : Response κ φ} {s : Scene κ φ}

/-! ## What comes next -/

/-- The change that a program makes before it does anything else than to look. -/
def Program.first? : Program κ φ α → Machine κ φ → Option (Change φ)
  | .look next, m => (next m).first? m
  | .change c _, _ => some c
  | _, _ => none

theorem Program.first_bind {p : Program κ φ α} {m : Machine κ φ} {c : Change φ}
    (h : p.first? m = some c) (g : α → Program κ φ β) : (p >>= g).first? m = some c := by
  induction p with
  | done a => exact nomatch h
  | look next ih => exact ih m h
  | change c' next _ => exact h
  | ask request resume _ => exact nomatch h

/-- The change that a safe program is about to make is allowed. -/
theorem Program.Safe.first {own : Option FutureId} {post : α → Scene κ φ → Prop} {c : Change φ}
    {p : Program κ φ α} (h : p.Safe own post s) (hc : p.first? s.machine = some c) :
    Allowed s.machine own c := by
  induction p with
  | done a => exact nomatch hc
  | look next ih => exact ih s.machine h hc
  | change c' next _ =>
    cases hc
    exact h.1
  | ask request resume _ => exact nomatch hc

/-- An operation that goes on makes the change that it is about to make. -/
theorem World.proceed_first {op : Operation} {c : Change φ} {p : Program κ φ op.Result} {w : World κ φ}
    (h : p.first? w.machine = some c) : (w.scene.make c).trace <+: (proceed op p w).trace := by
  induction p with
  | done a => exact nomatch h
  | look next ih => exact ih w.machine h
  | change c' next _ =>
    cases h
    exact World.trace_proceed op (p := next) (w := { w with scene := w.scene.make c })
  | ask request resume _ => exact nomatch h

/-- **A change that was made in a move** was made at a point of the operation, and if this is about to make
another one, it was made in the same move. -/
theorem Made.course {m : Machine κ φ} {w : World κ φ} {op : Operation} {c : Change φ}
    (h : Made m w op s c) :
    ∃ next, Course m op (.change c next) s ∧
      ∀ c', next.first? (s.make c).machine = some c' → ((s.make c).make c').trace <+: w.trace := by
  obtain ⟨u, u', hu, hn, hs, hmade, hbefore⟩ := h
  obtain ⟨next, waiting, hc, hproceed, -⟩ := hu.moved hn hs hmade
  refine ⟨next, hc, fun c' hfirst => ?_⟩
  have hnext : ((s.make c).make c').trace <+: u'.trace := by
    rw [hproceed]
    exact World.proceed_first (w := ⟨s.make c, waiting⟩) hfirst
  exact hnext.trans hbefore

/-! ## Walks -/

/-- **What is to be shown at the points of performing a transition**, and of what follows, while something
is known of the scene. -/
structure Walk (R : Response κ φ) (I : Scene κ φ → Prop) (id : TransitionId)
    (P : Program κ φ β → Scene κ φ → Prop) (g : Advance φ → Program κ φ β) : Prop where
  note : ∀ s c, I s → PhaseNotes id c → I (s.make c)
  amid : ∀ request s reply s₁, R request s reply s₁ → I s → I s₁
  change : ∀ c next s, I s → PhaseNotes id c → P (.change c next) s
  ask : ∀ request resume s, I s → P (.ask request resume) s
  waits : ∀ phase roster s, I s → roster.outcomes? = none → (g (.waiting phase roster)).Each R P s
  resolves : ∀ s, I s → (make (.note id .resolve) >>= fun _ => g (.over (.ok ()))).Each R P s
  rejects : ∀ r s, I s → (make (.note id (.reject r)) >>= fun _ => g (.over (.error r))).Each R P s

namespace Walk

variable {I : Scene κ φ → Prop} {id : TransitionId} {P : Program κ φ β → Scene κ φ → Prop}
  {g : Advance φ → Program κ φ β} {t : Transition}

/-- A phase, and what follows it. -/
theorem phase (hw : Walk R I id P g) {p : Program κ φ (Advance φ)}
    (hp : p.Within (PhaseNotes id) Advance.Rests) {next : Advance φ → Program κ φ β}
    (hnext : ∀ advance s, I s → advance.Rests → (next advance).Each R P s) (h : I s) :
    (p >>= next).Each R P s := by
  have hpoints := hp.each (R := R) (I := I) hw.note hw.amid h
  refine Each.bind (hpoints.mono fun q s' hq => ?_)
  obtain ⟨hs, hq⟩ := hq
  cases q with
  | done advance => exact hnext advance s' hs hq
  | look _ => trivial
  | change c next => exact hw.change c _ s' hs hq.1
  | ask request resume => exact hw.ask request _ s' hs

/-- Phases that start one after the other. -/
theorem startPhases (hw : Walk R I id P g) (phases : List Phase) :
    ∀ {s : Scene κ φ}, I s → (startPhases id t phases >>= g).Each R P s := by
  induction phases with
  | nil => intro s h; exact hw.resolves s h
  | cons phase rest ih =>
    intro s h
    rw [StateEngine.startPhases, LawfulMonad.bind_assoc]
    refine hw.phase (startPhase_within id t phase) (fun advance s' hs' hr => ?_) h
    match advance with
    | .waiting phase roster => exact hw.waits phase roster s' hs' (hr phase roster rfl)
    | .over (.ok ()) => exact ih hs'
    | .over (.error r) => exact hw.rejects r s' hs'

/-- **The points of performing a transition**, and of what follows. -/
theorem advance (hw : Walk R I id P g) (stage : Stage φ) (h : I s) :
    (advance id t stage >>= g).Each R P s := by
  cases stage with
  | waiting phase roster =>
    rw [StateEngine.advance, continuePerform, LawfulMonad.bind_assoc]
    refine hw.phase (continuePhase_within id phase roster) (fun advance s' hs' hr => ?_) h
    match advance with
    | .waiting phase roster => exact hw.waits phase roster s' hs' (hr phase roster rfl)
    | .over (.ok ()) => exact hw.startPhases phase.later hs'
    | .over (.error r) => exact hw.rejects r s' hs'
  | unpolled => exact hw.startPhases Phase.all h
  | busy => exact hw.startPhases Phase.all h
  | failed _ => exact hw.startPhases Phase.all h

end Walk

end StateEngine
