import StateEngine.Proofs.Conduct

/-!
# Open dispatches

A dispatch is open as long as its future is there and still performs its transition. What the deeds of
operations do to the active list and to the open dispatches is one of five things (`Flow`), and this is
where the cases of `Allowed` are gone through for it.

* `Machine.Dispatches`, `Machine.isOpen`: the open dispatches of a machine.
* `Scene.sent`, `Scene.removed`: the transitions that were sent so far, and those that aborts removed.
* `Allowed.flow`: **whatever is done, the active list and the open dispatches change together.**
-/

namespace StateEngine

variable {κ φ : Type}

/-- Whether a future dispatches its transition and still performs it. -/
def Future.isOpen (x : Future φ) : Bool :=
  match x.stage with
  | .failed _ => false
  | _ => x.purpose.isDispatch

theorem Future.isOpen_eq {x : Future φ} (h : x.stage.isBusy = false) :
    x.isOpen = x.purpose.isDispatch := by
  unfold isOpen
  cases hs : x.stage with
  | failed rejection => rw [hs] at h; exact nomatch h
  | _ => rfl

namespace Machine

/-- Whether a future is an open dispatch of a transition. -/
def Dispatches (m : Machine κ φ) (f : FutureId) (id : TransitionId) : Prop :=
  ∃ x, m.future? f = some x ∧ x.isOpen = true ∧ x.transition = id

/-- Whether some future is an open dispatch of a transition. -/
def isOpen (m : Machine κ φ) (id : TransitionId) : Bool :=
  m.futures.any fun slot => slot.any fun x => x.isOpen && x.transition == id

variable {m m' : Machine κ φ} {f g : FutureId} {id i : TransitionId}

theorem isOpen_iff : m.isOpen id = true ↔ ∃ f, m.Dispatches f id := by
  unfold isOpen Dispatches
  rw [List.any_eq_true]
  constructor
  · rintro ⟨slot, hslot, h⟩
    obtain ⟨x, rfl, hx⟩ := (Option.any_eq_true ..).1 h
    obtain ⟨f, hf⟩ := List.getElem?_of_mem hslot
    rw [Bool.and_eq_true, beq_iff_eq] at hx
    exact ⟨f, x, future_eq_some.2 hf, hx⟩
  · rintro ⟨f, x, hf, hx⟩
    refine ⟨some x, List.mem_of_getElem? (future_eq_some.1 hf), ?_⟩
    rw [← beq_iff_eq (a := x.transition), ← Bool.and_eq_true] at hx
    exact hx

theorem Dispatches.unique {j : TransitionId} (h : m.Dispatches f id) (h' : m.Dispatches f j) :
    id = j := by
  obtain ⟨x, hx, -, rfl⟩ := h
  obtain ⟨y, hy, -, rfl⟩ := h'
  rw [Option.some.inj (hx.symm.trans hy)]

theorem dispatches_of_futures (h : m'.futures = m.futures) :
    m'.Dispatches g i ↔ m.Dispatches g i := by
  unfold Dispatches future?
  rw [h]

theorem Performs.dispatches {purpose : Purpose} (h : m.Performs f id purpose)
    (hd : purpose.isDispatch = true) : m.Dispatches f id := ⟨_, h, hd, rfl⟩

/-- When a record may become active. -/
theorem permit_eq_ok {record : Record} :
    m.permit record = .ok () ↔
      record.fromState = m.state ∧ (m.active = [] ∨ record.toState = m.state) := by
  unfold permit isTransitioning
  by_cases hfrom : record.fromState = m.state
  · by_cases hto : record.toState = m.state
    · simp [hfrom, hto]
    · cases m.active <;> simp [hfrom, hto]
  · simp [hfrom]

/-! ## Slots -/

/-- A future that is replaced. -/
theorem dispatches_set {x : Future φ} (hf : f < m.futures.length)
    (h : m'.futures = m.futures.set f (some x)) :
    m'.Dispatches g i ↔
      (g ≠ f ∧ m.Dispatches g i) ∨ (g = f ∧ x.isOpen = true ∧ x.transition = i) := by
  unfold Dispatches
  rw [future_set hf h]
  by_cases hg : g = f
  · simp [hg]
  · simp [hg]

/-- A future that is closed dispatches nothing. -/
theorem dispatches_close (h : m'.futures = m.futures.set f none) :
    m'.Dispatches g i ↔ m.Dispatches g i ∧ g ≠ f := by
  unfold Dispatches
  rw [future_close h]
  by_cases hg : g = f
  · simp [hg]
  · simp [hg]

/-- A future that stands elsewhere, and is as open as before. -/
theorem dispatches_setStage {x : Future φ} {stage : Stage φ} (h : m.future? f = some x)
    (ho : ({ x with stage } : Future φ).isOpen = x.isOpen) :
    (m.setStage f stage).Dispatches g i ↔ m.Dispatches g i := by
  rw [dispatches_set (lt_of_future h) (futures_setStage h stage)]
  by_cases hg : g = f
  · subst hg
    unfold Dispatches
    rw [h]
    simp [ho]
  · simp [hg]

theorem dispatches_fail {x : Future φ} (h : m.future? f = some x) (rejection : Option Rejection) :
    (m.fail f id rejection).Dispatches g i ↔ m.Dispatches g i ∧ g ≠ f := by
  cases rejection with
  | none => exact dispatches_close (futures_fail f id none)
  | some r =>
    have hset : (m.fail f id (some r)).futures = m.futures.set f (some { x with stage := .failed r }) :=
      (futures_fail f id (some r)).trans (futures_setStage h (.failed r))
    rw [dispatches_set (lt_of_future h) hset]
    simp [Future.isOpen, and_comm]

/-- A future that is added. -/
theorem dispatches_append {x : Future φ} (h : m'.futures = m.futures ++ [some x]) :
    m'.Dispatches g i ↔
      m.Dispatches g i ∨ (g = m.nextFuture ∧ x.isOpen = true ∧ x.transition = i) := by
  unfold Dispatches
  rw [future_append h]
  by_cases hg : g = m.nextFuture
  · subst hg
    have hnone : m.future? m.nextFuture = none := by
      rw [future?, nextFuture, List.getElem?_eq_none (Nat.le_refl _)]
      rfl
    simp [hnone]
  · simp [hg]

end Machine

/-! ## What was sent and what was removed -/

/-- The transition that a deed made active. -/
def Deed.sent : Deed κ φ → List TransitionId
  | .changed m (.launch _ _) => [m.nextTransition]
  | .changed m (.relaunch _ _ _ _) => [m.nextTransition]
  | _ => []

/-- The transitions that a deed removed from the active list by an abort: the one that was to be
aborted, or all, or all others when a dispatch rejected. -/
def Deed.removed : Deed κ φ → List TransitionId
  | .changed m (.abortActive id) => m.active.filter (· == id)
  | .changed m .abortAll => m.active
  | .changed m (.fail _ id _) => m.active.filter (· != id)
  | _ => []

/-- The transitions that were sent so far, in the order in which they were sent. -/
def Scene.sent (s : Scene κ φ) : List TransitionId := s.trace.flatMap Deed.sent

/-- The transitions that were removed by aborts so far. -/
def Scene.removed (s : Scene κ φ) : List TransitionId := s.trace.flatMap Deed.removed

theorem Scene.sent_make (s : Scene κ φ) (c : Change φ) :
    (s.make c).sent = s.sent ++ Deed.sent (.changed s.machine c) := by
  simp [Scene.sent, Scene.make]

theorem Scene.removed_make (s : Scene κ φ) (c : Change φ) :
    (s.make c).removed = s.removed ++ Deed.removed (.changed s.machine c) := by
  simp [Scene.removed, Scene.make]

theorem Scene.sent_ask (s : Scene κ φ) (request : Request κ φ) : (s.ask request).sent = s.sent := by
  simp [Scene.sent, Scene.ask, Deed.sent]

theorem Scene.removed_ask (s : Scene κ φ) (request : Request κ φ) :
    (s.ask request).removed = s.removed := by
  simp [Scene.removed, Scene.ask, Deed.removed]

/-! ## The five things that can happen -/

/-- What a deed does to the active list and to the open dispatches, with the transitions that it
sends and those that it removes. -/
inductive Flow (m m' : Machine κ φ) : List TransitionId → List TransitionId → Prop where
  | stay :
      m'.active = m.active → (∀ g i, m'.Dispatches g i ↔ m.Dispatches g i) → Flow m m' [] []
  /-- A new transition joins the active list, and a future opens that dispatches it. -/
  | join {f : FutureId} {record : Record} :
      m.permit record = .ok () → m'.record? m.nextTransition = some record →
      m'.active = m.active ++ [m.nextTransition] → (∀ i, ¬ m.Dispatches f i) →
      (∀ g i, m'.Dispatches g i ↔ m.Dispatches g i ∨ (g = f ∧ i = m.nextTransition)) →
      Flow m m' [m.nextTransition] []
  /-- A dispatch closes, and its transition leaves the active list. -/
  | leave {f : FutureId} {id : TransitionId} :
      m.Dispatches f id → m'.active = m.active.filter (· != id) →
      (∀ g i, m'.Dispatches g i ↔ m.Dispatches g i ∧ g ≠ f) → Flow m m' [] []
  /-- Transitions are aborted and removed from the active list. -/
  | remove {p : TransitionId → Bool} :
      m'.active = m.active.filter (fun i => !p i) →
      (∀ i ∈ m.active.filter p, ∀ t, m'.transition? i = some t → t.isAborted = true) →
      (∀ g i, m'.Dispatches g i ↔ m.Dispatches g i) → Flow m m' [] (m.active.filter p)
  /-- A dispatch closes, and all other transitions are aborted and removed as well. -/
  | fail {f : FutureId} {id : TransitionId} :
      m.Dispatches f id → m'.active = [] →
      (∀ i ∈ m.active.filter (· != id), ∀ t, m'.transition? i = some t → t.isAborted = true) →
      (∀ g i, m'.Dispatches g i ↔ m.Dispatches g i ∧ g ≠ f) →
      Flow m m' [] (m.active.filter (· != id))

variable {m : Machine κ φ}

theorem Flow.of_futures {m' : Machine κ φ} (ha : m'.active = m.active) (hf : m'.futures = m.futures) :
    Flow m m' [] [] := .stay ha fun _ _ => Machine.dispatches_of_futures hf

/-- A future that is no open dispatch may be closed. -/
theorem Flow.of_idle {f : FutureId} {x : Future φ} (h : m.future? f = some x)
    (ho : x.isOpen = false) : Flow m (m.closeFuture f) [] [] := by
  refine .stay rfl fun g i => ?_
  rw [Machine.dispatches_close rfl]
  refine ⟨And.left, fun hg => ⟨hg, ?_⟩⟩
  rintro rfl
  obtain ⟨y, hy, hyo, -⟩ := hg
  rw [Option.some.inj (hy.symm.trans h), ho] at hyo
  exact nomatch hyo

/-- A future that is given up. -/
theorem Flow.dropFuture (f : FutureId) : Flow m (m.dropFuture f) [] [] := by
  rcases m.dropFuture_cases f with h | ⟨x, hf, hb, ⟨hd, h⟩ | ⟨hd, h⟩⟩
  · rw [h]; exact .of_futures rfl rfl
  · rw [h]
    exact .of_idle hf ((Future.isOpen_eq hb).trans hd)
  · rw [h]
    have hopen : x.isOpen = true := (Future.isOpen_eq hb).trans hd
    refine .leave (f := f) ⟨x, hf, hopen, rfl⟩ (Machine.active_abortActive x.transition) fun g i => ?_
    rw [Machine.dispatches_of_futures (Machine.futures_abortActive x.transition)]
    exact Machine.dispatches_close rfl

/-- A dispatch that rejects. -/
theorem Flow.of_fail {f : FutureId} {id : TransitionId} {purpose : Purpose}
    (h : m.Performs f id purpose) (hd : purpose.isDispatch = true) (rejection : Option Rejection) :
    Flow m (m.fail f id rejection) [] (m.active.filter (· != id)) := by
  refine .fail (h.dispatches hd) ?_ ?_ fun g i => Machine.dispatches_fail h rejection
  · rw [Machine.fail_eq]
  · intro i hi t ht
    rw [Machine.fail_eq] at ht
    have hbook := (Machine.getElem_abortIn (m.active.filter (· != id)) i m.transitions).symm.trans ht
    obtain ⟨u, -, rfl⟩ := Option.map_eq_some_iff.1 hbook
    rw [if_pos hi]
    exact u.isAborted_mark_abort

/-- A dispatch that settles without a rejection. -/
theorem Flow.of_close {m' : Machine κ φ} {f : FutureId} {id : TransitionId} {purpose : Purpose}
    (h : m.Performs f id purpose) (hd : purpose.isDispatch = true)
    (ha : m'.active = m.active.filter (· != id)) (hf : m'.futures = m.futures.set f none) :
    Flow m m' [] [] := .leave (h.dispatches hd) ha fun _ _ => Machine.dispatches_close hf

/-- **The active list and the open dispatches change together.** -/
theorem Allowed.flow {own : Option FutureId} {c : Change φ} (h : Allowed m own c) :
    Flow m (c.apply m) (Deed.sent (.changed m c)) (Deed.removed (.changed m c)) := by
  cases h with
  | abort id => exact .of_futures rfl rfl
  | note _ _ => exact .of_futures rfl rfl
  | add args _ => exact .of_futures rfl rfl
  | launch args hd ha =>
    refine .join (f := m.nextFuture) ha ?_ rfl ?_ fun g i => ?_
    · exact Machine.record_eq_some.2 ⟨_, List.getElem?_concat_length, rfl⟩
    · rintro i ⟨x, hx, -⟩
      exact absurd (Machine.lt_of_future hx) (Nat.lt_irrefl _)
    · refine Iff.trans (Machine.dispatches_append (m := m) rfl) ?_
      simp [Future.isOpen, Purpose.isDispatch, eq_comm]
  | relaunch args hf hd ha =>
    rename_i f _ _ _
    -- the dispatch whose transition rejected is closed already
    have hnone : ∀ i, ¬ m.Dispatches f i := by
      rintro i ⟨x, hx, ho, -⟩
      rw [Option.some.inj (hx.symm.trans hf)] at ho
      exact nomatch ho
    refine .join ha ?_ rfl hnone fun g i => ?_
    · exact Machine.record_eq_some.2 ⟨_, List.getElem?_concat_length, rfl⟩
    · refine (Machine.dispatches_set (Machine.lt_of_future hf) rfl).trans ?_
      by_cases hg : g = f
      · subst hg
        constructor
        · rintro (⟨hne, -⟩ | ⟨-, -, hi⟩)
          · exact absurd rfl hne
          · exact .inr ⟨rfl, hi.symm⟩
        · rintro (hi | ⟨-, hi⟩)
          · exact absurd hi (hnone i)
          · exact .inr ⟨rfl, rfl, hi.symm⟩
      · simp [hg]
  | addFuture id hp =>
    refine .stay rfl fun g i => (Machine.dispatches_append rfl).trans ?_
    simp [Future.isOpen, hp]
  | take hf hb =>
    exact .stay rfl fun g i => Machine.dispatches_setStage hf (Future.isOpen_eq hb).symm
  | rest phase roster hp => exact .stay rfl fun g i => Machine.dispatches_setStage hp rfl
  | finish hp hd => exact .of_idle hp hd
  | refuse hf => exact .of_idle hf rfl
  | drop f => exact .dropFuture f
  | release hp hd _ _ => exact .of_close hp hd rfl rfl
  | commit hp hd _ _ _ _ => exact .of_close hp hd rfl rfl
  | fail hp hd _ _ _ => exact .of_fail hp hd none
  | failDispatch hp _ _ _ => exact .of_fail hp rfl (some _)
  | abortActive id =>
    refine .remove (p := (· == id)) (Machine.active_abortActive id) ?_ fun g i => ?_
    · intro i hi t ht
      rw [List.mem_filter, beq_iff_eq] at hi
      obtain ⟨hi, rfl⟩ := hi
      obtain ⟨u, -, rfl⟩ := Option.map_eq_some_iff.1 ((Machine.transition_abortActive i i).symm.trans ht)
      rw [if_pos ⟨rfl, hi⟩]
      exact u.isAborted_mark_abort
    · exact Machine.dispatches_of_futures (Machine.futures_abortActive id)
  | abortAll =>
    have hall : m.active.filter (fun _ => true) = m.active := List.filter_eq_self.2 fun _ _ => rfl
    have hflow : Flow m m.abortAll [] (m.active.filter fun _ => true) := by
      rw [Machine.abortAll_eq]
      refine .remove (p := fun _ => true) ?_ ?_ fun g i => ?_
      · exact (List.filter_eq_nil_iff.2 (by simp)).symm
      · intro i hi t ht
        obtain ⟨u, -, rfl⟩ :=
          Option.map_eq_some_iff.1 ((Machine.getElem_abortIn m.active i m.transitions).symm.trans ht)
        rw [if_pos (hall ▸ hi)]
        exact u.isAborted_mark_abort
      · exact Machine.dispatches_of_futures rfl
    rw [hall] at hflow
    exact hflow
  | setState _ => exact .of_futures rfl rfl
  | subscribe => exact .of_futures rfl rfl
  | wake => exact .of_futures rfl rfl

end StateEngine
