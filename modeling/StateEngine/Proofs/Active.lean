import StateEngine.Proofs.Build
import StateEngine.Proofs.Flow
import StateEngine.Proofs.Run

/-!
# The active list

At every point of every run, whatever was done from inside guards, callbacks and listeners, the active
list is what the open dispatches say it is.

* `Scene.Orderly`: the invariant, and `Reaches.orderly`: **it holds at every point of every run**.
* `active_distinct`: active transitions are distinct, and all but the oldest stay in their state.
* `active_eq_open`: the active list holds the open dispatches in the order in which they were sent, but
  for those that were removed, and giving one up aborts its transition and nothing else.
-/

namespace StateEngine

variable {κ φ : Type}

/-- Whether a record leads to another state. -/
def Record.changesState (record : Record) : Bool := record.toState != record.fromState

/-- **What holds of the active list** at every point of every run. -/
structure Scene.Orderly (s : Scene κ φ) : Prop where
  sent_lt : ∀ i ∈ s.sent, i < s.machine.transitions.length
  sent_sorted : s.sent.Pairwise (· < ·)
  open_sent : ∀ f i, s.machine.Dispatches f i → i ∈ s.sent
  open_unique : ∀ f g i, s.machine.Dispatches f i → s.machine.Dispatches g i → f = g
  removed_sent : ∀ i ∈ s.removed, i ∈ s.sent
  removed_aborted : ∀ i ∈ s.removed, s.machine.isAborted i = true
  active_eq : s.machine.active = s.sent.filter fun i => s.machine.isOpen i && !s.removed.contains i
  /-- Only the oldest transition may lead to another state. -/
  tail_stays : ∀ i ∈ s.machine.active.tail, ∀ r, s.machine.record? i = some r → r.changesState = false

namespace Scene.Orderly

variable {s s' : Scene κ φ}

theorem mem_active (h : s.Orderly) {i : TransitionId} :
    i ∈ s.machine.active ↔ s.machine.isOpen i = true ∧ i ∉ s.removed := by
  rw [h.active_eq, List.mem_filter, Bool.and_eq_true, Bool.not_eq_true', ← Bool.not_eq_true,
    List.contains_iff_mem]
  refine ⟨And.right, fun hi => ⟨?_, hi⟩⟩
  obtain ⟨f, hf⟩ := Machine.isOpen_iff.1 hi.1
  exact h.open_sent f i hf

theorem active_sent (h : s.Orderly) {i : TransitionId} (hi : i ∈ s.machine.active) : i ∈ s.sent := by
  rw [h.active_eq] at hi
  exact (List.mem_filter.1 hi).1

theorem active_lt (h : s.Orderly) {i : TransitionId} (hi : i ∈ s.machine.active) :
    i < s.machine.transitions.length := h.sent_lt i (h.active_sent hi)

theorem active_sorted (h : s.Orderly) : s.machine.active.Pairwise (· < ·) := by
  rw [h.active_eq]
  exact h.sent_sorted.filter _

/-! ## One deed -/

/-- Once a dispatch is closed, no other one has its transition. -/
theorem isOpen_close (h : s.Orderly) {f : FutureId} {id : TransitionId}
    (hd : s.machine.Dispatches f id)
    (hopen : ∀ g i, s'.machine.Dispatches g i ↔ s.machine.Dispatches g i ∧ g ≠ f) (i : TransitionId) :
    s'.machine.isOpen i = (s.machine.isOpen i && i != id) := by
  rw [Bool.eq_iff_iff, Bool.and_eq_true, Machine.isOpen_iff, Machine.isOpen_iff, bne_iff_ne]
  constructor
  · rintro ⟨g, hg⟩
    obtain ⟨hg, hne⟩ := (hopen g i).1 hg
    refine ⟨⟨g, hg⟩, ?_⟩
    rintro rfl
    exact hne (h.open_unique g f i hg hd)
  · rintro ⟨⟨g, hg⟩, hne⟩
    refine ⟨g, (hopen g i).2 ⟨hg, ?_⟩⟩
    rintro rfl
    exact hne (hg.unique hd)

theorem isOpen_congr (hopen : ∀ g i, s'.machine.Dispatches g i ↔ s.machine.Dispatches g i)
    (i : TransitionId) : s'.machine.isOpen i = s.machine.isOpen i := by
  rw [Bool.eq_iff_iff, Machine.isOpen_iff, Machine.isOpen_iff]
  exact exists_congr fun g => hopen g i

variable {new gone : List TransitionId}

theorem active_flow (h : s.Orderly) (hf : Flow s.machine s'.machine new gone)
    (hsent : s'.sent = s.sent ++ new) (hgone : s'.removed = s.removed ++ gone) :
    s'.machine.active = s'.sent.filter fun i => s'.machine.isOpen i && !s'.removed.contains i := by
  cases hf with
  | stay ha hopen =>
    rw [hsent, hgone, List.append_nil, List.append_nil, ha, h.active_eq]
    refine List.filter_congr fun i _ => ?_
    rw [isOpen_congr hopen]
  | @join f record hpermit hr ha hnone hopen =>
    rw [hsent, hgone, List.append_nil, ha, h.active_eq, List.filter_append]
    have hnew : s'.machine.isOpen s.machine.nextTransition = true :=
      Machine.isOpen_iff.2 ⟨f, (hopen f _).2 (.inr ⟨rfl, rfl⟩)⟩
    -- an identity that is still to come was never removed
    have hkept : s.machine.nextTransition ∉ s.removed :=
      fun hi => absurd (h.sent_lt _ (h.removed_sent _ hi)) (Nat.lt_irrefl _)
    congr 1
    · refine List.filter_congr fun i hi => ?_
      have hne : i ≠ s.machine.nextTransition := Nat.ne_of_lt (h.sent_lt i hi)
      have hi' : s'.machine.isOpen i = s.machine.isOpen i := by
        rw [Bool.eq_iff_iff, Machine.isOpen_iff, Machine.isOpen_iff]
        refine exists_congr fun g => (hopen g i).trans ?_
        simp [hne]
      rw [hi']
    · rw [List.filter_cons_of_pos (by simp [hnew, hkept]), List.filter_nil]
  | leave hd ha hopen =>
    -- the dispatch that closes was the only one of its transition
    rw [hsent, hgone, List.append_nil, List.append_nil, ha, h.active_eq, List.filter_filter]
    refine List.filter_congr fun i _ => ?_
    rw [h.isOpen_close hd hopen]
    cases s.machine.isOpen i <;> simp [Bool.and_comm]
  | @remove p ha _ hopen =>
    -- whether it was removed before or is removed now, it is no longer active
    have hkept : s.machine.active.filter (fun i => !p i) = s.sent.filter fun i =>
        !p i && (s.machine.isOpen i && !s.removed.contains i) := by
      rw [h.active_eq, List.filter_filter]
    rw [hsent, hgone, List.append_nil, ha, hkept]
    refine List.filter_congr fun i _ => ?_
    rw [isOpen_congr hopen, Bool.eq_iff_iff]
    simp only [Bool.and_eq_true, Bool.not_eq_true', ← Bool.not_eq_true, List.contains_iff_mem,
      List.mem_append, List.mem_filter, h.mem_active]
    constructor
    · rintro ⟨hp, ho, hr⟩
      exact ⟨ho, fun hi => hi.elim hr fun hi => hp hi.2⟩
    · rintro ⟨ho, hr⟩
      exact ⟨fun hp => hr (.inr ⟨⟨ho, fun hi => hr (.inl hi)⟩, hp⟩), ho, fun hi => hr (.inl hi)⟩
  | fail hd ha _ hopen =>
    -- what is still open was active, and is removed now
    rw [hsent, hgone, List.append_nil, ha]
    refine (List.filter_eq_nil_iff.2 fun i _ hi => ?_).symm
    rw [h.isOpen_close hd hopen] at hi
    simp only [Bool.and_eq_true, Bool.not_eq_true', ← Bool.not_eq_true, List.contains_iff_mem,
      List.mem_append, List.mem_filter, h.mem_active] at hi
    obtain ⟨⟨ho, hne⟩, hr⟩ := hi
    exact hr (.inr ⟨⟨ho, fun hi => hr (.inl hi)⟩, hne⟩)

theorem open_flow (h : s.Orderly) (hf : Flow s.machine s'.machine new gone) :
    (∀ f i, s'.machine.Dispatches f i → i ∈ s.sent ++ new) ∧
      ∀ f g i, s'.machine.Dispatches f i → s'.machine.Dispatches g i → f = g := by
  -- all but a new dispatch only close what was open
  have hsub : (∀ f i, s'.machine.Dispatches f i → s.machine.Dispatches f i) →
      (∀ f i, s'.machine.Dispatches f i → i ∈ s.sent ++ new) ∧
        ∀ f g i, s'.machine.Dispatches f i → s'.machine.Dispatches g i → f = g := fun hs =>
    ⟨fun f i hd => List.mem_append_left _ (h.open_sent f i (hs f i hd)),
      fun f g i hd hd' => h.open_unique f g i (hs f i hd) (hs g i hd')⟩
  cases hf with
  | stay _ hopen => exact hsub fun f i => (hopen f i).1
  | leave _ _ hopen => exact hsub fun f i hd => ((hopen f i).1 hd).1
  | remove _ _ hopen => exact hsub fun f i => (hopen f i).1
  | fail _ _ _ hopen => exact hsub fun f i hd => ((hopen f i).1 hd).1
  | join _ _ _ _ hopen =>
    -- nothing dispatches an identity that is still to come
    have hnew : ∀ f, ¬ s.machine.Dispatches f s.machine.nextTransition := fun f hd =>
      absurd (h.sent_lt _ (h.open_sent f _ hd)) (Nat.lt_irrefl _)
    refine ⟨fun f i hd => ?_, fun f g i hd hd' => ?_⟩
    · rcases (hopen f i).1 hd with hd | ⟨-, rfl⟩
      · exact List.mem_append_left _ (h.open_sent f i hd)
      · exact List.mem_append_right _ List.mem_cons_self
    · rcases (hopen f i).1 hd with hd | ⟨rfl, rfl⟩
      · rcases (hopen g i).1 hd' with hd' | ⟨-, rfl⟩
        · exact h.open_unique f g i hd hd'
        · exact absurd hd (hnew f)
      · rcases (hopen g _).1 hd' with hd' | ⟨rfl, -⟩
        · exact absurd hd' (hnew g)
        · rfl

/-- What is sent is new. -/
theorem sent_flow (h : s.Orderly) (hf : Flow s.machine s'.machine new gone)
    (hg : s.machine.Grows s'.machine) :
    (∀ i ∈ s.sent ++ new, i < s'.machine.transitions.length) ∧ (s.sent ++ new).Pairwise (· < ·) := by
  have hold : ∀ i ∈ s.sent, i < s'.machine.transitions.length :=
    fun i hi => Nat.lt_of_lt_of_le (h.sent_lt i hi) hg.length_le
  cases hf with
  | join _ hr _ _ _ =>
    obtain ⟨t, ht, -⟩ := Machine.record_eq_some.1 hr
    refine ⟨fun i hi => ?_, List.pairwise_append.2 ⟨h.sent_sorted, List.pairwise_singleton .., ?_⟩⟩
    · rcases List.mem_append.1 hi with hi | hi
      · exact hold i hi
      · rw [List.mem_singleton.1 hi]
        exact Machine.transition_lt ht
    · intro i hi j hj
      rw [List.mem_singleton.1 hj]
      exact h.sent_lt i hi
  | _ => rw [List.append_nil]; exact ⟨hold, h.sent_sorted⟩

/-- What is removed was active, and is aborted. -/
theorem removed_flow (h : s.Orderly) (hf : Flow s.machine s'.machine new gone)
    (hg : s.machine.Grows s'.machine) :
    ∀ i ∈ gone, i ∈ s.sent ∧ s'.machine.isAborted i = true := by
  have hone : ∀ (p : TransitionId → Bool),
      (∀ i ∈ s.machine.active.filter p, ∀ t, s'.machine.transition? i = some t → t.isAborted = true) →
        ∀ i ∈ s.machine.active.filter p, i ∈ s.sent ∧ s'.machine.isAborted i = true := by
    intro p hp i hi
    have hsent := h.active_sent (List.mem_filter.1 hi).1
    obtain ⟨t, ht⟩ := s'.machine.transition_of_lt (Nat.lt_of_lt_of_le (h.sent_lt i hsent) hg.length_le)
    refine ⟨hsent, ?_⟩
    unfold Machine.isAborted
    rw [ht]
    exact hp i hi t ht
  cases hf with
  | remove _ ha _ => exact hone _ ha
  | fail _ _ ha _ => exact hone _ ha
  | _ => exact fun _ hi => nomatch hi

theorem mem_tail_filter {p : TransitionId → Bool} {ids : List TransitionId} {i : TransitionId}
    (h : i ∈ (ids.filter p).tail) : i ∈ ids.tail := by
  cases ids with
  | nil => exact h
  | cons j ids =>
    by_cases hj : p j = true
    · rw [List.filter_cons_of_pos hj] at h
      exact (List.mem_filter.1 h).1
    · rw [List.filter_cons_of_neg hj] at h
      exact (List.mem_filter.1 (List.mem_of_mem_tail h)).1

/-- What joins others stays in its state. -/
theorem tail_flow (h : s.Orderly) (hf : Flow s.machine s'.machine new gone)
    (hg : s.machine.Grows s'.machine) :
    ∀ i ∈ s'.machine.active.tail, ∀ r, s'.machine.record? i = some r → r.changesState = false := by
  have hold : ∀ i ∈ s.machine.active.tail, ∀ r, s'.machine.record? i = some r →
      r.changesState = false := by
    intro i hi r hr
    have hlt := h.active_lt (List.mem_of_mem_tail hi)
    exact h.tail_stays i hi r (hg.record_of_lt hlt hr)
  cases hf with
  | stay ha _ => rw [ha]; exact hold
  | join hpermit hr ha _ _ =>
    rw [ha]
    cases hact : s.machine.active with
    | nil => exact fun _ hi => nomatch hi
    | cons j ids =>
      intro i hi r hri
      rcases List.mem_append.1 hi with hi | hi
      · exact hold i (by rw [hact]; exact hi) r hri
      -- what joins others is permitted only if it ends where the machine is
      · rw [List.mem_singleton.1 hi, hr] at hri
        obtain ⟨hfrom, hstay⟩ := Machine.permit_eq_ok.1 hpermit
        rcases hstay with hnil | hto
        · exact nomatch hact.symm.trans hnil
        · rw [← Option.some.inj hri]
          simp [Record.changesState, hfrom, hto]
  | leave _ ha _ => rw [ha]; exact fun i hi => hold i (mem_tail_filter hi)
  | remove ha _ _ => rw [ha]; exact fun i hi => hold i (mem_tail_filter hi)
  | fail _ ha _ _ => rw [ha]; exact fun _ hi => nomatch hi

/-- **Each deed keeps the active list orderly.** -/
theorem make (h : s.Orderly) {own : Option FutureId} {c : Change φ} (hc : Allowed s.machine own c) :
    (s.make c).Orderly := by
  have hf : Flow s.machine (s.make c).machine _ _ := hc.flow
  have hg : s.machine.Grows (s.make c).machine := c.grows
  have hsent := s.sent_make c
  have hgone := s.removed_make c
  obtain ⟨hlt, hsorted⟩ := h.sent_flow hf hg
  obtain ⟨hopen, hunique⟩ := h.open_flow hf
  have hremoved := h.removed_flow hf hg
  refine ⟨?_, ?_, ?_, hunique, ?_, ?_, h.active_flow hf hsent hgone, h.tail_flow hf hg⟩
  · rw [hsent]; exact hlt
  · rw [hsent]; exact hsorted
  · rw [hsent]; exact hopen
  · rw [hsent, hgone]
    intro i hi
    rcases List.mem_append.1 hi with hi | hi
    · exact List.mem_append_left _ (h.removed_sent i hi)
    · exact List.mem_append_left _ (hremoved i hi).1
  · rw [hgone]
    intro i hi
    rcases List.mem_append.1 hi with hi | hi
    · exact hg.isAborted (h.removed_aborted i hi)
    · exact (hremoved i hi).2

theorem ask (h : s.Orderly) (request : Request κ φ) : (s.ask request).Orderly := by
  have hsent := s.sent_ask request
  have hgone := s.removed_ask request
  refine ⟨?_, ?_, ?_, h.open_unique, ?_, ?_, ?_, h.tail_stays⟩
  · rw [hsent]; exact h.sent_lt
  · rw [hsent]; exact h.sent_sorted
  · rw [hsent]; exact h.open_sent
  · rw [hsent, hgone]; exact h.removed_sent
  · rw [hgone]; exact h.removed_aborted
  · rw [hsent, hgone]; exact h.active_eq

/-- A machine with which nothing was done. -/
theorem start (definition : Definition κ) (targetName : String) (idText : TransitionId → String) (state : String)
    (listeners : Nat) :
    Scene.Orderly (κ := κ) (φ := φ) ⟨.start definition targetName idText state listeners, []⟩ := by
  have hnone : ∀ f i, ¬ (Machine.start definition targetName idText state listeners :
      Machine κ φ).Dispatches f i := by
    rintro f i ⟨x, hx, -⟩
    exact nomatch hx
  have hempty : ∀ (P : TransitionId → Prop), ∀ i ∈ ([] : List TransitionId), P i :=
    fun _ _ h => nomatch h
  exact ⟨hempty _, .nil, fun f i hd => absurd hd (hnone f i), fun f _ i hd => absurd hd (hnone f i),
    hempty _, hempty _, rfl, hempty _⟩

end Scene.Orderly

variable {definition : Definition κ} {targetName state : String} {idText : TransitionId → String} {listeners : Nat}
  {w : World κ φ}

/-- **The active list is orderly at every point of every run.** -/
theorem Trail.orderly {s : Scene κ φ} (h : Trail (.start definition targetName idText state listeners) s) :
    s.Orderly :=
  h.induct (.start definition targetName idText state listeners) (fun _ _ _ hs hc => hs.make hc)
    fun _ request hs _ => hs.ask request

theorem Reaches.orderly (h : Reaches (.start definition targetName idText state listeners) w) :
    w.scene.Orderly := h.sound.trail.orderly

namespace Scene.Orderly

variable {s : Scene κ φ}

/-- An active transition that leads to another state is the oldest one. -/
theorem head_of_changesState (h : s.Orderly) {i : TransitionId} (hi : i ∈ s.machine.active)
    {r : Record} (hr : s.machine.record? i = some r) (hc : r.changesState = true) :
    s.machine.active.head? = some i := by
  cases ha : s.machine.active with
  | nil => rw [ha] at hi; exact nomatch hi
  | cons j ids =>
    rw [ha] at hi
    rcases List.mem_cons.1 hi with rfl | hi
    · rfl
    · have hstays := h.tail_stays i (by rw [ha]; exact hi) r hr
      rw [hc] at hstays
      exact nomatch hstays

theorem changesState_le_one (h : s.Orderly) :
    (s.machine.activeTransitions.filter (·.record.changesState)).length ≤ 1 := by
  unfold Machine.activeTransitions
  cases ha : s.machine.active with
  | nil => exact Nat.zero_le 1
  | cons j ids =>
    have htail : (ids.filterMap s.machine.transition?).filter (·.record.changesState) = [] := by
      rw [List.filter_eq_nil_iff]
      intro t ht
      obtain ⟨i, hi, hit⟩ := List.mem_filterMap.1 ht
      have hstays := h.tail_stays i (by rw [ha]; exact hi) t.record
        (Machine.record_eq_some.2 ⟨t, hit, rfl⟩)
      simp [hstays]
    cases hj : s.machine.transition? j with
    | none => rw [List.filterMap_cons_none hj, htail]; exact Nat.zero_le 1
    | some t =>
      rw [List.filterMap_cons_some hj, List.filter_cons, htail]
      split <;> simp

/-- Giving up an open dispatch that is not being polled. -/
theorem dropFuture (h : s.Orderly) {f : FutureId} {x : Future φ} (hf : s.machine.future? f = some x)
    (ho : x.isOpen = true) (hb : x.stage.isBusy = false) :
    s.machine.dropFuture f = (s.machine.closeFuture f).abortActive x.transition ∧
      (s.machine.dropFuture f).isAborted x.transition = true := by
  have hdrop : s.machine.dropFuture f = (s.machine.closeFuture f).abortActive x.transition := by
    rcases s.machine.dropFuture_cases f with hd | ⟨y, hy, -, ⟨hd, -⟩ | ⟨-, hd⟩⟩
    · unfold Machine.dropFuture
      rw [hf]
      simp only [hb, ← Future.isOpen_eq hb, ho]
      rfl
    · rw [← Option.some.inj (hf.symm.trans hy), ← Future.isOpen_eq hb, ho] at hd
      exact nomatch hd
    · rw [hd, Option.some.inj (hf.symm.trans hy)]
  refine ⟨hdrop, ?_⟩
  have hopen : s.machine.isOpen x.transition = true := Machine.isOpen_iff.2 ⟨f, x, hf, ho, rfl⟩
  by_cases ha : x.transition ∈ s.machine.active
  · obtain ⟨t, ht⟩ := s.machine.transition_of_lt (h.active_lt ha)
    have hbook : (s.machine.dropFuture f).transition? x.transition = some (t.mark .abort) := by
      rw [hdrop, Machine.transition_abortActive]
      change Option.map _ (s.machine.transition? x.transition) = _
      rw [ht, Option.map_some, if_pos ⟨rfl, ha⟩]
    unfold Machine.isAborted
    rw [hbook]
    exact t.isAborted_mark_abort
  · -- it is open but not active, so that it was removed by an abort before
    have hgone : x.transition ∈ s.removed := Classical.not_not.1 fun hr => ha (h.mem_active.2 ⟨hopen, hr⟩)
    exact (Change.grows (.dropFuture f)).isAborted (h.removed_aborted _ hgone)

end Scene.Orderly

/-- **Active transitions are distinct, and at most one of them leads to another state: the oldest.** -/
theorem active_distinct (h : Reaches (.start definition targetName idText state listeners) w) :
    w.machine.active.Nodup ∧ (∀ i ∈ w.machine.active, ∃ t, w.machine.transition? i = some t) ∧
      (w.machine.activeTransitions.filter (·.record.changesState)).length ≤ 1 ∧
      ∀ i ∈ w.machine.active, ∀ t, w.machine.transition? i = some t → t.record.changesState = true →
        w.machine.active.head? = some i := by
  have ho := h.orderly
  refine ⟨?_, fun i hi => w.machine.transition_of_lt (ho.active_lt hi), ho.changesState_le_one, ?_⟩
  · exact ho.active_sorted.imp fun hlt => Nat.ne_of_lt hlt
  · exact fun i hi t ht hc => ho.head_of_changesState hi (Machine.record_eq_some.2 ⟨t, ht, rfl⟩) hc

/-- The switch is poked while it waits for the callback that halts it. -/
theorem active_distinct_switch :
    ∃ w, Reaches Switch.machine w ∧ w.machine.active = [0, 1] ∧ w.waiting.length = 1 ∧
      w.machine.active.Nodup ∧ (∀ i ∈ w.machine.active, ∃ t, w.machine.transition? i = some t) ∧
      (w.machine.activeTransitions.filter (·.record.changesState)).length ≤ 1 ∧
      ∀ i ∈ w.machine.active, ∀ t, w.machine.transition? i = some t → t.record.changesState = true →
        w.machine.active.head? = some i := by
  have h : Reaches Switch.machine _ := (Reaches.start.begin (.send "halt" [])).begin (.poll 0)
  exact ⟨_, h.begin (.send "poke" []), rfl, rfl, active_distinct (h.begin (.send "poke" []))⟩

/-- **The active list holds the open dispatches**, in the order in which they were sent, but for those
that were removed by aborts. Nothing is active once no dispatch is open, and giving an open dispatch up
aborts its transition and changes nothing else. -/
theorem active_eq_open (h : Reaches (.start definition targetName idText state listeners) w) :
    w.machine.active =
        w.scene.sent.filter (fun i => w.machine.isOpen i && !w.scene.removed.contains i) ∧
      (∀ f i, w.machine.Dispatches f i → i ∈ w.scene.sent ∧ ∀ g, w.machine.Dispatches g i → g = f) ∧
      ((∀ f i, ¬ w.machine.Dispatches f i) → w.machine.isTransitioning = false) ∧
      ∀ f x, w.machine.future? f = some x → x.isOpen = true → x.stage.isBusy = false →
        (w.begin (.drop f)).machine.state = w.machine.state ∧
        (w.begin (.drop f)).machine.history = w.machine.history ∧
        (w.begin (.drop f)).machine.active = w.machine.active.filter (· != x.transition) ∧
        (w.begin (.drop f)).machine.isAborted x.transition = true ∧
        (∀ i, i ≠ x.transition →
          (w.begin (.drop f)).machine.transition? i = w.machine.transition? i) ∧
        ∀ g i, (w.begin (.drop f)).machine.Dispatches g i ↔ w.machine.Dispatches g i ∧ g ≠ f := by
  have ho := h.orderly
  refine ⟨ho.active_eq, fun f i hd => ⟨ho.open_sent f i hd, fun g hg => ho.open_unique g f i hg hd⟩,
    ?_, ?_⟩
  · intro hnone
    have hnil : w.machine.active = [] := by
      refine List.eq_nil_iff_forall_not_mem.2 fun i hi => ?_
      obtain ⟨f, hf⟩ := Machine.isOpen_iff.1 (ho.mem_active.1 hi).1
      exact hnone f i hf
    unfold Machine.isTransitioning
    rw [hnil]
    rfl
  · intro f x hf hopen hb
    obtain ⟨hdrop, haborted⟩ := ho.dropFuture hf hopen hb
    have hm : (w.begin (.drop f)).machine = (w.machine.closeFuture f).abortActive x.transition := hdrop
    have hkeeps := w.machine.dropFuture_keeps f
    refine ⟨?_, ?_, ?_, haborted, fun i hi => ?_, fun g i => ?_⟩
    · exact hkeeps.state_eq
    · exact hkeeps.history_eq
    · rw [hm]; exact Machine.active_abortActive x.transition
    · rw [hm, Machine.transition_abortActive]
      simp only [hi, false_and, if_false, Option.map_id']
      rfl
    · rw [hm, Machine.dispatches_of_futures (Machine.futures_abortActive x.transition)]
      exact Machine.dispatches_close rfl

/-- The switch is turned on and poked, and then it is no longer turned on. -/
theorem active_eq_open_switch :
    ∃ w, Reaches Switch.machine w ∧ w.scene.sent = [0, 1] ∧
      w.machine.active =
        w.scene.sent.filter (fun i => w.machine.isOpen i && !w.scene.removed.contains i) ∧
      (w.begin (.drop 0)).machine.active = [1] ∧ (w.begin (.drop 0)).machine.isAborted 0 = true := by
  have h : Reaches Switch.machine _ := (Reaches.start.begin (.send "run" [])).begin (.send "poke" [])
  obtain ⟨hactive, -, -, hdrop⟩ := active_eq_open h
  obtain ⟨-, -, hleft, haborted, -⟩ := hdrop 0 ⟨0, .dispatch, .unpolled⟩ rfl rfl rfl
  exact ⟨_, h, rfl, hactive, hleft, haborted⟩

end StateEngine
