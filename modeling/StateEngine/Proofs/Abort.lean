import StateEngine.Proofs.Active

/-!
# Transitions that were aborted

A transition that an abort removed from the active list keeps its future, which goes on performing it.
If its phases resolve, nothing else ever notices. If they reject, the dispatch fails like any other: it
aborts all that is active by then, and the error event is dispatched.

* `World.deeds`: what was done in one move.
* `Path.split_reject`: a move of such a future changes nothing but its book, up to the rejection.
* `aborted_inert_iff`: **an aborted transition is inert exactly if its phases do not reject**, or if
  nothing is active by then and its event is the error event.
-/

namespace StateEngine

variable {κ φ : Type} {m : Machine κ φ}

/-! ## Error dispatches -/

/-- A future keeps its transition and what it is for, unless it is made for the error event. -/
theorem Allowed.future_cases {own : Option FutureId} {c : Change φ} (h : Allowed m own c)
    {g : FutureId} {x : Future φ} (hx : (c.apply m).future? g = some x) :
    (∃ y, m.future? g = some y ∧ y.transition = x.transition ∧ y.purpose = x.purpose) ∨
      (∀ rejection, x.purpose ≠ .recovery rejection) ∨
      ∃ record, record ∈ m.definition.recordsFor errorEvent none ∧
        (c.apply m).record? x.transition = some record := by
  -- a change leaves the futures alone, closes one, or moves one to another stage
  have hkeep : ∀ {m' : Machine κ φ}, m'.futures = m.futures → m'.future? g = some x →
      ∃ y, m.future? g = some y ∧ y.transition = x.transition ∧ y.purpose = x.purpose := by
    intro m' hf hx
    rw [Machine.future_of_futures hf] at hx
    exact ⟨x, hx, rfl, rfl⟩
  have hclose : ∀ {m' : Machine κ φ} {f : FutureId}, m'.futures = m.futures.set f none →
      m'.future? g = some x →
      ∃ y, m.future? g = some y ∧ y.transition = x.transition ∧ y.purpose = x.purpose := by
    intro m' f hf hx
    rw [Machine.future_close hf] at hx
    split at hx
    · exact nomatch hx
    · exact ⟨x, hx, rfl, rfl⟩
  have hstage : ∀ {m' : Machine κ φ} {f : FutureId} {y : Future φ} {stage : Stage φ},
      m.future? f = some y → m'.futures = (m.setStage f stage).futures → m'.future? g = some x →
      ∃ y, m.future? g = some y ∧ y.transition = x.transition ∧ y.purpose = x.purpose := by
    intro m' f y stage hf hfutures hx
    rw [Machine.future_set (Machine.lt_of_future hf)
      (hfutures.trans (Machine.futures_setStage hf stage))] at hx
    split at hx
    · rename_i hg
      cases hx
      exact ⟨y, hg ▸ hf, rfl, rfl⟩
    · exact ⟨x, hx, rfl, rfl⟩
  cases h with
  | launch args _ _ =>
    have hnew := (Machine.future_append (m := m) rfl).symm.trans hx
    split at hnew
    · cases hnew
      exact .inr (.inl fun _ h => nomatch h)
    · exact .inl ⟨x, hnew, rfl, rfl⟩
  | addFuture id hp =>
    have hnew := (Machine.future_append (m := m) rfl).symm.trans hx
    split at hnew
    · cases hnew
      refine .inr (.inl fun rejection h => ?_)
      cases h
      exact nomatch hp
    · exact .inl ⟨x, hnew, rfl, rfl⟩
  | relaunch args hf hr ha =>
    have hnew := (Machine.future_set (m := m) (Machine.lt_of_future hf) rfl).symm.trans hx
    split at hnew
    · cases hnew
      exact .inr (.inr ⟨_, hr, Machine.record_eq_some.2 ⟨_, Machine.transition_relaunch .., rfl⟩⟩)
    · exact .inl ⟨x, hnew, rfl, rfl⟩
  | take hf _ => exact .inl (hstage hf rfl hx)
  | rest phase roster hp => exact .inl (hstage hp rfl hx)
  | finish _ _ => exact .inl (hclose rfl hx)
  | refuse _ => exact .inl (hclose rfl hx)
  | release _ _ _ _ => exact .inl (hclose rfl hx)
  | commit _ _ _ _ _ _ => exact .inl (hclose rfl hx)
  | fail _ _ _ _ _ => exact .inl (hclose (Machine.futures_fail _ _ none) hx)
  | failDispatch hp _ _ _ => exact .inl (hstage hp (Machine.futures_fail _ _ (some _)) hx)
  | drop f =>
    left
    rcases m.dropFuture_cases f with hd | ⟨y, -, -, ⟨-, hd⟩ | ⟨-, hd⟩⟩
    · exact hkeep (by rw [Change.apply, hd]) hx
    · exact hclose (f := f) (by rw [Change.apply, hd]; rfl) hx
    · refine hclose (f := f) ?_ hx
      rw [Change.apply, hd, Machine.futures_abortActive]
      rfl
  | abortActive id => exact .inl (hkeep (Machine.futures_abortActive id) hx)
  | abortAll => exact .inl (hkeep (by rw [Change.apply, Machine.abortAll_eq]) hx)
  | _ => exact .inl (hkeep rfl hx)

variable {definition : Definition κ} {targetName state : String} {idText : TransitionId → String} {listeners : Nat}

/-- **Error dispatches are of the error event.** -/
theorem Trail.recovery_event {s : Scene κ φ}
    (h : Trail (.start definition targetName idText state listeners) s) (hn : definition.Named)
    {f : FutureId} {x : Future φ} (hf : s.machine.future? f = some x) {rejection : Rejection}
    (hx : x.purpose = .recovery rejection) :
    ∃ record, s.machine.record? x.transition = some record ∧ record.event = errorEvent := by
  induction h generalizing f x with
  | start => exact nomatch hf
  | ask _ _ ih => exact ih hf hx
  | make ht hc ih =>
    rcases hc.future_cases hf with ⟨y, hy, htr, hp⟩ | hp | ⟨record, hr, hrec⟩
    · obtain ⟨record, hrec, he⟩ := ih hy (hp.trans hx)
      rw [htr] at hrec
      exact ⟨record, (Change.grows _).record hrec, he⟩
    · exact absurd hx (hp rejection)
    · rw [ht.definition_eq] at hr
      exact ⟨record, hrec, hn.event_eq hr⟩

/-! ## One move -/

/-- Whether a deed is the rejection of a dispatch. -/
def Deed.rejects : Deed κ φ → Bool
  | .changed _ (.fail _ _ _) => true
  | _ => false

/-- Whether a deed is a rejection for which the error event is dispatched. -/
def Deed.reports : Deed κ φ → Bool
  | .changed _ (.fail _ _ (some _)) => true
  | _ => false

theorem Deed.rejects_of_reports {d : Deed κ φ} (h : d.reports = true) : d.rejects = true := by
  unfold reports at h
  split at h
  · rfl
  · exact nomatch h

/-- Whether a machine is left as it was, but for the book of a transition. -/
structure Machine.Still (id : TransitionId) (m m' : Machine κ φ) : Prop where
  state_eq : m'.state = m.state
  history_eq : m'.history = m.history
  active_eq : m'.active = m.active
  others : ∀ i, i ≠ id → m'.transition? i = m.transition? i

theorem Machine.Still.refl (id : TransitionId) (m : Machine κ φ) : m.Still id m :=
  ⟨rfl, rfl, rfl, fun _ _ => rfl⟩

theorem Machine.Still.trans {id : TransitionId} {m₁ m₂ m₃ : Machine κ φ} (h₁ : m₁.Still id m₂)
    (h₂ : m₂.Still id m₃) : m₁.Still id m₃ :=
  ⟨h₂.state_eq.trans h₁.state_eq, h₂.history_eq.trans h₁.history_eq, h₂.active_eq.trans h₁.active_eq,
    fun i hi => (h₂.others i hi).trans (h₁.others i hi)⟩

/-- Whether no dispatch rejected between two scenes. -/
def Scene.Quiet (s s' : Scene κ φ) : Prop :=
  ∃ deeds, s'.trace = s.trace ++ deeds ∧ ∀ d ∈ deeds, d.rejects = false

theorem Scene.Quiet.refl (s : Scene κ φ) : s.Quiet s :=
  ⟨[], (List.append_nil _).symm, fun _ h => nomatch h⟩

theorem Scene.Quiet.make {s s' : Scene κ φ} {c : Change φ}
    (hc : (Deed.changed s.machine c).rejects = false) (h : (s.make c).Quiet s') : s.Quiet s' := by
  obtain ⟨deeds, hd, hq⟩ := h
  refine ⟨.changed s.machine c :: deeds, ?_, List.forall_mem_cons.2 ⟨hc, hq⟩⟩
  rw [hd, List.append_cons]
  rfl

theorem Scene.Quiet.ask {s s' : Scene κ φ} {request : Request κ φ} (h : (s.ask request).Quiet s') :
    s.Quiet s' := by
  obtain ⟨deeds, hd, hq⟩ := h
  refine ⟨.asked request :: deeds, ?_, List.forall_mem_cons.2 ⟨rfl, hq⟩⟩
  rw [hd, List.append_cons]
  rfl

/-- An operation that holds a future has it. -/
theorem Allowed.future_own {f : FutureId} {c : Change φ} (h : Allowed m (some f) c) :
    ∃ x, m.future? f = some x := by
  cases h with
  | note hp _ => exact ⟨_, hp⟩
  | relaunch _ hf _ _ => exact ⟨_, hf⟩
  | take hf _ => exact ⟨_, hf⟩
  | rest _ _ hp => exact ⟨_, hp⟩
  | finish hp _ => exact ⟨_, hp⟩
  | refuse hf => exact ⟨_, hf⟩
  | release hp _ _ _ => exact ⟨_, hp⟩
  | commit hp _ _ _ _ _ => exact ⟨_, hp⟩
  | fail hp _ _ _ _ => exact ⟨_, hp⟩
  | failDispatch hp _ _ _ => exact ⟨_, hp⟩

/-- Once its future is closed, an operation does nothing but ask. -/
theorem Path.of_closed {f : FutureId} {s s' : Scene κ φ} (hp : Path (some f) s s')
    (hf : s.machine.future? f = none) : s'.machine = s.machine ∧ s.Quiet s' := by
  induction hp with
  | refl s => exact ⟨rfl, .refl s⟩
  | make hc _ _ =>
    obtain ⟨x, hx⟩ := hc.future_own
    exact nomatch hf.symm.trans hx
  | ask _ _ ih =>
    obtain ⟨hm, hq⟩ := ih hf
    exact ⟨hm, hq.ask⟩

/-- What the future of a transition that is not active may do: write its book, rest, close, or fail. -/
theorem Allowed.aborted_cases {f : FutureId} {i : TransitionId} {c : Change φ}
    (h : Allowed m (some f) c) (hd : m.Dispatches f i) (ha : i ∉ m.active) :
    (m.Still i (c.apply m) ∧ (Deed.changed m c).rejects = false ∧
        ((c.apply m).Dispatches f i ∨ (c.apply m).future? f = none)) ∨
      ∃ rejection, c = .fail f i rejection := by
  obtain ⟨x, hx, ho, rfl⟩ := id hd
  have hopen : ∀ {y : Future φ}, m.future? f = some y → y = x :=
    fun hy => Option.some.inj (hy.symm.trans hx)
  cases h with
  | note hp hm =>
    cases hopen hp
    refine .inl ⟨⟨rfl, rfl, rfl, fun i hi => ?_⟩, rfl, .inl hd⟩
    rw [Change.apply, Machine.transition_note]
    simp only [hi, if_false, Option.map_id']
  | relaunch _ hf _ _ => cases hopen hf; cases ho
  | take hf hb =>
    have hbusy : (m.setStage f .busy).Dispatches f x.transition := by
      refine (Machine.dispatches_setStage hf ?_).2 hd
      exact (Future.isOpen_eq hb).symm
    exact .inl ⟨⟨rfl, rfl, rfl, fun _ _ => rfl⟩, rfl, .inl hbusy⟩
  | rest phase roster hp =>
    have hrest : (m.setStage f (.waiting phase roster)).Dispatches f x.transition := by
      refine (Machine.dispatches_setStage hp ?_).2 hd
      rfl
    exact .inl ⟨⟨rfl, rfl, rfl, fun _ _ => rfl⟩, rfl, .inl hrest⟩
  | finish hp hpd => cases hopen hp; exact absurd (ho.symm.trans hpd) Bool.noConfusion
  | refuse hf => cases hopen hf; cases ho
  | release hp hpd _ _ =>
    cases hopen hp
    refine .inl ⟨⟨rfl, rfl, ?_, fun _ _ => rfl⟩, rfl, .inr ?_⟩
    · exact List.filter_eq_self.2 fun i hi => bne_iff_ne.2 fun e => ha (e ▸ hi)
    · exact (Machine.future_close (m := m) rfl).trans (if_pos rfl)
  | commit hp hpd _ _ hact _ => cases hopen hp; exact absurd hact ha
  | fail hp hpd _ _ _ => cases hopen hp; exact .inr ⟨none, rfl⟩
  | failDispatch hp _ _ _ => cases hopen hp; exact .inr ⟨some _, rfl⟩

/-- **A move of a transition that is not active changes nothing but its book, up to the rejection.** -/
theorem Path.split_reject {f : FutureId} {i : TransitionId} {s s' : Scene κ φ}
    (hp : Path (some f) s s') (hd : s.machine.Dispatches f i) (ha : i ∉ s.machine.active) :
    (s.machine.Still i s'.machine ∧ s.Quiet s') ∨
      ∃ s₁ rejection, s.machine.Still i s₁.machine ∧ s.Quiet s₁ ∧ Path (some f) s s₁ ∧
        Allowed s₁.machine (some f) (.fail f i rejection) ∧
        Path (some f) (s₁.make (.fail f i rejection)) s' := by
  induction hp with
  | refl s => exact .inl ⟨.refl i s.machine, .refl s⟩
  | @make s s' c hc hp ih =>
    -- the move goes on with the future open, or closed for good, or it has come to the rejection
    rcases hc.aborted_cases hd ha with ⟨hstill, hq, hopen | hclosed⟩ | ⟨rejection, rfl⟩
    · have ha' : i ∉ (s.make c).machine.active := by
        rw [show (s.make c).machine.active = _ from hstill.active_eq]
        exact ha
      rcases ih hopen ha' with ⟨hs, hq'⟩ | ⟨s₁, rejection, hs, hq', hpath, hfail, hrest⟩
      · exact .inl ⟨hstill.trans hs, hq'.make hq⟩
      · exact .inr ⟨s₁, rejection, hstill.trans hs, hq'.make hq, hpath.make hc, hfail, hrest⟩
    · obtain ⟨hm, hq'⟩ := hp.of_closed hclosed
      exact .inl ⟨hm ▸ hstill, hq'.make hq⟩
    · exact .inr ⟨s, rejection, .refl i s.machine, .refl s, .refl s, hc, hp⟩
  | ask hr _ ih =>
    rcases ih hd ha with ⟨hs, hq'⟩ | ⟨s₁, rejection, hs, hq', hpath, hfail, hrest⟩
    · exact .inl ⟨hs, hq'.ask⟩
    · exact .inr ⟨s₁, rejection, hs, hq'.ask, hpath.ask hr, hfail, hrest⟩

/-! ## Inertness -/

/-- What was done between two points of a run. -/
def World.deeds (w w' : World κ φ) : List (Deed κ φ) := w'.trace.drop w.trace.length

theorem World.deeds_eq {w w' : World κ φ} {deeds : List (Deed κ φ)}
    (h : w'.trace = w.trace ++ deeds) : w.deeds w' = deeds := by
  rw [World.deeds, h, List.drop_left]

/-- **Whether a move leaves everything alone but a transition**: the state, the history, the active list
and the books of all other transitions, and dispatches no error event. -/
structure World.Inert (i : TransitionId) (w w' : World κ φ) : Prop where
  still : w.machine.Still i w'.machine
  silent : (w.deeds w').any Deed.reports = false

/-- Which rejections are reported. -/
theorem Allowed.reports_iff {s : Scene κ φ} {own : Option FutureId} {f : FutureId} {i : TransitionId}
    {rejection : Option Rejection} {record : Record}
    (h : Allowed s.machine own (.fail f i rejection))
    (ht : Trail (.start definition targetName idText state listeners) s) (hn : definition.Named)
    (hr : s.machine.record? i = some record) :
    rejection.isSome = true ↔ record.event ≠ errorEvent := by
  cases h with
  | failDispatch _ _ hrec he =>
    rw [Option.some.inj (hr.symm.trans hrec)]
    exact ⟨fun _ => he, fun _ => rfl⟩
  | @fail _ _ purpose _ _ hp hpd _ hrec he =>
    refine ⟨fun h => (nomatch h), fun hne => absurd ?_ hne⟩
    -- a dispatch reports all but the error event, an error dispatch is of the error event
    cases purpose with
    | dispatch => rw [Option.some.inj (hr.symm.trans hrec)]; exact he rfl
    | recovery rejection =>
      obtain ⟨r, hrr, hre⟩ := ht.recovery_event hn hp rfl
      rw [Option.some.inj (hr.symm.trans hrr)]
      exact hre
    | _ => exact nomatch hpd

/-- A dispatch that rejects when nothing else is active leaves everything else alone. -/
theorem Machine.still_fail {i : TransitionId} (h : m.active = []) (f : FutureId)
    (rejection : Option Rejection) : m.Still i (m.fail f i rejection) := by
  rw [fail_eq]
  refine ⟨rfl, rfl, h.symm, fun j _ => ?_⟩
  rw [h]
  rfl

theorem Scene.removed_of_prefix {s s' : Scene κ φ} (h : s.trace <+: s'.trace) {i : TransitionId}
    (hi : i ∈ s.removed) : i ∈ s'.removed := by
  obtain ⟨deeds, hd⟩ := h
  unfold removed
  rw [← hd, List.flatMap_append]
  exact List.mem_append_left _ hi

/-- What follows the rejection in its move. If it is not reported, nothing does. -/
theorem Path.after_reject {f : FutureId} {i : TransitionId} {rejection : Option Rejection}
    {s s' : Scene κ φ} (h : Path (some f) (s.make (.fail f i rejection)) s') :
    ∃ post, s'.trace = s.trace ++ .changed s.machine (.fail f i rejection) :: post ∧
      (rejection = none →
        (∀ d ∈ post, d.rejects = false) ∧ s'.machine = s.machine.fail f i none) := by
  have hcons : ∀ {post : List (Deed κ φ)}, s'.trace = (s.make (.fail f i rejection)).trace ++ post →
      s'.trace = s.trace ++ .changed s.machine (.fail f i rejection) :: post := by
    intro post hp
    rw [hp, List.append_cons]
    rfl
  cases rejection with
  | none =>
    -- the future is closed by the rejection, and nobody else moves
    have hclosed : (s.make (.fail f i none)).machine.future? f = none :=
      (Machine.future_close (Machine.futures_fail f i none)).trans (if_pos rfl)
    obtain ⟨hm, post, hp, hq⟩ := h.of_closed hclosed
    exact ⟨post, hcons hp, fun _ => ⟨hq, hm⟩⟩
  | some r =>
    obtain ⟨post, hp⟩ := h.trace_prefix
    exact ⟨post, hcons hp.symm, fun h => nomatch h⟩

theorem any_reports_of_quiet {deeds : List (Deed κ φ)} (h : ∀ d ∈ deeds, d.rejects = false) :
    deeds.any Deed.rejects = false ∧ deeds.any Deed.reports = false := by
  rw [List.any_eq_false, List.any_eq_false]
  have hno : ∀ d ∈ deeds, ¬ d.rejects = true := fun d hd => Bool.not_eq_true _ ▸ h d hd
  exact ⟨hno, fun d hd hr => hno d hd (Deed.rejects_of_reports hr)⟩

variable {w w' : World κ φ}

/-- **When a transition that was aborted is inert.** Whatever move its future makes, nothing else changes
and no error event is dispatched, unless its phases reject. Then all that is active is aborted, and the
error event is dispatched unless it is the event that rejects. -/
theorem aborted_inert_iff {spec : Json} {inline : List (InlineHook κ)} {initialState : Option String}
    (hb : Machine.build spec inline targetName idText initialState listeners = .ok m) (h : Reaches m w)
    {f : FutureId} {i : TransitionId} (hd : w.machine.Dispatches f i) (hr : i ∈ w.scene.removed)
    {record : Record} (hrec : w.machine.record? i = some record) (hn : w.Next (.poll f) w') :
    (w.Inert i w' ↔ ((w.deeds w').any Deed.rejects = true →
        w.machine.active = [] ∧ record.event = errorEvent)) ∧
      ((w.deeds w').any Deed.rejects = true →
        (∀ j ∈ w.machine.active, j ∉ w'.machine.active ∧ w'.machine.isAborted j = true) ∧
          ((w.deeds w').any Deed.reports = true ↔ record.event ≠ errorEvent)) := by
  obtain ⟨definition, state, rfl, hnamed⟩ := Machine.build_eq_ok hb
  have ho' := (h.next hn).orderly
  have ha : i ∉ w.machine.active := fun hi => (h.orderly.mem_active.1 hi).2 hr
  rcases (h.path hn).split_reject hd ha with ⟨hstill, deeds, htrace, hq⟩ |
    ⟨s, rejection, hstill, ⟨pre, hpre, hqpre⟩, hpath, hfail, hrest⟩
  · -- the phases do not reject: its own book is written and the host is asked, no more
    obtain ⟨hrejects, hreports⟩ := any_reports_of_quiet hq
    rw [← World.deeds_eq htrace] at hrejects hreports
    rw [hrejects]
    exact ⟨⟨fun _ h => (nomatch h), fun _ => ⟨hstill, hreports⟩⟩, fun h => nomatch h⟩
  · -- the phases reject: the deeds of the move split at the rejection
    obtain ⟨post, hpost, hnone⟩ := hrest.after_reject
    have hdeeds : w.deeds w' = pre ++ .changed s.machine (.fail f i rejection) :: post :=
      World.deeds_eq (by rw [World.trace, hpost, hpre, List.append_assoc]; rfl)
    have hrejects : (w.deeds w').any Deed.rejects = true := by
      rw [hdeeds, List.any_append, List.any_cons]
      simp [Deed.rejects]
    have hreports : (w.deeds w').any Deed.reports = true ↔ record.event ≠ errorEvent := by
      rw [← hfail.reports_iff (h.sound.trail.path hpath) hnamed (hpath.grows.record hrec), hdeeds,
        List.any_append, List.any_cons, (any_reports_of_quiet hqpre).2]
      cases rejection with
      | none => simp [Deed.reports, (any_reports_of_quiet (hnone rfl).1).2]
      | some r => simp [Deed.reports]
    -- nothing joins between the start of the move and the rejection
    have hgone : ∀ j ∈ w.machine.active, j ∈ w'.scene.removed := by
      intro j hj
      refine Scene.removed_of_prefix hrest.trace_prefix ?_
      rw [Scene.removed_make]
      refine List.mem_append_right _ (List.mem_filter.2 ⟨hstill.active_eq ▸ hj, bne_iff_ne.2 ?_⟩)
      rintro rfl
      exact ha hj
    refine ⟨⟨fun hinert _ => ⟨?_, ?_⟩, fun hc => ?_⟩, fun _ => ⟨fun j hj => ⟨?_, ?_⟩, hreports⟩⟩
    · -- if anything was active, it is gone and the move was not inert
      refine List.eq_nil_iff_forall_not_mem.2 fun j hj => ?_
      have hj' : j ∈ w'.machine.active := hinert.still.active_eq ▸ hj
      exact (ho'.mem_active.1 hj').2 (hgone j hj)
    · refine Classical.not_not.1 fun hne => ?_
      exact nomatch hinert.silent.symm.trans (hreports.2 hne)
    · obtain ⟨hnil, he⟩ := hc hrejects
      have hsilent : (w.deeds w').any Deed.reports = false :=
        Bool.eq_false_iff.2 fun h => hreports.1 h he
      have hrejection : rejection = none := by
        cases rejection with
        | none => rfl
        | some r =>
          rw [hdeeds, List.any_append, List.any_cons] at hsilent
          simp [Deed.reports] at hsilent
      subst hrejection
      refine ⟨hstill.trans ?_, hsilent⟩
      rw [show w'.machine = _ from (hnone rfl).2]
      exact Machine.still_fail (hstill.active_eq.trans hnil) f none
    · exact fun hj' => (ho'.mem_active.1 hj').2 (hgone j hj)
    · exact ho'.removed_aborted j (hgone j hj)

/-- The switch is about to be halted when that is aborted, and then it is turned on. The callback that
was to halt it has been called, and is going to fail. -/
def Switch.halting : World Unit Unit :=
  ((((World.start machine).begin (.send "halt" [])).begin (.abortActive 0)).begin
    (.send "run" [])).begin (.poll 0) |>.reply answers

theorem Switch.reaches_halting : Reaches machine halting :=
  ((((Reaches.start.begin (.send "halt" [])).begin (.abortActive 0)).begin
    (.send "run" [])).begin (.poll 0)).next (World.next_reply rfl answers)

/-- The halt was aborted, and yet its failure aborts what turns the switch on, and the switch fails. -/
theorem aborted_inert_iff_halting :
    0 ∈ Switch.halting.scene.removed ∧ Switch.halting.machine.active = [1] ∧
      Switch.halting.machine.state = "off" ∧
      ¬ Switch.halting.Inert 0 (Switch.halting.reply Switch.answers) ∧
      1 ∉ (Switch.halting.reply Switch.answers).machine.active ∧
      (Switch.halting.reply Switch.answers).machine.isAborted 1 = true ∧
      (Switch.halting.reply Switch.answers).machine.state = "failed" := by
  have hremoved : 0 ∈ Switch.halting.scene.removed := by decide
  have hrejects : (Switch.halting.deeds (Switch.halting.reply Switch.answers)).any Deed.rejects = true :=
    rfl
  obtain ⟨hinert, hfailed⟩ := aborted_inert_iff Switch.build_spec Switch.reaches_halting (f := 0)
    ⟨⟨0, .dispatch, .busy⟩, rfl, rfl, rfl⟩ hremoved rfl (World.next_reply rfl Switch.answers)
  obtain ⟨hgone, haborted⟩ := (hfailed hrejects).1 1 List.mem_cons_self
  refine ⟨hremoved, rfl, rfl, fun h => ?_, hgone, haborted, rfl⟩
  exact nomatch (hinert.1 h hrejects).1

end StateEngine
