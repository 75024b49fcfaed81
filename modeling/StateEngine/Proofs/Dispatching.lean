import StateEngine.Proofs.Performing

/-!
# Every operation does only what it may

One lemma for each function that operations are made of, from resolving an event to polling a future.
Together they give `Operation.safe`, which all that is proved about runs builds on.

* `select_safe`: a selected record is declared, and it may become active.
* `settle_safe`, `conclude_safe`, `recover_safe`: how a dispatch ends.
* `Operation.safe`: **every operation is safe**, on every machine.
-/

namespace StateEngine

open Program

variable {κ φ : Type} {own : Option FutureId} {I : Machine κ φ → Prop} {s : Scene κ φ}

/-! ## Selecting a record -/

theorem Definition.recordsFor_none {d : Definition κ} {event : String} {source : Option String}
    {record : Record} (h : record ∈ d.recordsFor event source) : record ∈ d.recordsFor event none := by
  unfold recordsFor at h ⊢
  cases hf : d.events.find? (·.name == event) with
  | none => rw [hf] at h; exact h
  | some found =>
    rw [hf, List.mem_filter] at h
    exact List.mem_filter.2 ⟨h.1, rfl⟩

/-- What is known of a record that was found for an event. -/
def Found (I : Machine κ φ → Prop) (event : String) (result : Except DispatchError Record)
    (s : Scene κ φ) : Prop :=
  I s.machine ∧
    ∀ record, result = .ok record → record ∈ s.machine.definition.recordsFor event none

theorem Found.error {event : String} {error : DispatchError} (hs : I s.machine) :
    Found I event (.error error) s := ⟨hs, fun _ h => nomatch h⟩

/-- A resolved record is one of the event. -/
theorem resolve_safe (hI : Stable own I) (event : String) (hs : I s.machine) :
    (resolve event).Safe own (Found I event) s := by
  unfold resolve
  refine .bind (.look ?_)
  dsimp only
  cases hc : s.machine.definition.recordsFor event (some s.machine.state) with
  | nil => exact .pure (.error hs)
  | cons first others =>
    -- guards may change the machine while they are read, but not its definition
    have hfirst := (firstPassing_within s.machine.state (first :: others)).safe (P := fun _ => False)
      (hI.and_definition s.machine.definition) (fun _ _ _ h => h.elim) ⟨hs, rfl⟩
    refine .bind (hfirst.mono fun result s' h => ?_)
    obtain ⟨hmem, hs', hd⟩ := h
    match result with
    | .error error => exact .pure (.error hs')
    | .ok none => exact .pure (.error hs')
    | .ok (some record) =>
      refine .pure ⟨hs', ?_⟩
      rintro _ ⟨⟩
      rw [hd]
      exact Definition.recordsFor_none (hc ▸ hmem record rfl)

/-- A selected record is one of the event, and it may become active. -/
theorem select_safe (hI : Stable own I) (event : String) (hs : I s.machine) :
    (select event).Safe own (fun result s' =>
      Found I event result s' ∧ ∀ record, result = .ok record → s'.machine.permit record = .ok ()) s := by
  unfold select
  refine .bind (.look ?_)
  split
  · exact .pure ⟨.error hs, fun _ h => nomatch h⟩
  · refine .bind ((resolve_safe hI event hs).mono fun result s' h => ?_)
    match result with
    | .error error => exact .pure ⟨.error h.1, fun _ h => nomatch h⟩
    | .ok record =>
      -- the machine is looked at again, for guards may have moved it
      refine .bind (.look ?_)
      cases ha : s'.machine.permit record with
      | error error => exact .pure ⟨.error h.1, fun _ h => nomatch h⟩
      | ok _ =>
        refine .pure ⟨h, ?_⟩
        rintro _ ⟨⟩
        exact ha

/-- Resolving an event only reads guards. -/
theorem resolve_within {P : Change φ → Prop} (event : String) :
    (resolve event : Program κ φ _).Within P fun _ => True := by
  refine Within.look.bind fun m _ => ?_
  dsimp only
  cases m.definition.recordsFor event (some m.state) with
  | nil => exact .pure trivial
  | cons first others =>
    refine (firstPassing_within m.state (first :: others)).bind fun result _ => ?_
    match result with
    | .error error => exact .pure trivial
    | .ok none => exact .pure trivial
    | .ok (some record) => exact .pure trivial

/-- Selecting a record only reads guards. -/
theorem select_within {P : Change φ → Prop} (event : String) :
    (select event : Program κ φ _).Within P fun _ => True := by
  refine Within.look.bind fun m _ => ?_
  split
  · exact .pure trivial
  · refine (resolve_within event).bind fun result _ => ?_
    match result with
    | .error error => exact .pure trivial
    | .ok record =>
      refine Within.look.bind fun m _ => ?_
      split
      · exact .pure trivial
      · exact .pure trivial

theorem send_safe (event : String) (args : List Json) :
    (send event args).Safe none (fun _ _ => True) s := by
  refine .bind ((select_safe .none event trivial).mono fun result s' h => ?_)
  match result with
  | .error error => exact .pure trivial
  | .ok record =>
    obtain ⟨⟨-, hd⟩, ha⟩ := h
    have hlaunch := Allowed.launch args ⟨event, hd record rfl⟩ (ha record rfl)
    exact .bind (.look (.bind (.make hlaunch (.pure trivial))))

theorem transitionFor_safe (event : String) (args : List Json) :
    (transitionFor event args).Safe none (fun _ _ => True) s := by
  refine .bind ((resolve_safe .none event trivial).mono fun result s' h => ?_)
  match result with
  | .error error => exact .pure trivial
  | .ok record =>
    exact .bind (.look (.bind (.make (.add args ⟨event, h.2 record rfl⟩) (.pure trivial))))

theorem canEnter_safe (target : String) : (canEnter target).Safe none (fun _ _ => True) s := by
  refine .bind (.look ?_)
  have hfirst := (firstPassing_within s.machine.state
    (s.machine.definition.between s.machine.state target)).safe (P := fun _ => False)
    (s := s) .none (fun _ _ _ h => h.elim) trivial
  exact .bind (hfirst.mono fun _ _ _ => .pure trivial)

theorem callbackIds_safe (id : TransitionId) (phase : Phase) :
    (callbackIds id phase).Safe none (fun _ _ => True) s := by
  refine .bind (.look ?_)
  cases s.machine.transition? id with
  | none => exact .pure trivial
  | some t =>
    have hfind := (callbacksFor_within t phase).safe (P := fun _ => False) (s := s)
      .none (fun _ _ _ h => h.elim) trivial
    exact .bind (hfind.mono fun _ _ _ => .pure trivial)

theorem makeFuture_safe (id : TransitionId) (phase : Option Phase) :
    (makeFuture id phase).Safe none (fun _ _ => True) s := by
  refine .bind (.look (.bind (.make (.addFuture id ?_) (.pure trivial))))
  cases phase with
  | none => rfl
  | some phase => rfl

/-! ## Commits -/

theorem Definition.hasState_of_lookupState {d : Definition κ} {name : String} {state : State}
    (h : d.lookupState name = .ok state) : d.hasState name = true := by
  unfold lookupState at h
  cases hf : d.states.find? (·.name == name) with
  | none => rw [hf] at h; exact nomatch h
  | some found =>
    have hname : found.name = name := by simpa using List.find?_some hf
    have hmem : found.name ∈ d.stateNames := List.mem_map_of_mem (List.mem_of_find?_eq_some hf)
    unfold hasState
    rw [List.contains_iff_mem, ← hname]
    exact hmem

/-- Listeners are told of what was committed. -/
theorem notifyAll_safe (change : StateChange) (listeners : List Nat) :
    ∀ {s : Scene κ φ}, (∀ f, own = some f → s.machine.Held f) →
      (∀ listener, Announced s.trace (.notify listener change)) →
      (notifyAll change listeners).Safe own (fun _ _ => True) s := by
  induction listeners with
  | nil => intro s _ _; exact .pure trivial
  | cons listener rest ih =>
    -- a listener may do anything but forget what was done
    intro s hh ha
    refine .bind (.ask (ha listener) hh fun s' hr ht _ => ih ?_ ?_)
    · intro f hf
      exact (hh f hf).of_slot (hr.slot f hf)
    · intro other event he
      obtain ⟨m, g, id, record, hm, h⟩ := ha other event he
      exact ⟨m, g, id, record, ht.subset hm, h⟩

theorem notify_safe (change : StateChange) (hh : ∀ f, own = some f → s.machine.Held f)
    (ha : ∀ listener, Announced s.trace (.notify listener change)) :
    (notify change).Safe own (fun _ _ => True) s :=
  .bind (.look (notifyAll_safe change _ hh ha))

theorem setState_safe (name : String) : (setState name).Safe none (fun _ _ => True) s := by
  refine .bind (.look ?_)
  cases hl : s.machine.definition.lookupState name with
  | error error => exact .pure trivial
  | ok state =>
    have hstate := Definition.hasState_of_lookupState hl
    refine .bind (.make (.setState hstate) (.bind ?_))
    refine (notify_safe ⟨none, s.machine.state, name⟩ ?_ ?_).mono fun _ _ _ => .pure trivial
    · intro f h
      exact nomatch h
    · intro listener event h
      exact nomatch h

variable {f : FutureId} {id : TransitionId} {purpose : Purpose} {record : Record}

/-- A future that was closed is held, for good. -/
theorem Machine.Performs.held_close {m : Machine κ φ} (h : m.Performs f id purpose) :
    (m.closeFuture f).Held f :=
  ⟨none, List.getElem?_set_self (lt_of_future h), fun _ h => nomatch h⟩

theorem settle_safe (hs : s.machine.Polling f id purpose record) (hd : purpose.isDispatch = true)
    (hk : s.machine.Settled id (.ok ())) :
    (settle f id record).Safe (some f) (fun _ _ => True) s := by
  refine .bind (.look ?_)
  split
  · rename_i h
    rw [Bool.and_eq_true, Bool.not_eq_true', Machine.isActive_iff] at h
    refine .bind (.make (.commit hs.performs hd hk hs.record_eq h.1 h.2) (notify_safe _ ?_ ?_))
    · -- the future is closed by now, so that nobody can poll it while listeners are notified
      rintro g ⟨⟩
      exact hs.performs.held_close
    · rintro listener event ⟨⟩
      exact ⟨s.machine, f, id, record, by simp [Scene.make], rfl, rfl, rfl⟩
  · rename_i h
    refine .make (.release hs.performs hd hk ?_) trivial
    rw [Bool.and_eq_true, Bool.not_eq_true', Machine.isActive_iff, not_and, Bool.not_eq_false] at h
    by_cases ha : id ∈ s.machine.active
    · exact .inr (h ha)
    · exact .inl ha

theorem rest_safe (hs : s.machine.Polling f id purpose record) (phase : Phase) (roster : Roster φ) :
    (rest f phase roster).Safe (some f) (fun _ _ => True) s :=
  .bind (.make (.rest phase roster hs.performs) (.pure trivial))

theorem finish_safe (hs : s.machine.Polling f id purpose record) (hd : purpose.isDispatch = false)
    (polled : Polled) (result : Except Rejection Unit) :
    (finish f polled result).Safe (some f) (fun _ _ => True) s := by
  cases result with
  | ok _ => exact .bind (.make (.finish hs.performs hd) (.pure trivial))
  | error rejection => exact .bind (.make (.finish hs.performs hd) (.pure trivial))

/-! ## Rejections -/

theorem recover_safe {rejection : Rejection} {advance : Advance φ}
    (hs : Performed f id (.recovery rejection) record advance s) :
    (recover f id record rejection advance).Safe (some f) (fun _ _ => True) s := by
  obtain ⟨hp, hk⟩ := hs
  match advance with
  | .waiting phase roster => exact rest_safe hp phase roster
  | .over (.ok ()) =>
    exact .bind ((settle_safe hp rfl (hk _ rfl)).mono fun _ _ _ => .pure trivial)
  | .over (.error other) =>
    refine .bind (.make (.fail hp.performs rfl (hk _ rfl) hp.record_eq ?_) (.pure trivial))
    exact fun h => nomatch h

/-- What an operation knows that dispatches the error event. -/
theorem stable_failed (rejection : Rejection) :
    Stable (κ := κ) (φ := φ) (some f) fun m =>
      m.future? f = some ⟨id, .dispatch, .failed rejection⟩ := by
  refine ⟨?_, fun h hr => hr.future.trans h⟩
  rintro m g h ⟨⟩
  exact Machine.held_of_busy h rfl

theorem Machine.transition_relaunch {m : Machine κ φ} (rejection : Rejection) (record : Record)
    (args : List Json) :
    (m.relaunch f rejection record args).transition? m.nextTransition = some (.fresh record args) :=
  List.getElem?_concat_length

theorem dispatchError_safe (t : Transition) (rejection : Rejection)
    (hs : s.machine.future? f = some ⟨id, .dispatch, .failed rejection⟩) :
    (dispatchError f id t rejection).Safe (some f) (fun _ _ => True) s := by
  refine .bind ((select_safe (stable_failed rejection) errorEvent hs).mono fun result s' h => ?_)
  obtain ⟨⟨hf, hd⟩, ha⟩ := h
  match result with
  | .error error => exact .bind (.make (.refuse hf) (.pure trivial))
  | .ok record =>
    -- from here on the future performs the transition of the error event
    have hrelaunch := Allowed.relaunch [errorPayload rejection (s'.machine.idText id) t] hf (hd record rfl)
      (ha record rfl)
    refine .bind (.look (.bind (.make hrelaunch (.bind ?_))))
    refine (startPhases_safe _ Phase.all ⟨?_, ?_⟩).mono fun advance s'' hs'' => recover_safe hs''
    · exact Machine.future_eq_some.2 (List.getElem?_set_self (Machine.lt_of_future hf))
    · exact Machine.record_eq_some.2 ⟨_, Machine.transition_relaunch .., rfl⟩

theorem Machine.future_fail {m : Machine κ φ} {x : Future φ} (h : m.future? f = some x)
    (id : TransitionId) (rejection : Rejection) :
    (m.fail f id (some rejection)).future? f = some { x with stage := .failed rejection } := by
  rw [future_of_futures (futures_fail f id (some rejection))]
  exact future_setStage h (.failed rejection)

theorem conclude_safe {t : Transition} {advance : Advance φ}
    (hs : Performed f id .dispatch t.record advance s) :
    (conclude f id t advance).Safe (some f) (fun _ _ => True) s := by
  obtain ⟨hp, hk⟩ := hs
  match advance with
  | .waiting phase roster => exact rest_safe hp phase roster
  | .over (.ok ()) =>
    exact .bind ((settle_safe hp rfl (hk _ rfl)).mono fun _ _ _ => .pure trivial)
  | .over (.error rejection) =>
    unfold conclude
    simp only
    split
    · rename_i he
      exact .bind (.make (.fail hp.performs rfl (hk _ rfl) hp.record_eq fun _ => he) (.pure trivial))
    · rename_i he
      refine .bind (.make (.failDispatch hp.performs (hk _ rfl) hp.record_eq he) ?_)
      exact dispatchError_safe t rejection (Machine.future_fail hp.performs id rejection)

/-! ## Polls -/

theorem pollFrom_safe {t : Transition} (stage : Stage φ)
    (hs : s.machine.Polling f id purpose t.record) :
    (pollFrom f id t purpose stage).Safe (some f) (fun _ _ => True) s := by
  cases purpose with
  | phase phase =>
    have hphase := (advancePhase_within id t phase stage).safe
      (Machine.Polling.stable f id (.phase phase) t.record) (fun m c h hc => h.note hc.notes) hs
    refine .bind (hphase.mono fun advance s' hs' => ?_)
    obtain ⟨phase, roster⟩ | result := advance
    · exact rest_safe hs'.2 phase roster
    · exact finish_safe hs'.2 rfl _ result
  | perform =>
    refine .bind ((advance_safe t stage hs).mono fun advance s' hs' => ?_)
    obtain ⟨phase, roster⟩ | result := advance
    · exact rest_safe hs'.1 phase roster
    · exact finish_safe hs'.1 rfl _ result
  | dispatch => exact .bind ((advance_safe t stage hs).mono fun advance s' hs' => conclude_safe hs')
  | recovery rejection =>
    exact .bind ((advance_safe t stage hs).mono fun advance s' hs' => recover_safe hs')

theorem poll_safe (f : FutureId) (s : Scene κ φ) :
    (poll f).Safe (some f) (fun _ _ => True) s := by
  unfold poll
  refine .bind (.look ?_)
  cases hf : s.machine.future? f with
  | none => exact .pure trivial
  | some x =>
    obtain ⟨id, purpose, stage⟩ := x
    cases hb : stage.isBusy with
    | true => simp only [hb]; exact .pure trivial
    | false =>
      -- the future is taken, so that it cannot be polled again until this poll ends
      simp only [hb]
      cases ht : s.machine.transition? id with
      | none => exact .pure trivial
      | some t =>
        refine .bind (.make (.take hf hb) (.bind ((pollFrom_safe stage ⟨?_, ?_⟩).mono ?_)))
        · exact Machine.future_setStage hf .busy
        · exact Machine.record_eq_some.2 ⟨t, ht, rfl⟩
        · exact fun _ _ _ => .pure trivial

/-- **Every operation does only what it may.** -/
theorem Operation.safe (op : Operation) (s : Scene κ φ) :
    op.program.Safe op.own (fun _ _ => True) s := by
  cases op with
  | send event args => exact send_safe event args
  | transitionFor event args => exact transitionFor_safe event args
  | perform id phase => exact makeFuture_safe id phase
  | callbacksFor id phase => exact callbackIds_safe id phase
  | poll f => exact poll_safe f s
  | drop f => exact .make (.drop f) trivial
  | abort id => exact .make (.abort id) trivial
  | abortActive id => exact .make (.abortActive id) trivial
  | abortAll => exact .make .abortAll trivial
  | canEnter target => exact canEnter_safe target
  | setState name => exact setState_safe name
  | subscribe => exact .make .subscribe trivial
  | wake => exact .make .wake trivial

end StateEngine
