import StateEngine.Proofs.ErrorEvent
import StateEngine.Proofs.Listening
import StateEngine.Proofs.Rejection
import StateEngine.Proofs.Turns

/-!
# Machines that fail

The default error event leads from every state to the failed one, and nothing is called on the way unless a
state has hooks. So a poll in which a dispatch rejects has the machine in the failed state when it ends, and
it waits for nothing in between but the listeners, which are told once the machine has failed.

* `RejectPoint`, `Course.concludes`: **what a poll goes on with** where its dispatch rejects.
* `Unasked`, `World.proceed_goes`: programs that ask for nothing come to their end in one move.
* `Machine.Fails`, `dispatchError_fails`: **dispatching the default error event takes the machine to the failed
  state**.
* `World.Concludes`: a move, and what follows it while listeners only return.
* `rejection_fails`: **the poll in which a dispatch rejects yields the rejection**, and the machine has failed.
-/

namespace StateEngine

open Program

variable {κ φ α β : Type} {m : Machine κ φ} {f : FutureId} {i : TransitionId} {purpose : Purpose}
  {s s' : Scene κ φ} {r : Rejection} {t : Transition} {record : Record}

/-! ## Where a dispatch rejects -/

/-- Whether a future is no dispatch, or one that has rejected: it will not perform the transition of a
dispatch any more. -/
def Machine.PastDispatch (m : Machine κ φ) (f : FutureId) : Prop :=
  f < m.futures.length ∧
    ∀ x, m.future? f = some x → x.purpose = .dispatch → ∃ r, x.stage = .failed r

theorem Machine.PastDispatch.not_performs (h : m.PastDispatch f) : ¬ m.Performs f i .dispatch := by
  intro hp
  obtain ⟨r, hr⟩ := h.2 _ hp rfl
  exact nomatch hr

theorem Allowed.pastDispatch {own : Option FutureId} {c : Change φ} (h : Allowed m own c)
    (hp : m.PastDispatch f) : (c.apply m).PastDispatch f := by
  obtain ⟨hlt, hpast⟩ := hp
  refine ⟨Nat.lt_of_lt_of_le hlt c.length_futures_le, fun y hy hd => ?_⟩
  cases hf : m.future? f with
  | none =>
    rcases h.turn_none hf with hnone | ⟨hle, -⟩
    · exact nomatch hnone.symm.trans hy
    · exact absurd hlt (Nat.not_lt.2 hle)
  | some x =>
    have hturn := h.turn hf
    rw [hy] at hturn
    cases hturn with
    | stays _ => exact hpast y hf hd
    | moves stage _ _ hx _ =>
      obtain ⟨r, hr⟩ := hpast x hf hd
      exact absurd hr (hx r)
    | reports _ _ _ _ => exact ⟨_, rfl⟩
    | recovers _ _ _ => exact nomatch hd

theorem Trail.pastDispatch (hs : Trail m s) (hs' : Trail m s') (hp : s.trace <+: s'.trace)
    (h : s.machine.PastDispatch f) : s'.machine.PastDispatch f :=
  hs.later hs' hp (I := fun s => s.machine.PastDispatch f) (fun _ _ _ _ hi hc => hc.pastDispatch hi)
    (fun _ _ hi => hi) h

/-- **What a poll goes on with where the transition that it dispatches rejects**: it concludes. -/
def RejectPoint (f : FutureId) : Program κ φ (Option Polled) → Scene κ φ → Prop
  | .change (.note i (.reject r)) next, s => s.machine.Performs f i .dispatch →
      ∃ t, s.machine.record? i = some t.record ∧
        next = (conclude f i t (.over (.error r)) >>= fun polled => pure (some polled))
  | _, _ => True

theorem RejectPoint.lenient : Lenient f (RejectPoint (κ := κ) (φ := φ) f) := by
  refine ⟨fun c next s hc => ?_, fun request resume s _ => trivial⟩
  cases c with
  | note i mark =>
    cases mark with
    | reject r => exact nomatch hc
    | _ => trivial
  | _ => trivial

/-- A poll that is past its dispatch comes to no more points at which this rejects. -/
theorem Program.Safe.past {p : Program κ φ (Option Polled)}
    (h : p.Safe (some f) (fun _ _ => True) s) (ht : Trail m s) (hp : s.machine.PastDispatch f) :
    p.Each (Amid m (some f)) (RejectPoint f) s := by
  refine (h.each ht).course.mono fun q s' hq => ?_
  obtain ⟨⟨ht', -⟩, hg⟩ := hq
  have hpast := ht.pastDispatch ht' hg.trace_prefix hp
  unfold RejectPoint
  split
  · exact fun hperforms => absurd hperforms hpast.not_performs
  · trivial

/-- The points of a dispatch that concludes. -/
theorem conclude_rejects {advance : Advance φ} (h : s.Performing m f i .dispatch t)
    (hk : advance.Known i s.machine) :
    (conclude f i t advance >>= fun polled => pure (some polled)).Each (Amid m (some f)) (RejectPoint f) s := by
  match advance with
  | .waiting phase roster => exact ⟨trivial, trivial⟩
  | .over (.ok ()) =>
    unfold conclude
    rw [LawfulMonad.bind_assoc]
    exact (settle_calm h rfl (hk _ rfl)).calm RejectPoint.lenient fun _ _ _ => trivial
  | .over (.error r) =>
    unfold conclude
    dsimp only
    split
    · exact ⟨trivial, trivial⟩
    · rename_i he
      have hfailed := Machine.future_fail h.polling.performs i r
      -- once it has rejected, the future is past its dispatch
      refine ⟨trivial, Safe.past (.bind ((dispatchError_safe t r hfailed).mono fun _ _ _ => .pure trivial))
        (h.trail.make (.failDispatch h.polling.performs (hk _ rfl) h.polling.record_eq he))
        ⟨Machine.lt_of_future hfailed, fun x hx _ => ?_⟩⟩
      cases Option.some.inj (hfailed.symm.trans hx)
      exact ⟨r, rfl⟩

theorem conclude_follows : Follows m f i .dispatch t (RejectPoint f) fun advance =>
    conclude f i t advance >>= fun polled => pure (some polled) :=
  ⟨fun _ _ h hk _ => conclude_rejects h hk, fun _ _ h _ => ⟨t, h.polling.record_eq, rfl⟩⟩

/-- **The points of a poll at which its dispatch rejects.** -/
theorem poll_rejects (ht : Trail m s) : (poll f).Each (Amid m (some f)) (RejectPoint f) s := by
  refine Each.look ?_
  cases hf : s.machine.future? f with
  | none => exact trivial
  | some x =>
    obtain ⟨i, purpose, stage⟩ := x
    cases hb : stage.isBusy with
    | true => simp only [hb]; exact trivial
    | false =>
      simp only [hb]
      cases htr : s.machine.transition? i with
      | none => exact trivial
      | some t =>
        have hperforming : (s.make (.setStage f .busy)).Performing m f i purpose t :=
          ⟨ht.make (.take hf hb), ⟨Machine.future_setStage hf .busy,
            Machine.record_eq_some.2 ⟨t, htr, rfl⟩⟩, [], htr⟩
        refine Each.make trivial ?_
        by_cases hp : purpose = .dispatch
        · subst hp
          unfold pollFrom
          dsimp only
          rw [LawfulMonad.bind_assoc]
          exact conclude_follows.advance RejectPoint.lenient stage hperforming
        · -- the future is no dispatch
          refine Safe.past (.bind ((pollFrom_safe stage hperforming.polling).mono fun _ _ _ => .pure trivial))
            hperforming.trail ⟨Machine.lt_of_future hperforming.polling.performs, fun x hx hd => ?_⟩
          cases Option.some.inj (hperforming.polling.performs.symm.trans hx)
          exact absurd hd hp

/-- **Where the transition of a dispatch rejects, the poll concludes.** -/
theorem Course.concludes {next : Program κ φ (Option Polled)}
    (h : Course m (.poll f) (.change (.note i (.reject r)) next) s)
    (hp : s.machine.Performs f i .dispatch) :
    ∃ t, s.machine.record? i = some t.record ∧
      next = (conclude f i t (.over (.error r)) >>= fun polled => pure (some polled)) := by
  obtain ⟨w, hw, hg⟩ := h
  have hpoint : RejectPoint f (.change (.note i (.reject r)) next) s :=
    ((poll_rejects hw.sound.trail).goes hg).1
  exact hpoint hp

/-! ## Programs that ask for nothing -/

/-- No request is ever answered: an account of programs that ask for nothing. -/
def Unasked : Response κ φ := fun _ _ _ _ => False

/-- An operation that asks for nothing is there in the same move. -/
theorem World.proceed_goes (op : Operation) {p q : Program κ φ op.Result} (h : p.Goes Unasked s q s')
    (waiting : List (Waiting κ φ)) : proceed op p ⟨s, waiting⟩ = proceed op q ⟨s', waiting⟩ ∧
      p.outcome? s.machine = q.outcome? s'.machine := by
  induction h with
  | refl p s => exact ⟨rfl, rfl⟩
  | look _ ih => exact ih
  | change _ ih => exact ih
  | ask hr _ _ => exact hr.elim

/-! ## The error event -/

theorem startPhase_goes {phase : Phase} (h : s.machine.definition.listed t.record phase = []) :
    (startPhase i t phase).Goes Unasked s (.done (.over (.ok ()))) (s.make (.note i .begin)) := by
  have hfound : (callbacksFor t phase).Goes Unasked s (.done (.ok [])) s := by
    refine .of_look ?_
    rw [h]
    exact .refl _ s
  exact (hfound.bind _).trans (.change (.refl _ _))

/-- **Phases in which nothing is called** are over at once, and leave only notes. -/
theorem startPhases_goes (phases : List Phase) :
    ∀ {s : Scene κ φ}, (∀ phase, s.machine.definition.listed t.record phase = []) →
      ∃ s', (startPhases i t phases).Goes Unasked s (.done (.over (.ok ()))) s' ∧
        s.machine.Noted i s'.machine := by
  induction phases with
  | nil =>
    intro s _
    exact ⟨s.make (.note i .resolve), .change (.refl _ _), s.machine.noted_resolve i⟩
  | cons phase rest ih =>
    intro s h
    have hbegin : s.machine.Noted i (s.make (.note i .begin)).machine := Notes.noted ⟨.begin, nofun, rfl⟩ _
    obtain ⟨s', hg, hnoted⟩ := ih (s := s.make (.note i .begin)) h
    exact ⟨s', ((startPhase_goes (h phase)).bind _).trans hg, hbegin.trans hnoted⟩

/-- The one record of an event is selected if it has no guard and may become active. -/
theorem select_goes {event : String} (he : s.machine.definition.hasEvent event = true)
    (hr : s.machine.definition.recordsFor event (some s.machine.state) = [record])
    (hg : record.isGuarded = false) (hp : s.machine.permit record = .ok ()) :
    (select event).Goes Unasked s (.done (.ok record)) s := by
  have hresolve : (resolve event).Goes Unasked s (.done (.ok record)) s := by
    refine .of_look ?_
    simp only [hr, firstPassing, hg]
    exact .refl _ s
  refine .of_look ?_
  rw [he]
  refine (hresolve.bind _).trans (.of_look ?_)
  rw [hp]
  exact .refl _ s

/-- A dispatch whose transition is active, and was not aborted, is committed. -/
theorem settle_goes (record : Record) (ha : i ∈ s.machine.active) (hn : s.machine.isAborted i = false) :
    (settle f i record).Goes Unasked s (notify ⟨some record.event, s.machine.state, record.toState⟩)
      (s.make (.commit f i record)) := by
  refine .of_look ?_
  rw [if_pos (by rw [Machine.isActive_iff.2 ha, hn]; rfl)]
  exact .change (.refl _ _)

/-- An error dispatch that succeeds is committed, tells the listeners and yields the first rejection. -/
theorem recover_tells (record : Record) (ha : i ∈ s.machine.active)
    (hn : s.machine.isAborted i = false) : ∃ q change,
      (recover f i record r (.over (.ok ()))).Goes Unasked s q (s.make (.commit f i record)) ∧
      q.Tells change (.rejected r) (List.range s.machine.listeners) (s.make (.commit f i record)).machine := by
  have hsettle := (settle_goes (f := f) record ha hn).bind fun _ =>
    (pure (.rejected r) : Program κ φ Polled)
  exact ⟨_, _, hsettle, (notify_tells (s.machine.commit f i record)).map fun _ => Polled.rejected r⟩

/-- **Whether a machine has failed**: it is in the failed state, nothing is active, and the history has one
more entry, for the way there. -/
structure Machine.Fails (m m' : Machine κ φ) : Prop where
  state_eq : m'.state = failedState
  active_eq : m'.active = []
  history_eq : m'.history.entries = m.history.entries ++ [⟨errorEvent, m.state, failedState, ()⟩]

/-- Whether the error event leads from the current state to the failed one, and nothing is called on the
way. -/
structure Machine.MayFail (m : Machine κ φ) : Prop where
  hasEvent : m.definition.hasEvent errorEvent = true
  records : m.definition.recordsFor errorEvent (some m.state) = [Reading.failure m.state]
  hooks : m.definition.hooks = []

/-- A rejection leaves a machine where it may fail. -/
theorem Machine.MayFail.fail (h : m.MayFail) (f : FutureId) (i : TransitionId) (rejection : Option Rejection) :
    (m.fail f i rejection).MayFail := by
  have hkeeps := Machine.fail_keeps (m := m) f i rejection
  refine ⟨?_, ?_, ?_⟩
  · rw [hkeeps.definition_eq]
    exact h.hasEvent
  · rw [hkeeps.definition_eq, hkeeps.state_eq]
    exact h.records
  · rw [hkeeps.definition_eq]
    exact h.hooks

/-- Nothing is called for the record of the default error event if there are no hooks. -/
theorem Definition.listed_failure {d : Definition κ} (h : d.hooks = []) (state : String) (phase : Phase) :
    d.listed (Reading.failure state) phase = [] := by
  have hcallbacks : (Reading.failure state).callbacks.get phase = [] := PhaseTable.get_ofFn _ phase
  unfold listed listedHooks hooksOf
  rw [h, hcallbacks]
  cases (Reading.failure state).hookState? phase <;> rfl

/-- **Dispatching the default error event** takes a machine with nothing active to the failed state. Then it
only tells its listeners, and yields the rejection. -/
theorem dispatchError_fails (h : s.machine.MayFail) (ha : s.machine.active = []) :
    ∃ q s' change, (dispatchError f i t r).Goes Unasked s q s' ∧
      q.Tells change (.rejected r) (List.range s'.machine.listeners) s'.machine ∧
      s.machine.Fails s'.machine := by
  have hpermit : s.machine.permit (Reading.failure s.machine.state) = .ok () :=
    Machine.permit_eq_ok.2 ⟨rfl, .inl ha⟩
  have hselect := select_goes h.hasEvent h.records rfl hpermit
  -- no phase of the transition calls anything, so that it is performed at once
  obtain ⟨s₂, hperform, hnoted⟩ := startPhases_goes (i := s.machine.nextTransition)
    (t := .fresh (Reading.failure s.machine.state) [errorPayload r (s.machine.idText i) t]) Phase.all
    (s := s.make (.relaunch f r (Reading.failure s.machine.state) [errorPayload r (s.machine.idText i) t]))
    fun phase => Definition.listed_failure h.hooks _ phase
  have hactive : s₂.machine.active = [s.machine.nextTransition] := by
    rw [hnoted.eq]
    exact congrArg (· ++ [s.machine.nextTransition]) ha
  have hfresh : s₂.machine.isAborted s.machine.nextTransition = false := by
    obtain ⟨t', ht', -, -, haborted⟩ := hnoted.book _ (Machine.transition_relaunch ..)
    unfold Machine.isAborted
    rw [ht']
    exact haborted
  -- nothing could abort it meanwhile, so that it is committed
  obtain ⟨q, change, hrecover, htells⟩ := recover_tells (f := f) (r := r)
    (Reading.failure s.machine.state) (hactive ▸ List.mem_singleton.2 rfl) hfresh
  refine ⟨q, _, change, (hselect.bind _).trans (.look (.change ((hperform.bind _).trans hrecover))),
    htells, rfl, ?_, ?_⟩
  · change s₂.machine.active.filter (· != s.machine.nextTransition) = []
    rw [hactive]
    simp
  · change s₂.machine.history.entries ++ [⟨errorEvent, s₂.machine.state, failedState, ()⟩] = _
    rw [hnoted.eq]
    rfl

/-- **A dispatch that rejects takes a machine to the failed state**, whatever else was active. -/
theorem conclude_fails (h : s.machine.MayFail) (he : t.record.event ≠ errorEvent) :
    ∃ q s' change, (conclude f i t (.over (.error r))).Goes Unasked s q s' ∧
      q.Tells change (.rejected r) (List.range s'.machine.listeners) s'.machine ∧
      s.machine.Fails s'.machine := by
  have hkeeps : s.machine.Keeps (s.make (.fail f i (some r))).machine := Machine.fail_keeps f i (some r)
  have hactive : (s.make (.fail f i (some r))).machine.active = [] := by
    change (s.machine.fail f i (some r)).active = []
    rw [Machine.fail_eq]
  obtain ⟨q, s', change, hgoes, htells, hfails⟩ :=
    dispatchError_fails (f := f) (i := i) (r := r) (t := t) (h.fail f i (some r)) hactive
  refine ⟨q, s', change, ?_, htells, hfails.state_eq, hfails.active_eq, ?_⟩
  · unfold conclude
    dsimp only
    rw [if_neg he]
    exact .change hgoes
  · -- the rejection itself does not move the machine
    rw [hfails.history_eq, hkeeps.history_eq, hkeeps.state_eq]

/-! ## Listeners that return -/

/-- **A move of an operation, and what follows it while listeners are notified**, and only return: the world
before it, the world after it, and the world in which the operation ends with a result. -/
inductive World.Concludes (op : Operation) (result : op.Result) :
    World κ φ → World κ φ → World κ φ → Prop where
  | ends {u v : World κ φ} : u.Yields op result v → Concludes op result u v v
  | notifies {u v : World κ φ} {scene : Scene κ φ} {listener : Nat} {change : StateChange}
      {resume : Unit → Program κ φ op.Result} {older : List (Waiting κ φ)} :
      u.Next op ⟨scene, ⟨op, .notify listener change, resume⟩ :: older⟩ →
      Concludes op result ⟨scene, ⟨op, .notify listener change, resume⟩ :: older⟩
        (proceed op (resume ()) ⟨scene, older⟩) v →
      Concludes op result u ⟨scene, ⟨op, .notify listener change, resume⟩ :: older⟩ v

theorem World.Concludes.reaches {op : Operation} {result : op.Result} {u u' v : World κ φ}
    (h : u.Concludes op result u' v) (hu : Reaches m u) : Reaches m v := by
  induction h with
  | ends hy => exact hu.next hy.next
  | notifies hn _ ih => exact ih (hu.next hn)

/-- **An operation that only tells listeners** concludes once they have returned, and leaves the machine
alone. -/
theorem World.concludes_of_tells (op : Operation) {p : Program κ φ op.Result} {result : op.Result}
    {change : StateChange} {listeners : List Nat} {machine : Machine κ φ}
    (hp : p.Tells change result listeners machine) :
    ∀ {u w : World κ φ}, w.machine = machine → u.Next op (proceed op p w) →
      (∀ a, p.outcome? w.machine = some a → u.Yields op a (proceed op p w)) →
      ∃ v, u.Concludes op result (proceed op p w) v ∧ v.machine = w.machine := by
  induction hp with
  | done machine =>
    intro u w _ _ hyields
    exact ⟨w, .ends (hyields result rfl), rfl⟩
  | look _ ih =>
    rintro u w rfl hn hyields
    exact ih rfl hn hyields
  | @ask listener listeners resume machine _ ih =>
    rintro u w rfl hn _
    -- the listener is told next, and the operation goes on when it returns
    have hreturns : (⟨w.scene.ask (.notify listener change),
        [] ++ ⟨op, .notify listener change, resume⟩ :: w.waiting⟩ : World κ φ).Next op _ :=
      .answer _ [] ⟨op, .notify listener change, resume⟩ w.waiting ()
    obtain ⟨v, hv, hm⟩ := ih w.machine (w := ⟨w.scene.ask (.notify listener change), w.waiting⟩) rfl
      hreturns fun a ho => .answer (x := ⟨op, .notify listener change, resume⟩) ho
    exact ⟨v, .notifies hn hv, hm⟩

/-! ## Rejections -/

variable {spec : Json} {inline : List (InlineHook κ)} {targetName : String}
  {idText : TransitionId → String} {initialState : Option String} {listeners : Nat}

/-- A machine with the default error event and without hooks may fail in each of its states. -/
theorem Machine.mayFail_of_build
    (hb : Machine.build spec inline targetName idText initialState listeners = .ok m)
    (hdefault : errorEvent ∉ (Reading.events spec).map (·.1)) (hhooks : m.definition.hooks = [])
    {m' : Machine κ φ} (hd : m'.definition = m.definition) (hknown : m'.state ∈ m.definition.stateNames) :
    m'.MayFail := by
  have hcompile := Machine.compile_of_build hb
  have hl := Reading.LacksError.of_compile hdefault hcompile
  refine ⟨?_, ?_, hd ▸ hhooks⟩
  · unfold Definition.hasEvent
    rw [hd, Definition.eventNames_compile hcompile, hl.events_eq]
    simp
  · rw [hd]
    exact Definition.recordsFor_errorEvent hl hcompile hknown

/-- What is dispatched while its event is not the error event is no error dispatch. -/
theorem Trail.dispatch_of_event {definition : Definition κ} {state : String}
    (h : Trail (.start definition targetName idText state listeners) s) (hn : definition.Named)
    (hp : s.machine.Performs f i purpose) (hpd : purpose.isDispatch = true)
    (ht : s.machine.transition? i = some t) (he : t.record.event ≠ errorEvent) : purpose = .dispatch := by
  cases purpose with
  | dispatch => rfl
  | recovery first =>
    obtain ⟨record, hr, hevent⟩ := h.recovery_event hn hp rfl
    obtain ⟨t', ht', rfl⟩ := Machine.record_eq_some.1 hr
    cases Option.some.inj (ht.symm.trans ht')
    exact absurd hevent he
  | _ => exact nomatch hpd

/-- **The poll in which a dispatch rejects yields the rejection, and the machine has failed.** The machine
has the default error event and no hooks. In a move of its dispatch, a transition of another event rejects,
while the machine is in a state of its definition. Then all that is left to be done in this poll is to notify
listeners. If they only return, the poll yields the rejection. When it does, the machine is in the failed
state, nothing is active, and since the rejection the history has one more entry, for the way there. -/
theorem rejection_fails
    (hb : Machine.build spec inline targetName idText initialState listeners = .ok m)
    (hdefault : errorEvent ∉ (Reading.events spec).map (·.1)) (hhooks : m.definition.hooks = [])
    {u u' : World κ φ} (hu : Reaches m u) (hn : u.Next (.poll f) u')
    (hp : s.machine.Performs f i purpose) (hpd : purpose.isDispatch = true)
    (ht : s.machine.transition? i = some t) (he : t.record.event ≠ errorEvent)
    (hs : u.trace <+: s.trace) (hd : (s.make (.note i (.reject r))).trace <+: u'.trace)
    (hknown : s.machine.state ∈ m.definition.stateNames) :
    ∃ v, u.Concludes (.poll f) (some (.rejected r)) u' v ∧ Reaches m v ∧ s.machine.Fails v.machine := by
  obtain ⟨next, waiting, hcourse, rfl, hyields⟩ := hu.moved hn hs hd
  obtain ⟨htrail, -⟩ := hcourse.safe.1
  have hmay : (s.make (.note i (.reject r))).machine.MayFail :=
    Machine.mayFail_of_build hb hdefault hhooks htrail.definition_eq hknown
  obtain ⟨definition, state, rfl, hnamed⟩ := Machine.build_eq_ok hb
  cases htrail.dispatch_of_event hnamed hp hpd ht he
  obtain ⟨t', ht', rfl⟩ := hcourse.concludes hp
  have hevent : t'.record.event ≠ errorEvent := by
    rwa [Option.some.inj (ht'.symm.trans (Machine.record_eq_some.2 ⟨t, ht, rfl⟩))]
  -- up to the first listener nothing is asked
  obtain ⟨q, s', change, hgoes, htells, hfails⟩ := conclude_fails (f := f) (i := i) (r := r) hmay hevent
  obtain ⟨hworld, houtcome⟩ := World.proceed_goes (.poll f)
    (hgoes.bind fun polled => pure (some polled)) waiting
  rw [hworld] at hn hyields ⊢
  obtain ⟨v, hv, hm⟩ := World.concludes_of_tells (.poll f) (htells.map some) (w := ⟨s', waiting⟩) rfl hn
    fun a ho => hyields a (houtcome.trans ho)
  refine ⟨v, hv, hv.reaches hu, ?_⟩
  rw [hm]
  exact ⟨hfails.state_eq, hfails.active_eq, hfails.history_eq⟩

namespace Switch

/-- The switch with two listeners is about to be halted, and is poked meanwhile. The callback that is to halt
it has been called, and is going to fail. -/
def stopping : World Unit Unit :=
  ((((World.start watched).begin (.send "halt" [])).begin (.send "poke" [])).begin (.poll 0)).reply answers

theorem reaches_stopping : Reaches watched stopping :=
  (((Reaches.start.begin (.send "halt" [])).begin (.send "poke" [])).begin (.poll 0)).next
    (World.next_reply rfl answers)

/-- Where the callback has failed, and its transition is about to reject. -/
def stopped : Scene Unit Unit :=
  stopping.scene.make (.note 0 (.settle .willEnter "transition:explode" (.error (.string "boom"))))

end Switch

/-- The switch has failed when the poll that was to halt it ends, and nothing is left of the poke. -/
theorem rejection_fails_stopping :
    Switch.stopping.machine.active = [0, 1] ∧
      ∃ v, Switch.stopping.Concludes (.poll 0) (some (.rejected (.callback (.string "boom"))))
          (Switch.stopping.reply Switch.answers) v ∧
        v.machine.state = "failed" ∧ v.machine.active = [] ∧
        v.machine.history.entries = [⟨"error", "off", "failed", ()⟩] := by
  have hbefore : Switch.stopping.trace <+: Switch.stopped.trace := List.prefix_append _ _
  have hmade : (Switch.stopped.make (.note 0 (.reject (.callback (.string "boom"))))).trace <+:
      (Switch.stopping.reply Switch.answers).trace := ⟨_, rfl⟩
  have hperforms : Switch.stopped.machine.Performs 0 0 .dispatch := rfl
  have hnext : Switch.stopping.Next (.poll 0) (Switch.stopping.reply Switch.answers) :=
    World.next_reply rfl Switch.answers
  have ht : Switch.stopped.machine.transition? 0 = some _ := rfl
  obtain ⟨v, hv, -, hfails⟩ := rejection_fails Switch.build_watched (by decide) rfl Switch.reaches_stopping
    hnext hperforms rfl ht (by decide) hbefore hmade (by decide)
  exact ⟨rfl, v, hv, hfails.state_eq, hfails.active_eq, hfails.history_eq⟩

end StateEngine
