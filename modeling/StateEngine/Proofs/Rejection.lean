import StateEngine.Proofs.History
import StateEngine.Proofs.Points

/-!
# Transitions that reject

A dispatch whose transition rejects aborts all other active transitions for good. Then it attempts to send
the error event, once, with the rejection and a summary of the transition, unless that was the event which
rejected. Whatever becomes of the attempt, the future yields the rejection, and not before the attempt is
over.

* `report_unique`: **a future reports one rejection at most**.
* `Rejection.value`: a rejection as a value. `errorPayload_injective`: what the error event is told
  identifies the transition.
* `Attempt`, `Reaches.attempt`: what an attempt to send the error event has come to, at every later point.
* `Handled`, `rejection_handled`: **what follows a rejection**, under every continuation of the run.
-/

namespace StateEngine

open Program

variable {κ φ : Type} {m : Machine κ φ} {f : FutureId} {i j : TransitionId} {purpose : Purpose}
  {r r' : Rejection} {s s' : Scene κ φ} {w : World κ φ}

/-! ## Selecting from a state -/

/-- Whether a program that comes to an end found a record among some. -/
def FindsIn (records : List Record) :
    Program κ φ (Except DispatchError Record) → Scene κ φ → Prop
  | .done (.ok record), _ => record ∈ records
  | _, _ => True

/-- A program that only reads guards comes to nothing else before it ends. -/
theorem FindsIn.bind {R : Response κ φ} {α : Type} {records : List Record} {p : Program κ φ α}
    {post : α → Prop} {g : α → Program κ φ (Except DispatchError Record)}
    (h : p.Within (fun _ => False) post) (hg : ∀ a s, post a → (g a).Each R (FindsIn records) s) :
    (p >>= g).Each R (FindsIn records) s := by
  have hpoints := h.each (R := R) (I := fun _ => True) (s := s) (fun _ _ _ h => h.elim)
    (fun _ _ _ _ _ _ => trivial) trivial
  refine Each.bind (hpoints.mono fun q s' hq => ?_)
  cases q with
  | done a => exact hg a s' hq.2
  | _ => trivial

theorem resolve_from {R : Response κ φ} (event : String) (s : Scene κ φ) :
    (resolve event).Each R (FindsIn (s.machine.definition.recordsFor event (some s.machine.state))) s := by
  refine Each.look ?_
  dsimp only
  cases s.machine.definition.recordsFor event (some s.machine.state) with
  | nil => trivial
  | cons first others =>
    refine FindsIn.bind (firstPassing_within s.machine.state (first :: others)) fun result s' h => ?_
    match result with
    | .error error => trivial
    | .ok none => trivial
    | .ok (some record) => exact h record rfl

/-- **A record that is selected is one of those from the state in which the selection starts.** -/
theorem select_from {R : Response κ φ} (event : String) (s : Scene κ φ) :
    (select event).Each R (FindsIn (s.machine.definition.recordsFor event (some s.machine.state))) s := by
  refine Each.look ?_
  split
  · trivial
  · refine Each.bind ((resolve_from event s).mono fun q s' hq => ?_)
    cases q with
    | done result =>
      cases result with
      | error error => trivial
      | ok record =>
        refine Each.look ?_
        split
        · trivial
        · exact hq
    | _ => trivial

/-! ## Reports -/

theorem Scene.story_prefix (h : s.trace <+: s'.trace) : s.story f <+: s'.story f := h.filter _

/-- A dispatch whose transition is performed has not rejected. -/
theorem Trail.story_dispatch (ht : Trail m s) (hm : m.futures = [])
    (hp : s.machine.Performs f i .dispatch) : s.story f = [] := by
  have hstory := (ht.story hm f).1
  rw [show s.machine.future? f = _ from hp] at hstory
  generalize s.story f = deeds at hstory ⊢
  cases hstory with
  | quiet _ => rfl
  | started _ _ _ hs => exact nomatch (hs _ rfl).2

theorem Trail.story_report (ht : Trail m s) (hm : m.futures = [])
    (hp : s.machine.Performs f i .dispatch) (r : Rejection) :
    (s.make (.fail f i (some r))).story f = [.changed s.machine (.fail f i (some r))] := by
  rw [Scene.story_concerned (c := .fail f i (some r)) s (beq_self_eq_true f), ht.story_dispatch hm hp]
  rfl

/-- Of two reports of a future in one run, the first one is the second one. -/
theorem report_first (hm : m.futures = []) (hs : Trail m s) (hs' : Trail m s')
    (hp : s.machine.Performs f i .dispatch) (hp' : s'.machine.Performs f j .dispatch)
    {trace : List (Deed κ φ)} (hd : (s.make (.fail f i (some r))).trace <+: trace)
    (hd' : (s'.make (.fail f j (some r'))).trace <+: trace) (h : s.trace <+: s'.trace) :
    s = s' ∧ i = j ∧ r = r' := by
  rcases prefix_concat_cases h hd hd' with ⟨htrace, hdeed⟩ | hlater
  · obtain ⟨-, hchange⟩ := Deed.changed.inj hdeed
    cases hchange
    exact ⟨hs.scene_eq hs' htrace, rfl, rfl⟩
  · -- otherwise the future had rejected when it rejected
    have hstory := Scene.story_prefix (f := f) (s := s.make (.fail f i (some r))) hlater
    rw [hs.story_report hm hp, hs'.story_dispatch hm hp'] at hstory
    exact absurd (List.prefix_nil.1 hstory) (List.cons_ne_nil _ _)

/-- **A future reports one rejection at most.** -/
theorem report_unique (hm : m.futures = []) (hs : Trail m s) (hs' : Trail m s')
    (hp : s.machine.Performs f i .dispatch) (hp' : s'.machine.Performs f j .dispatch)
    {trace : List (Deed κ φ)} (hd : (s.make (.fail f i (some r))).trace <+: trace)
    (hd' : (s'.make (.fail f j (some r'))).trace <+: trace) : s = s' ∧ i = j ∧ r = r' := by
  have hpre : s.trace <+: trace := (List.prefix_append _ _).trans hd
  have hpre' : s'.trace <+: trace := (List.prefix_append _ _).trans hd'
  rcases List.prefix_or_prefix_of_prefix hpre hpre' with h | h
  · exact report_first hm hs hs' hp hp' hd hd' h
  · obtain ⟨hscene, hid, hrejection⟩ := report_first hm hs' hs hp' hp hd' hd h
    exact ⟨hscene.symm, hid.symm, hrejection.symm⟩

/-- The one report of a future is where the attempt starts. -/
theorem Reported.eq (hm : m.futures = []) {args : List Json} (h : Reported m f r' args s') (hs : Trail m s)
    (hp : s.machine.Performs f i .dispatch) {t : Transition} (ht : s.machine.transition? i = some t)
    {trace : List (Deed κ φ)} (hd : (s.make (.fail f i (some r))).trace <+: trace)
    (hd' : s'.trace <+: trace) :
    s' = s.make (.fail f i (some r)) ∧ r' = r ∧ args = [errorPayload r (m.idText i) t] := by
  obtain ⟨s₀, j, t', hs₀, hr, ht', rfl, rfl⟩ := h.reported
  obtain ⟨rfl, rfl, rfl⟩ := report_unique hm hs hs₀ hp hr.performs hd hd'
  cases Option.some.inj (ht.symm.trans ht')
  exact ⟨rfl, rfl, rfl⟩

/-! ## Deeds of a poll -/

/-- Only its own poll does what concerns a future. -/
theorem Allowed.own_of_concerns {own : Option FutureId} {c : Change φ} (h : Allowed m own c)
    (hc : c.concerns f = true) : own = some f := by
  cases h with
  | relaunch _ _ _ _ => rw [eq_of_beq hc]
  | finish _ _ => rw [eq_of_beq hc]
  | refuse _ => rw [eq_of_beq hc]
  | fail _ _ _ _ _ => rw [eq_of_beq hc]
  | failDispatch _ _ _ _ => rw [eq_of_beq hc]
  | _ => exact nomatch hc

theorem Allowed.fail_record {own : Option FutureId} {reported : Option Rejection}
    (h : Allowed m own (.fail f i reported)) : ∃ record, m.record? i = some record := by
  cases h with
  | fail _ _ _ hr _ => exact ⟨_, hr⟩
  | failDispatch _ _ hr _ => exact ⟨_, hr⟩

/-- **What concerns a future was done at a point of a poll.** -/
theorem Reaches.concerned (h : Reaches m w) {m₁ : Machine κ φ} {c : Change φ}
    (hd : .changed m₁ c ∈ w.scene.story f) :
    ∃ s next, s.machine = m₁ ∧ (s.make c).trace <+: w.trace ∧ Trail m s ∧
      Course m (.poll f) (.change c next) s := by
  obtain ⟨hmem, hc⟩ := List.mem_filter.1 hd
  obtain ⟨before, after, htrace⟩ := List.append_of_mem hmem
  have hmade : (Scene.make ⟨m₁, before⟩ c).trace <+: w.trace := by
    refine ⟨after, ?_⟩
    rw [World.trace, htrace, Scene.make, List.append_assoc]
    rfl
  obtain ⟨op, next, hcourse⟩ := h.made hmade
  obtain ⟨htrail, hsafe⟩ := hcourse.safe.1
  cases Operation.own_eq_some (hsafe.1.own_of_concerns hc)
  exact ⟨_, next, rfl, hmade, htrail, hcourse⟩

theorem Story.nil_of_idle {deeds : List (Deed κ φ)} {x : Future φ} (h : Story f deeds (some x))
    (hx : x.purpose.isDispatch = false) : deeds = [] := by
  cases h with
  | quiet _ => rfl
  | selecting _ => exact nomatch hx
  | started _ _ _ hs =>
    rw [(hs x rfl).2] at hx
    exact nomatch hx

/-! ## What the error event is told

The argument of the error event is said here without the functions that make it. -/

/-- The word for a phase, where a callback is missed. -/
def Phase.word : Phase → String
  | .beforeEvent => "beforeEvent"
  | .willExit => "willExit"
  | .willEnter => "willEnter"
  | .didExit => "didExit"
  | .didEnter => "didEnter"
  | .afterEvent => "afterEvent"

/-- **A rejection as a value**: the reason of the callback that failed, or what there is to say of a name that
the target has no callback for. -/
def Rejection.value : Rejection → Json
  | .callback reason => reason
  | .missing (.stateHook name target state phase) =>
    .string ("callback \"" ++ name ++ "\" on target \"" ++ target ++ "\" is not defined, it is named by the " ++
      phase.word ++ " hook of state \"" ++ state ++ "\"")
  | .missing (.transition name target record phase) =>
    .string ("callback \"" ++ name ++ "\" on target \"" ++ target ++ "\" is not defined, it is named by the " ++
      phase.word ++ " list of transition \"" ++ record.event ++ "\" (" ++ record.fromState ++ " -> " ++
        record.toState ++ ")")

theorem Phase.name_eq_word (phase : Phase) : phase.name = phase.word := by cases phase <;> rfl

theorem Rejection.toJson_eq_value (r : Rejection) : r.toJson = r.value := by
  match r with
  | .callback _ => rfl
  | .missing (.stateHook name target state phase) =>
    refine congrArg Json.string ((MissingCallback.message_stateHook name target state phase).trans ?_)
    rw [phase.name_eq_word]
    simp only [String.append_assoc]
  | .missing (.transition name target record phase) =>
    refine congrArg Json.string ((MissingCallback.message_transition name target record phase).trans ?_)
    rw [phase.name_eq_word]
    simp only [String.append_assoc]

/-- **The error event is told which transition it was**, if the identities of any two read differently. -/
theorem errorPayload_injective {idText : TransitionId → String} (hid : Function.Injective idText)
    {t t' : Transition} (h : errorPayload r (idText i) t = errorPayload r' (idText j) t') : i = j := by
  have hmembers := Json.object.inj h
  have hsummary := (Prod.mk.inj (List.cons.inj (List.cons.inj hmembers).2).1).2
  have hidentity := (Prod.mk.inj (List.cons.inj (Json.object.inj hsummary)).1).2
  exact hid (Json.string.inj hidentity)

/-! ## Attempts -/

/-- Whether an attempt to send the error event has sent it: the record was selected in the state in which
the attempt started, and there is a transition of it that is given the arguments. -/
structure Sent (m : Machine κ φ) (f : FutureId) (r : Rejection) (args : List Json) (s : Scene κ φ)
    (record : Record) (s' : Scene κ φ) (w : World κ φ) : Prop where
  selected : (select "error").Goes (Amid m (some f)) s (.done (.ok record)) s'
  listed : record ∈ s.machine.definition.recordsFor "error" (some s.machine.state)
  made : (s'.make (.relaunch f r record args)).trace <+: w.trace
  transition : ∃ t, w.machine.transition? s'.machine.nextTransition = some t ∧ t.record = record ∧ t.args = args

/-- **What an attempt to send the error event has come to.** The attempt starts in a scene, and the event is
to be given some arguments. Nothing else was done since then that concerns the future. -/
inductive Attempt (m : Machine κ φ) (f : FutureId) (r : Rejection) (args : List Json) (s : Scene κ φ)
    (w : World κ φ) : Prop where
  /-- The record is being selected, and a poll of the future waits for a guard. -/
  | selecting {i : TransitionId} {x : Waiting κ φ}
      {rest : x.request.Reply → Program κ φ (Except DispatchError Record)} {s' : Scene κ φ} :
      x ∈ w.waiting → x.operation = .poll f →
      (select "error").Goes (Amid m (some f)) s (.ask x.request rest) s' →
      w.machine.future? f = some ⟨i, .dispatch, .failed r⟩ → w.scene.story f = s.story f →
      Attempt m f r args s w
  /-- No record could be selected, and the future is over. -/
  | refused {error : DispatchError} {s' : Scene κ φ} :
      (select "error").Goes (Amid m (some f)) s (.done (.error error)) s' →
      (s'.make (.closeFuture f)).trace <+: w.trace → w.machine.future? f = none →
      w.scene.story f = s.story f ++ [.changed s'.machine (.closeFuture f)] → Attempt m f r args s w
  /-- The event was sent, and its transition is performed by the future. -/
  | pending {record : Record} {s' : Scene κ φ} {stage : Stage φ} : Sent m f r args s record s' w →
      w.machine.future? f = some ⟨s'.machine.nextTransition, .recovery r, stage⟩ →
      w.scene.story f = s.story f ++ [.changed s'.machine (.relaunch f r record args)] →
      Attempt m f r args s w
  /-- The event was sent, and its dispatch is over: it settled without a rejection, or was given up, or
  rejected as well. -/
  | ended {record : Record} {s' : Scene κ φ} {later : List (Deed κ φ)} : Sent m f r args s record s' w →
      w.machine.future? f = none → (∀ g, ¬ w.machine.Dispatches g s'.machine.nextTransition) →
      w.scene.story f = s.story f ++ .changed s'.machine (.relaunch f r record args) :: later →
      (later = [] ∨ ∃ m', later = [.changed m' (.fail f s'.machine.nextTransition none)]) →
      Attempt m f r args s w

variable {definition : Definition κ} {targetName state : String} {idText : TransitionId → String} {listeners : Nat}
  {t : Transition}

/-- The transition of an error dispatch is in no other future. -/
theorem Sent.onlyIn {args : List Json} {record : Record}
    (h : Sent (.start definition targetName idText state listeners) f r args s record s' w)
    (hw : Reaches (.start definition targetName idText state listeners) w) :
    w.machine.OnlyIn (some f) s'.machine.nextTransition := by
  obtain ⟨op, next, hcourse⟩ := hw.made h.made
  obtain ⟨htrail, hallowed, -⟩ := hcourse.safe.1
  generalize op.own = own at hallowed
  have hmade := htrail.make hallowed
  refine hmade.later hw.sound.trail h.made
    (I := fun s => s.machine.OnlyIn (some f) s'.machine.nextTransition)
    (fun _ _ _ _ hi hc => hc.onlyIn hi) (fun _ _ hi => hi) ⟨?_, fun g hg => ?_⟩
  · exact Machine.transition_lt (Machine.transition_relaunch r record args)
  · -- it is new, and the future has it
    have hnew : (s'.make (.relaunch f r record args)).machine.Dispatches f s'.machine.nextTransition := by
      cases hallowed with
      | relaunch _ hf _ _ =>
        have hslot : (s'.make (.relaunch f r record args)).machine.future? f =
            some ⟨s'.machine.nextTransition, .recovery r, .busy⟩ :=
          (Machine.future_set (Machine.lt_of_future hf) rfl).trans (if_pos rfl)
        exact ⟨_, hslot, rfl, rfl⟩
    rw [hmade.orderly.open_unique g f _ hg hnew]

/-- Once its future is gone, nobody dispatches the error event any more. -/
theorem Sent.closed {args : List Json} {record : Record}
    (h : Sent (.start definition targetName idText state listeners) f r args s record s' w)
    (hw : Reaches (.start definition targetName idText state listeners) w) (hf : w.machine.future? f = none)
    (g : FutureId) : ¬ w.machine.Dispatches g s'.machine.nextTransition := by
  intro hg
  cases (h.onlyIn hw).2 g hg
  obtain ⟨x, hx, -⟩ := hg
  exact nomatch hf.symm.trans hx

/-- The transition of an error dispatch keeps its record and its arguments. -/
theorem Trail.relaunched {args : List Json} {record : Record} (hs : Trail m (s.make (.relaunch f r record args)))
    (hs' : Trail m s') (hp : (s.make (.relaunch f r record args)).trace <+: s'.trace) :
    ∃ t, s'.machine.transition? s.machine.nextTransition = some t ∧ t.record = record ∧ t.args = args := by
  refine hs.later hs' hp
    (I := fun s' => ∃ t, s'.machine.transition? s.machine.nextTransition = some t ∧ t.record = record ∧ t.args = args)
    ?_ (fun _ _ h => h) ⟨_, Machine.transition_relaunch r record args, rfl, rfl⟩
  rintro s' own c - ⟨t, ht, hrecord, hargs⟩ -
  obtain ⟨marks, hmarks⟩ := c.marked _ t ht
  exact ⟨_, hmarks, (t.record_markAll marks).trans hrecord, (t.args_markAll marks).trans hargs⟩

/-- A deed that sent the error event for the one report of a future. -/
theorem Reaches.sent (hm : m.futures = []) (h : Reaches m w) (hs : Trail m s)
    (hp : s.machine.Performs f i .dispatch) (ht : s.machine.transition? i = some t)
    (hd : (s.make (.fail f i (some r))).trace <+: w.trace) {m₁ : Machine κ φ} {record : Record}
    {args : List Json} (hr : .changed m₁ (.relaunch f r' record args) ∈ w.scene.story f) :
    ∃ s', s'.machine = m₁ ∧ r' = r ∧ args = [errorPayload r (m.idText i) t] ∧
      Sent m f r [errorPayload r (m.idText i) t] (s.make (.fail f i (some r))) record s' w := by
  obtain ⟨s', next, hmachine, hmade, -, hcourse⟩ := h.concerned hr
  have hpoint := (hcourse.poll_points hm).1
  obtain ⟨s₁, hreported, hselected⟩ := hpoint
  have hbefore : s₁.trace <+: w.trace :=
    (Goes.trace_prefix hselected).trans ((List.prefix_append _ _).trans hmade)
  obtain ⟨rfl, rfl, rfl⟩ := hreported.eq hm hs hp ht hd hbefore
  refine ⟨s', hmachine, rfl, rfl, hselected, (select_from errorEvent _).goes hselected, hmade, ?_⟩
  obtain ⟨htrail, hallowed, -⟩ := hcourse.safe.1
  exact (htrail.make hallowed).relaunched h.sound.trail hmade

/-- A deed that ended the attempt for the one report of a future without sending. -/
theorem Reaches.refused (hm : m.futures = []) (h : Reaches m w) (hs : Trail m s)
    (hp : s.machine.Performs f i .dispatch) (ht : s.machine.transition? i = some t)
    (hd : (s.make (.fail f i (some r))).trace <+: w.trace) {m₁ : Machine κ φ}
    (hr : .changed m₁ (.closeFuture f) ∈ w.scene.story f) :
    ∃ s' error, s'.machine = m₁ ∧ (s'.make (.closeFuture f)).trace <+: w.trace ∧
      (select errorEvent).Goes (Amid m (some f)) (s.make (.fail f i (some r))) (.done (.error error)) s' := by
  obtain ⟨s', next, hmachine, hmade, htrail, hcourse⟩ := h.concerned hr
  have hpoint := (hcourse.poll_points hm).1
  rcases hpoint with ⟨x, hx, hidle⟩ | ⟨r', args, error, s₁, hreported, hselected⟩
  · -- a future that is no dispatch has no story before it is closed
    have hstory := (htrail.story hm f).1
    rw [hx] at hstory
    have hclosed := Scene.story_prefix (f := f) hmade
    rw [Scene.story_concerned (c := .closeFuture f) s' (beq_self_eq_true f), hstory.nil_of_idle hidle] at hclosed
    have hreport := Scene.story_prefix (f := f) hd
    rw [hs.story_report hm hp] at hreport
    obtain ⟨rest, hrest⟩ := hclosed
    obtain ⟨later, hlater⟩ := hreport
    rw [← hlater] at hrest
    exact nomatch (Deed.changed.inj (List.cons.inj hrest).1).2
  · have hbefore : s₁.trace <+: w.trace :=
      (Goes.trace_prefix hselected).trans ((List.prefix_append _ _).trans hmade)
    obtain ⟨rfl, rfl, rfl⟩ := hreported.eq hm hs hp ht hd hbefore
    exact ⟨s', error, hmachine, hmade, hselected⟩

/-- While the error event is being selected, a poll waits for one of the guards. -/
theorem Reaches.selecting (hm : m.futures = []) (h : Reaches m w) (hs : Trail m s)
    (hp : s.machine.Performs f i .dispatch) (ht : s.machine.transition? i = some t)
    (hd : (s.make (.fail f i (some r))).trace <+: w.trace)
    (hf : w.machine.future? f = some ⟨j, .dispatch, .failed r'⟩) :
    ∃ x ∈ w.waiting, x.operation = .poll f ∧
      ∃ rest s', (select errorEvent).Goes (Amid m (some f)) (s.make (.fail f i (some r)))
        (.ask x.request rest) s' := by
  obtain ⟨⟨operation, request, resume⟩, hx, hpoll⟩ := h.busy_waits hm ⟨_, hf, rfl⟩
  cases hpoll
  obtain ⟨s₀, hcourse, hrely, hbefore⟩ := h.waits _ hx
  have hslot : s₀.machine.future? f = some ⟨j, .dispatch, .failed r'⟩ := hrely.future.symm.trans hf
  obtain ⟨s₁, args, rest, next, hreported, hselected, -⟩ := (hcourse.poll_points hm).1 j r' hslot
  have hfirst : s₁.trace <+: w.trace :=
    (Goes.trace_prefix hselected).trans ((List.prefix_append _ _).trans hbefore)
  obtain ⟨rfl, rfl, rfl⟩ := hreported.eq hm hs hp ht hd hfirst
  exact ⟨_, hx, rfl, rest, s₀, hselected⟩

/-- **What has become of the one attempt**, at every point after the report. -/
theorem Reaches.attempt (h : Reaches (.start definition targetName idText state listeners) w)
    (hs : Trail (.start definition targetName idText state listeners) s)
    (hp : s.machine.Performs f i .dispatch) (ht : s.machine.transition? i = some t)
    (hd : (s.make (.fail f i (some r))).trace <+: w.trace) :
    Attempt (.start definition targetName idText state listeners) f r [errorPayload r (idText i) t]
      (s.make (.fail f i (some r))) w := by
  have hreport := hs.story_report rfl hp r
  obtain ⟨later, hlater⟩ := Scene.story_prefix (f := f) hd
  have hstory := (h.sound.trail.story rfl f).1
  rw [hreport] at hlater
  generalize hdeeds : w.scene.story f = deeds at hstory hlater
  generalize hslot : w.scene.machine.future? f = slot at hstory
  cases hstory with
  | quiet _ => exact nomatch hlater
  | finished m₁ => exact nomatch (Deed.changed.inj (List.cons.inj hlater).1).2
  | rejected _ => exact nomatch (Deed.changed.inj (List.cons.inj hlater).1).2
  | selecting hr =>
    obtain ⟨x, hx, hpoll, rest, s', hselected⟩ := h.selecting rfl hs hp ht hd hslot
    have hsame : w.scene.story f = (s.make (.fail f i (some r))).story f := by
      rw [hdeeds, hreport]
      exact congrArg (fun d => [d]) (List.cons.inj hlater).1.symm
    obtain ⟨-, hchange⟩ := Deed.changed.inj (List.cons.inj hlater).1
    cases hchange
    exact .selecting hx hpoll hselected hslot hsame
  | refused m₁ hr =>
    have hmem : .changed m₁ (.closeFuture f) ∈ w.scene.story f :=
      hdeeds ▸ List.mem_cons_of_mem _ List.mem_cons_self
    obtain ⟨s', error, rfl, hmade, hselected⟩ := h.refused rfl hs hp ht hd hmem
    refine .refused hselected hmade hslot ?_
    rw [hdeeds, hreport]
    exact congrArg (· :: _) (List.cons.inj hlater).1.symm
  | @started m₀ m₁ id r' record args slot hr hslots =>
    have hmem : .changed m₁ (.relaunch f r' record args) ∈ w.scene.story f :=
      hdeeds ▸ List.mem_cons_of_mem _ List.mem_cons_self
    obtain ⟨s', rfl, rfl, rfl, hsent⟩ := h.sent rfl hs hp ht hd hmem
    have hsame : w.scene.story f = (s.make (.fail f i (some r'))).story f ++
        [.changed s'.machine (.relaunch f r' record [errorPayload r' (idText i) t])] := by
      rw [hdeeds, hreport]
      exact congrArg (· :: _) (List.cons.inj hlater).1.symm
    cases slot with
    | some x =>
      obtain ⟨id, purpose, stage⟩ := x
      obtain ⟨rfl, rfl⟩ := hslots _ rfl
      exact .pending hsent hslot hsame
    | none => exact .ended hsent hslot (hsent.closed h hslot) hsame (.inl rfl)
  | @failed m₀ m₁ m₂ id r' r'' record args hr hr' =>
    have hmem : .changed m₁ (.relaunch f r' record args) ∈ w.scene.story f :=
      hdeeds ▸ List.mem_cons_of_mem _ List.mem_cons_self
    obtain ⟨s', rfl, rfl, rfl, hsent⟩ := h.sent rfl hs hp ht hd hmem
    refine .ended hsent hslot (hsent.closed h hslot) ?_ (.inr ⟨m₂, rfl⟩)
    rw [hdeeds, hreport]
    exact congrArg (· :: _) (List.cons.inj hlater).1.symm

/-! ## What follows -/

variable {reported : Option Rejection}

/-- A transition that rejects never commits. -/
theorem Reaches.fail_uncommitted (h : Reaches (.start definition targetName idText state listeners) w)
    (hd : (s.make (.fail f i reported)).trace <+: w.trace) : ∀ d ∈ w.trace, d.commits i = false := by
  have hfail : Deed.changed s.machine (.fail f i reported) ∈ w.trace :=
    hd.subset (List.mem_append_right _ List.mem_cons_self)
  exact h.sound.trail.discarded hfail List.mem_cons_self

/-- All other transitions that are active when one rejects are aborted for good, and never commit. -/
theorem Reaches.fail_others (h : Reaches (.start definition targetName idText state listeners) w)
    (hd : (s.make (.fail f i reported)).trace <+: w.trace) (hj : j ∈ s.machine.active) (hne : j ≠ i) :
    w.machine.isAborted j = true ∧ j ∉ w.machine.active ∧ ∀ d ∈ w.trace, d.commits j = false := by
  have hothers : j ∈ s.machine.active.filter (· != i) := List.mem_filter.2 ⟨hj, bne_iff_ne.2 hne⟩
  have hremoved : j ∈ w.scene.removed := by
    refine Scene.removed_of_prefix hd ?_
    rw [Scene.removed_make]
    exact List.mem_append_right _ hothers
  have hfail : Deed.changed s.machine (.fail f i reported) ∈ w.trace :=
    hd.subset (List.mem_append_right _ List.mem_cons_self)
  refine ⟨h.orderly.removed_aborted j hremoved, fun hj' => ?_, ?_⟩
  · exact (h.orderly.mem_active.1 hj').2 hremoved
  · exact h.sound.trail.discarded hfail (List.mem_cons_of_mem i hothers)

/-- **What follows a rejection**, at every later point of the run. In its dispatch a transition has rejected,
in a scene. -/
structure Handled (m : Machine κ φ) (f : FutureId) (i : TransitionId) (purpose : Purpose) (r : Rejection)
    (t : Transition) (s : Scene κ φ) (w : World κ φ) : Prop where
  /-- The transition never commits. -/
  uncommitted : ∀ d ∈ w.trace, d.commits i = false
  /-- All others that were active are aborted, and never commit either. -/
  others : ∀ j ∈ s.machine.active, j ≠ i →
    w.machine.isAborted j = true ∧ j ∉ w.machine.active ∧ ∀ d ∈ w.trace, d.commits j = false
  /-- There is one attempt to send the error event, with the rejection and the transition as its argument. It
  starts in the machine as the rejection leaves it. -/
  attempted : t.record.event ≠ "error" →
    (s.make (.fail f i (some r))).trace <+: w.trace ∧
      Attempt m f r
        [.object [("error", r.value), ("transition", .object [("id", .string (m.idText i)),
          ("event", .string t.record.event), ("fromState", .string t.record.fromState),
          ("toState", .string t.record.toState), ("eventArgs", .array t.args)])]]
        (s.make (.fail f i (some r))) w
  /-- If it is the error event that rejected, there is none: the future is over. -/
  unattempted : t.record.event = "error" →
    (s.make (.fail f i none)).trace <+: w.trace ∧ w.machine.future? f = none ∧
      w.scene.story f = s.story f ++ [.changed s.machine (.fail f i none)]
  /-- A poll of the future yields what the future owes once it is over. Until then the transition of the
  error event is pending. -/
  yields : ∀ v polled, Reaches m v → v.Yields (.poll f) (some polled) w →
    (polled = .rejected (purpose.owed r) ∧ w.machine.future? f = none) ∨
      (polled = .pending ∧ ∃ j phase roster,
        w.machine.future? f = some ⟨j, .recovery r, .waiting phase roster⟩ ∧ roster.outcomes? = none)
  /-- However it is answered, a poll of the future comes to an end. -/
  ends : ∀ x ∈ w.waiting, x.operation = .poll f → ∀ answers : (request : Request κ φ) → request.Reply,
    ∃ v polled w', w.Served answers v ∧ v.Yields (.poll f) (some polled) w' ∧ v.Served answers w'

/-- A poll that waits yields something in the end, however it is answered. -/
theorem Reaches.poll_ends (h : Reaches m w) {x : Waiting κ φ} (hx : x ∈ w.waiting)
    (hpoll : x.operation = .poll f) (answers : (request : Request κ φ) → request.Reply) :
    ∃ v polled w', w.Served answers v ∧ v.Yields (.poll f) (some polled) w' ∧ v.Served answers w' := by
  obtain ⟨operation, request, resume⟩ := x
  cases hpoll
  obtain ⟨s₀, hcourse, -⟩ := h.waits _ hx
  obtain ⟨v, result, w', hv, hy, hw', hsome⟩ := World.ends answers hx hcourse.poll_gives
  obtain ⟨polled, rfl⟩ := Option.isSome_iff_exists.1 hsome
  exact ⟨v, polled, w', hv, hy, hw'⟩

/-- A poll of a future whose transition has rejected yields what is owed for it, once it yields anything. -/
theorem Polled.Fits.of_fail {polled : Polled} (h : polled.Fits f s') (hr : s.machine.Rejects f i purpose r)
    (hd : (s.make (.fail f i reported)).trace <+: s'.trace) :
    polled = .pending ∨ polled = .rejected (purpose.owed r) := by
  have howed : ∀ {owed}, Owes f (s'.story f) owed → owed = some (purpose.owed r) := by
    intro owed howes
    have hmem : .changed s.machine (.fail f i reported) ∈ s'.story f := by
      refine List.mem_filter.2 ⟨hd.subset ?_, beq_self_eq_true f⟩
      exact List.mem_append_right _ (List.mem_singleton.2 rfl)
    exact howes _ _ _ _ _ hmem hr
  cases polled with
  | pending => exact .inl rfl
  | finished => exact nomatch howed h.2
  | resolved _ => exact nomatch howed h.2
  | rejected r' =>
    cases howed h.2
    exact .inr rfl

/-- What the future of a rejection yields, told what has become of the attempt. -/
theorem Reaches.fail_yields (hm : m.futures = []) {v : World κ φ} {polled : Polled} (hv : Reaches m v)
    (hy : v.Yields (.poll f) (some polled) w) (hr : s.machine.Rejects f i purpose r)
    (hd : (s.make (.fail f i reported)).trace <+: w.trace)
    (hslot : ∀ x phase roster, w.machine.future? f = some x → x.stage = .waiting phase roster →
      x.purpose = .recovery r) :
    (polled = .rejected (purpose.owed r) ∧ w.machine.future? f = none) ∨
      (polled = .pending ∧ ∃ j phase roster,
        w.machine.future? f = some ⟨j, .recovery r, .waiting phase roster⟩ ∧ roster.outcomes? = none) := by
  have hfits : polled.Fits f w.scene := hv.fits hm hy
  rcases hfits.of_fail hr hd with rfl | rfl
  · obtain ⟨x, phase, roster, hx, hstage, hunsettled⟩ := hfits
    refine .inr ⟨rfl, x.transition, phase, roster, ?_, hunsettled⟩
    rw [show w.machine.future? f = some x from hx, ← hslot x phase roster hx hstage, ← hstage]
  · exact .inl ⟨rfl, hfits.1⟩

/-- A report is of the rejection that there is, and by a dispatch. -/
theorem Allowed.fail_reported {own : Option FutureId} (h : Allowed m own (.fail f i (some r')))
    (hr : m.Rejects f i purpose r) : r' = r ∧ purpose = .dispatch := by
  cases h with
  | failDispatch hp hk _ _ =>
    obtain ⟨rfl, rfl⟩ := hr.unique ⟨hp, hk⟩
    exact ⟨rfl, rfl⟩

/-- **A rejection is handled**: by the one deed that follows it, and whatever is done later. -/
theorem Reaches.handled (h : Reaches (.start definition targetName idText state listeners) w)
    (hn : definition.Named) (hs : Trail (.start definition targetName idText state listeners) s)
    (hc : Allowed s.machine (some f) (.fail f i reported)) (hr : s.machine.Rejects f i purpose r)
    (hpd : purpose.isDispatch = true) {marks : List Mark}
    (ht : s.machine.transition? i = some (t.markAll marks))
    (hd : (s.make (.fail f i reported)).trace <+: w.trace) :
    Handled (.start definition targetName idText state listeners) f i purpose r t s w := by
  have hrecord : s.machine.record? i = some t.record :=
    Machine.record_eq_some.2 ⟨_, ht, t.record_markAll marks⟩
  have hreports := hc.reports_iff hs hn hrecord
  have hattempted : t.record.event ≠ errorEvent → (s.make (.fail f i (some r))).trace <+: w.trace ∧
      Attempt (.start definition targetName idText state listeners) f r
        [.object [("error", r.value), ("transition", t.toJson (idText i))]] (s.make (.fail f i (some r))) w := by
    intro he
    obtain ⟨r', rfl⟩ := Option.isSome_iff_exists.1 (hreports.2 he)
    obtain ⟨rfl, rfl⟩ := hc.fail_reported hr
    have hattempt := h.attempt hs hr.performs ht hd
    rw [errorPayload_markAll, errorPayload, r'.toJson_eq_value] at hattempt
    exact ⟨hd, hattempt⟩
  have hunattempted : t.record.event = errorEvent → (s.make (.fail f i none)).trace <+: w.trace ∧
      w.machine.future? f = none ∧
      w.scene.story f = s.story f ++ [.changed s.machine (.fail f i none)] := by
    intro he
    cases reported with
    | some r' => exact absurd he (hreports.1 rfl)
    | none =>
      have hgone : (s.make (.fail f i none)).machine.future? f = none :=
        (Machine.future_close (Machine.futures_fail f i none)).trans (if_pos rfl)
      have hlt : f < (s.make (.fail f i none)).machine.futures.length :=
        Nat.lt_of_lt_of_le (Machine.lt_of_future hr.performs) (Change.length_futures_le _)
      obtain ⟨hnone, hstory⟩ := (hs.make hc).story_over h.sound.trail hd hgone hlt
      refine ⟨hd, hnone, hstory.trans ?_⟩
      exact Scene.story_concerned (c := .fail f i none) s (beq_self_eq_true f)
  -- a future that is left waiting waits for the error event
  have hslot : ∀ x phase roster, w.machine.future? f = some x → x.stage = .waiting phase roster →
      x.purpose = .recovery r := by
    intro x phase roster hx hstage
    by_cases he : t.record.event = errorEvent
    · exact nomatch (hunattempted he).2.1.symm.trans hx
    · cases (hattempted he).2 with
      | selecting _ _ _ hf _ =>
        cases Option.some.inj (hf.symm.trans hx)
        exact nomatch hstage
      | refused _ _ hf _ => exact nomatch hf.symm.trans hx
      | pending _ hf _ => rw [← Option.some.inj (hf.symm.trans hx)]
      | ended _ hf _ _ _ => exact nomatch hf.symm.trans hx
  exact ⟨h.fail_uncommitted hd, fun j hj hne => h.fail_others hd hj hne,
    hattempted, hunattempted, fun v polled hv hy => hv.fail_yields rfl hy hr hd hslot,
    fun x hx hpoll answers => h.poll_ends hx hpoll answers⟩

/-- Where a transition rejects, the poll that dispatches it goes on with the rejection. -/
theorem Course.rejects {next : Program κ φ (Option Polled)}
    (h : Course m (.poll f) (.change (.note i (.reject r)) next) s) (hm : m.futures = [])
    (hp : s.machine.Performs f i purpose) (hpd : purpose.isDispatch = true) :
    ∃ t reported rest, s.machine.transition? i = some t ∧ next = .change (.fail f i reported) rest ∧
      Course m (.poll f) next (s.make (.note i (.reject r))) ∧
      (s.make (.note i (.reject r))).machine.Rejects f i purpose r := by
  obtain ⟨reported, rest, rfl⟩ := (h.poll_points hm).1 purpose hp hpd
  have hcourse := h.goes (.change (.refl _ _))
  obtain ⟨-, hallowed, -⟩ := hcourse.safe.1
  obtain ⟨record, hrecord⟩ := hallowed.fail_record
  -- the transition was there before the note
  obtain ⟨t', ht', -⟩ := Machine.record_eq_some.1 hrecord
  obtain ⟨t, ht, -⟩ := Option.map_eq_some_iff.1 ((Machine.transition_note i _ i).symm.trans ht')
  have hsettled : (s.make (.note i (.reject r))).machine.Settled i (.error r) :=
    .reject (Machine.record_eq_some.2 ⟨t, ht, rfl⟩) r
  exact ⟨t, reported, rest, ht, rfl, hcourse, hp, hsettled⟩

variable {spec : Json} {inline : List (InlineHook κ)} {initialState : Option String}

/-- **Rejections are handled.** In a move of its dispatch, a transition rejects. If its event is the error
event, the move ends with that, and yields what the future owes. At every later point of every run that goes
on from there, the rejection is handled. -/
theorem rejection_handled
    (hb : Machine.build spec inline targetName idText initialState listeners = .ok m) {u u' : World κ φ}
    (hu : Reaches m u) (hn : u.Next (.poll f) u') (hp : s.machine.Performs f i purpose)
    (hpd : purpose.isDispatch = true) (hs : u.trace <+: s.trace)
    (hd : (s.make (.note i (.reject r))).trace <+: u'.trace) :
    ∃ t, s.machine.transition? i = some t ∧
      (t.record.event = "error" → u.Yields (.poll f) (some (.rejected (purpose.owed r))) u' ∧
        u'.trace = ((s.make (.note i (.reject r))).make (.fail f i none)).trace) ∧
      ∀ w, Reaches m w → u'.trace <+: w.trace →
        Handled m f i purpose r t (s.make (.note i (.reject r))) w := by
  obtain ⟨definition, state, rfl, hnamed⟩ := Machine.build_eq_ok hb
  obtain ⟨next, waiting, hcourse, hproceed, hyields⟩ := hu.moved hn hs hd
  obtain ⟨t, reported, rest, ht, rfl, hfail, hr⟩ := hcourse.rejects rfl hp hpd
  obtain ⟨htrail, hallowed, -⟩ := hfail.safe.1
  have hnoted : (s.make (.note i (.reject r))).machine.transition? i = some (t.markAll [.reject r]) := by
    refine (Machine.transition_note i (.reject r) i).trans ?_
    rw [ht, Option.map_some, if_pos rfl]
    rfl
  have hmade : ((s.make (.note i (.reject r))).make (.fail f i reported)).trace <+: u'.trace := by
    rw [hproceed]
    exact World.trace_proceed (.poll f) (p := rest) (w := ⟨_, waiting⟩)
  refine ⟨t, ht, fun he => ?_, fun w hw hlater => ?_⟩
  · have hreports := hallowed.reports_iff htrail hnamed
      (Machine.record_eq_some.2 ⟨_, hnoted, t.record_markAll [.reject r]⟩)
    cases reported with
    | some r' => exact absurd he (hreports.1 rfl)
    | none =>
      obtain ⟨purpose', r', hr', rfl⟩ := (hfail.poll_points rfl).1
      obtain ⟨rfl, rfl⟩ := hr.unique hr'
      exact ⟨hyields _ rfl, by rw [hproceed]; rfl⟩
  · exact hw.handled hnamed htrail hallowed hr hpd hnoted (hmade.trans hlater)

/-- The switch is about to be halted at once, and is poked meanwhile. The callback that is to halt it has been
called, and is going to fail. -/
def Switch.exploding : World Unit Unit :=
  ((((World.start machine).begin (.send "halt" [.string "now"])).begin (.send "poke" [])).begin (.poll 0)).reply
    answers

theorem Switch.reaches_exploding : Reaches machine exploding :=
  (((Reaches.start.begin (.send "halt" [.string "now"])).begin (.send "poke" [])).begin (.poll 0)).next
    (World.next_reply rfl answers)

/-- Where the callback has failed, and its transition is about to reject. -/
def Switch.exploded : Scene Unit Unit :=
  exploding.scene.make (.note 0 (.settle .willEnter "transition:explode" (.error (.string "boom"))))

/-- What the switch is told of it. -/
def Switch.explosion : Json := .object [
  ("error", .string "boom"),
  ("transition", .object [("id", .string "0"), ("event", .string "halt"), ("fromState", .string "off"),
    ("toState", .string "stopped"), ("eventArgs", .array [.string "now"])])]

/-- The failure aborts the poke, and the error event is sent for it, which is told of the failure and of what
failed: the switch fails. -/
theorem rejection_handled_exploding :
    Switch.exploding.machine.active = [0, 1] ∧
      (Switch.exploding.reply Switch.answers).machine.isAborted 1 = true ∧
      (∀ d ∈ (Switch.exploding.reply Switch.answers).trace, d.commits 0 = false ∧ d.commits 1 = false) ∧
      Attempt Switch.machine 0 (.callback (.string "boom")) [Switch.explosion]
        ((Switch.exploded.make (.note 0 (.reject (.callback (.string "boom"))))).make
          (.fail 0 0 (some (.callback (.string "boom"))))) (Switch.exploding.reply Switch.answers) ∧
      ((Switch.exploding.reply Switch.answers).machine.transition? 2).map
        (fun t => (t.record.event, t.record.fromState, t.record.toState, t.args)) =
          some ("error", "off", "failed", [Switch.explosion]) ∧
      (Switch.exploding.reply Switch.answers).trace.any (Deed.commits 2) = true ∧
      (Switch.exploding.reply Switch.answers).machine.isAborted 2 = false ∧
      (Switch.exploding.reply Switch.answers).machine.state = "failed" := by
  have hbefore : Switch.exploding.trace <+: Switch.exploded.trace := List.prefix_append _ _
  have hmade : (Switch.exploded.make (.note 0 (.reject (.callback (.string "boom"))))).trace <+:
      (Switch.exploding.reply Switch.answers).trace := ⟨_, rfl⟩
  have hperforms : Switch.exploded.machine.Performs 0 0 .dispatch := rfl
  have hnext : Switch.exploding.Next (.poll 0) (Switch.exploding.reply Switch.answers) :=
    World.next_reply rfl Switch.answers
  obtain ⟨t, ht, -, hhandled⟩ := rejection_handled Switch.build_spec Switch.reaches_exploding hnext hperforms
    rfl hbefore hmade
  have hlater := hhandled _ (Switch.reaches_exploding.next hnext) List.prefix_rfl
  obtain ⟨haborted, -, huncommitted⟩ := hlater.others 1 (by decide) (by decide)
  have hevent : t.record.event ≠ "error" := by
    cases ht
    decide
  have hattempt := (hlater.attempted hevent).2
  refine ⟨rfl, haborted, fun d hd => ⟨hlater.uncommitted d hd, huncommitted d hd⟩, ?_, rfl, rfl, rfl, rfl⟩
  cases ht
  exact hattempt

end StateEngine
