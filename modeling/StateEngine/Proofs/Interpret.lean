import StateEngine.Proofs.Advancing
import StateEngine.Proofs.Meaning

/-!
# A driven machine refines the interpreter

While an event is driven, one transition is active and one future performs it: that of the event, or that
of the error event after a rejection. Whatever is polled, what the interpreter makes of the event stays
the same, and each poll of a future that is due brings it nearer to its end.

* `Driver.Underway`: an event under way, and what it will end with.
* `poll_ensures`: **one poll** settles the event as the interpreter does, or leaves it under way, nearer.
* `Driver.Underway.terminates`, `Driver.Underway.completes`: an event that is driven.
* `drives_interpret`: **a driven machine refines the interpreter**, after any number of events.
-/

namespace StateEngine

open Program Relation

variable {κ φ : Type} {d : Driver κ φ} {m m' : Machine κ φ} {id : TransitionId} {phase : Phase}

/-! ## Machines that are driven -/

/-- The only transition that is active, and the future that performs it. -/
structure Machine.Alone (m : Machine κ φ) (f : FutureId) (id : TransitionId) (purpose : Purpose)
    (stage : Stage φ) (record : Record) (args : List Json) : Prop where
  future : m.future? f = some ⟨id, purpose, stage⟩
  active : m.active = [id]
  book : ∃ t, m.transition? id = some t ∧ t.record = record ∧ t.args = args ∧ t.isAborted = false

/-- A machine that an interpreter is of, by the target of a driver. -/
structure Driver.Hosts (d : Driver κ φ) (I : Interpreter κ) (m : Machine κ φ) : Prop where
  interpreter_eq : d.interpreter m = I
  targetName_eq : m.targetName = d.target.describe

/-- A machine between two events. -/
structure Driver.Idle (d : Driver κ φ) (I : Interpreter κ) (m : Machine κ φ) : Prop
    extends d.Hosts I m where
  active : m.active = []

/-- Where a machine is, as the interpreter has it. -/
def Machine.config (m : Machine κ φ) : Interpreter.Config :=
  ⟨m.state, m.history.entries, m.transitions.length⟩

variable {f : FutureId} {purpose : Purpose} {stage : Stage φ} {record : Record} {args : List Json}
  {I : Interpreter κ}

theorem Machine.Alone.noted (h : m.Alone f id purpose stage record args) (hn : m.Noted id m') :
    m'.Alone f id purpose stage record args := by
  obtain ⟨t, ht, hrecord, hargs, haborted⟩ := h.book
  obtain ⟨t', ht', hrecord', hargs', haborted'⟩ := hn.book t ht
  refine ⟨?_, ?_, t', ht', hrecord'.trans hrecord, hargs'.trans hargs, haborted'.trans haborted⟩
  · rw [hn.eq]
    exact h.future
  · rw [hn.eq]
    exact h.active

theorem Machine.Alone.setStage (h : m.Alone f id purpose stage record args) (stage' : Stage φ) :
    (m.setStage f stage').Alone f id purpose stage' record args :=
  ⟨future_setStage h.future stage', h.active, h.book⟩

/-- A transition that is sent is alone, if nothing was active. -/
theorem Machine.alone_launch (record : Record) (args : List Json) (ha : m.active = []) :
    (m.launch record args).Alone m.nextFuture m.nextTransition .dispatch .unpolled record args := by
  have hactive : (m.launch record args).active = m.active ++ [m.nextTransition] := rfl
  rw [ha, List.nil_append] at hactive
  exact ⟨future_eq_some.2 List.getElem?_concat_length, hactive, _, List.getElem?_concat_length,
    rfl, rfl, rfl⟩

/-- So is a transition of the error event. -/
theorem Machine.alone_relaunch (rejection : Rejection) (record : Record) (args : List Json) {x : Future φ}
    (hf : m.future? f = some x) (ha : m.active = []) :
    (m.relaunch f rejection record args).Alone f m.nextTransition (.recovery rejection) .busy record
      args := by
  have hactive : (m.relaunch f rejection record args).active = m.active ++ [m.nextTransition] := rfl
  rw [ha, List.nil_append] at hactive
  exact ⟨future_eq_some.2 (List.getElem?_set_self (lt_of_future hf)), hactive, _,
    transition_relaunch .., rfl, rfl, rfl⟩

theorem Machine.Noted.interpreter (hn : m.Noted id m') : d.interpreter m' = d.interpreter m := by
  rw [hn.eq]
  rfl

theorem Machine.Noted.config (hn : m.Noted id m') : m'.config = m.config := by
  unfold Machine.config
  rw [hn.length_eq, hn.eq]

theorem Driver.Hosts.noted (h : d.Hosts I m) (hn : m.Noted id m') : d.Hosts I m' :=
  ⟨hn.interpreter.trans h.interpreter_eq, hn.targetName.trans h.targetName_eq⟩

theorem Machine.config_fail (m : Machine κ φ) (f : FutureId) (id : TransitionId) (rejection : Option Rejection) :
    (m.fail f id rejection).config = m.config := by
  have hkeeps := Machine.fail_keeps (m := m) f id rejection
  unfold Machine.config
  rw [hkeeps.state_eq, hkeeps.history_eq, hkeeps.length_eq]

/-- A rejection leaves nothing active. -/
theorem Driver.Hosts.fail (h : d.Hosts I m) (f : FutureId) (id : TransitionId)
    (rejection : Option Rejection) : d.Idle I (m.fail f id rejection) := by
  rw [Machine.fail_eq]
  exact ⟨⟨h.interpreter_eq, h.targetName_eq⟩, rfl⟩

/-- Listeners leave the machine alone. -/
theorem notify_ensures (change : StateChange) :
    (notify change).Ensures d (fun _ m' => m' = m) m := by
  refine .bind (.look ?_)
  generalize List.range m.listeners = listeners
  induction listeners with
  | nil => exact .pure rfl
  | cons listener rest ih => exact .bind (.ask fun _ _ => ih)

/-- **A transition that is alone is committed.** -/
theorem settle_ensures (hm : d.Hosts I m) (h : m.Alone f id purpose .busy record args) :
    (settle f id record).Ensures d (fun _ m' => d.Idle I m' ∧
      m'.config = Interpreter.commit m.config record.event record) m := by
  obtain ⟨t, ht, -, -, haborted⟩ := h.book
  have hsettles : (m.isActive id && !m.isAborted id) = true := by
    simp [Machine.isActive, Machine.isAborted, h.active, ht, haborted]
  refine .bind (.look ?_)
  rw [if_pos hsettles]
  refine .bind (.make ((notify_ensures _).mono ?_))
  rintro _ _ rfl
  refine ⟨⟨⟨hm.interpreter_eq, hm.targetName_eq⟩, ?_⟩, rfl⟩
  have hactive : (m.commit f id record).active = m.active.filter (· != id) := rfl
  exact hactive.trans (by simp [h.active])

/-! ## An event under way -/

/-- Whether a future that performs a record may be for a purpose, while events are driven. -/
def Purpose.Drives (record : Record) : Purpose → Prop
  | .dispatch => True
  | .recovery _ => record.event = errorEvent
  | _ => False

/-- What becomes of an event whose transition has come to a result. -/
def Interpreter.concluded (I : Interpreter κ) (c : Config) (id : TransitionId) (record : Record)
    (args : List Json) (result : Except Rejection Unit) : Config :=
  I.conclude c (I.idText id) record.event record args (result.mapError Rejection.toJson)

/-- After the error event there is no other one. -/
theorem Interpreter.concluded_errorEvent (I : Interpreter κ) (c : Config) (id : TransitionId)
    {record : Record} (h : record.event = errorEvent) (args : List Json) (result : Except Rejection Unit) :
    I.concluded c id record args result = match result with
      | .ok () => commit c errorEvent record
      | .error _ => c := by
  unfold concluded
  rw [h]
  cases result <;> rfl

/-- **An event under way**: one transition is active, and what the interpreter makes of what it comes to
is what the event will end with. -/
structure Driver.Underway (d : Driver κ φ) (I : Interpreter κ) (f : FutureId)
    (goal : Interpreter.Config) (purpose : Purpose) (stage : Stage φ) (m : Machine κ φ) : Prop
    extends d.Hosts I m where
  going : ∃ id record args result, m.Alone f id purpose stage record args ∧
    d.Leads I.definition record args result m.wakeUps stage ∧ purpose.Drives record ∧
      I.concluded m.config id record args result = goal

/-- How near a future of a purpose that stands somewhere is to its end: the error event is dispatched
after the event itself. -/
def Purpose.rank (stage : Stage φ) : Purpose → Nat
  | .dispatch => Phase.all.length + 1 + stage.left
  | _ => stage.left

/-- Whether a future is nearer to its end. -/
def Driver.Onward (d : Driver κ φ) (purpose' : Purpose) (stage' : Stage φ) (purpose : Purpose)
    (stage : Stage φ) : Prop :=
  purpose'.rank stage' < purpose.rank stage ∨
    purpose'.rank stage' = purpose.rank stage ∧ TransGen d.MovesIn stage'.calls stage.calls

theorem Driver.Nearer.onward {stage' : Stage φ} (h : d.Nearer stage' stage) (purpose : Purpose) :
    d.Onward purpose stage' purpose stage := by
  unfold Driver.Nearer at h
  unfold Driver.Onward Purpose.rank
  rcases h with hleft | ⟨hleft, hmoves⟩
  · left
    cases purpose <;> dsimp only <;> omega
  · right
    refine ⟨?_, hmoves⟩
    cases purpose <;> dsimp only <;> omega

/-- What a poll makes of an event under way: it is settled, or it is under way still. -/
inductive Driver.Yields (d : Driver κ φ) (I : Interpreter κ) (f : FutureId)
    (goal : Interpreter.Config) (onward : Purpose → Stage φ → Prop) :
    Polled → Machine κ φ → Prop where
  | ended {polled : Polled} {m : Machine κ φ} :
      polled ≠ .pending → d.Idle I m → m.config = goal → Yields d I f goal onward polled m
  | pending {purpose : Purpose} {stage : Stage φ} {m : Machine κ φ} :
      d.Underway I f goal purpose stage m → onward purpose stage → Yields d I f goal onward .pending m

variable {goal : Interpreter.Config} {onward : Purpose → Stage φ → Prop} {rejection : Rejection}

/-- How far a transition has come that a poll performs: it is over, or it waits, nearer to its end. -/
structure Driver.Advanced (d : Driver κ φ) (I : Interpreter κ) (f : FutureId)
    (goal : Interpreter.Config) (onward : Purpose → Stage φ → Prop) (id : TransitionId)
    (purpose : Purpose) (record : Record) (args : List Json) (advance : Advance φ) (m : Machine κ φ) :
    Prop extends d.Hosts I m where
  alone : m.Alone f id purpose .busy record args
  drives : purpose.Drives record
  comes : ∃ result, I.concluded m.config id record args result = goal ∧
    (advance = .over result ∨ ∃ phase roster, advance = .waiting phase roster ∧
      d.Awaits I.definition record args result m.wakeUps phase roster ∧
        onward purpose (.waiting phase roster))

/-- A transition that is under way and that a poll performs. -/
theorem advanced_ensures {t : Transition} {result : Except Rejection Unit} (hm : d.Hosts I m)
    (h : m.Alone f id purpose .busy t.record t.args) (hd : purpose.Drives t.record)
    (hl : d.Leads I.definition t.record t.args result m.wakeUps stage)
    (hg : I.concluded m.config id t.record t.args result = goal)
    (ho : ∀ stage', (stage.Ready m.wakeUps → d.Nearer stage' stage) → onward purpose stage') :
    (advance id t stage).Ensures d (d.Advanced I f goal onward id purpose t.record t.args) m := by
  have hinterpreter := hm.interpreter_eq
  subst hinterpreter
  refine (advance_ensures t hm.targetName_eq hl).mono fun advance m' h' => ?_
  obtain ⟨hnoted, hadvance⟩ := h'
  refine ⟨hm.noted hnoted, h.noted hnoted, hd, result, ?_, ?_⟩
  · rw [hnoted.config]
    exact hg
  · rcases hadvance with hover | ⟨phase, roster, hwaiting, hawaits, hnearer⟩
    · exact .inl hover
    · exact .inr ⟨phase, roster, hwaiting, hawaits, ho _ hnearer⟩

/-- A transition that waits is under way still. -/
theorem rest_ensures {result : Except Rejection Unit} {roster : Roster φ} (hm : d.Hosts I m)
    (h : m.Alone f id purpose .busy record args) (hd : purpose.Drives record)
    (hg : I.concluded m.config id record args result = goal)
    (hw : d.Awaits I.definition record args result m.wakeUps phase roster)
    (ho : onward purpose (.waiting phase roster)) :
    (rest f phase roster).Ensures d (d.Yields I f goal onward) m := by
  refine .bind (.make (.pure (.pending ⟨⟨hm.interpreter_eq, hm.targetName_eq⟩, ?_⟩ ho)))
  exact ⟨id, record, args, result, h.setStage _, .waiting hw, hd, hg⟩

/-- The rejection of the error event is the end of it, and moves nothing. -/
theorem fail_ensures (hm : d.Hosts I m) (hg : m.config = goal) (id : TransitionId) (rejection : Rejection) :
    (do make (.fail f id none); pure (.rejected rejection) : Program κ φ Polled).Ensures d
      (d.Yields I f goal onward) m :=
  .bind (.make (.pure (.ended (nomatch ·) (hm.fail f id none) ((m.config_fail f id none).trans hg))))

/-- **An error dispatch** ends as the interpreter says. -/
theorem recover_ensures {advance : Advance φ}
    (h : d.Advanced I f goal onward id (.recovery rejection) record args advance m) :
    (recover f id record rejection advance).Ensures d (d.Yields I f goal onward) m := by
  obtain ⟨hm, halone, hevent, result, hgoal, rfl | ⟨phase, roster, rfl, hawaits, honward⟩⟩ := h
  · cases result with
    | ok _ =>
      refine .bind ((settle_ensures hm halone).mono fun _ m' h' => .pure ?_)
      exact .ended (nomatch ·) h'.1 (h'.2.trans hgoal)
    | error other =>
      have hstays : m.config = goal := by rw [← hgoal, I.concluded_errorEvent m.config id hevent]
      exact fail_ensures hm hstays id rejection
  · exact rest_ensures hm halone hevent hgoal hawaits honward

/-- **A rejection** is handled as the interpreter says. -/
theorem dispatchError_ensures (hn : I.definition.Named) (hm : d.Idle I m) (t : Transition)
    (hf : m.future? f = some ⟨id, .dispatch, .failed rejection⟩)
    (hg : I.recover m.config (Interpreter.report (I.idText id) t.record t.args rejection.toJson) = goal)
    (ho : ∀ stage, onward (.recovery rejection) stage) :
    (dispatchError f id t rejection).Ensures d (d.Yields I f goal onward) m := by
  have hinterpreter := hm.interpreter_eq
  subst hinterpreter
  refine .bind ((select_ensures hm.active errorEvent).mono fun found m₁ h₁ => ?_)
  obtain ⟨hm₁, hfound⟩ := h₁
  subst hm₁
  have hselected : (d.interpreter m₁).selected? "error" m₁.config.state = found.toOption := hfound.symm
  unfold Interpreter.recover at hg
  rw [hselected] at hg
  cases found with
  | error error =>
    have hidle : d.Idle (d.interpreter m₁) (m₁.closeFuture f) := ⟨⟨rfl, hm.targetName_eq⟩, hm.active⟩
    exact .bind (.make (.pure (.ended (nomatch ·) hidle hg)))
  | ok record =>
    have hevent : record.event = errorEvent := Interpreter.selected_event hn hfound.symm
    refine .bind (.look (.bind (.make (.bind ?_))))
    -- the error event is told what the interpreter tells it
    have htold : [errorPayload rejection (m₁.idText id) t] =
        [Interpreter.report ((d.interpreter m₁).idText id) t.record t.args rejection.toJson] := rfl
    rw [← htold] at hg
    generalize [errorPayload rejection (m₁.idText id) t] = args at hg ⊢
    have hhosts : d.Hosts (d.interpreter m₁) (m₁.relaunch f rejection record args) := ⟨rfl, hm.targetName_eq⟩
    have halone := Machine.alone_relaunch rejection record args hf hm.active
    have hconfig : (m₁.relaunch f rejection record args).config =
        { m₁.config with begun := m₁.config.begun + 1 } :=
      congrArg (Interpreter.Config.mk _ _) List.length_append
    have hgoal : (d.interpreter m₁).concluded (m₁.relaunch f rejection record args).config m₁.nextTransition
        record args (d.perform m₁.definition record args Phase.all) = goal := by
      rw [Interpreter.concluded_errorEvent _ _ _ hevent, hconfig, ← hg]
      dsimp only [Except.toOption]
      rw [Interpreter.perform_eq]
      cases d.perform m₁.definition record args Phase.all <;> rfl
    have hperform := advanced_ensures (t := .fresh record args) hhosts halone hevent (.unpolled rfl) hgoal
      fun stage _ => ho stage
    exact hperform.mono fun advance m' h' => recover_ensures h'

/-- **The end of an event's own transition**: it ends as the interpreter says, or its rejection is
handled so. -/
theorem conclude_ensures (hn : I.definition.Named) {t : Transition} {advance : Advance φ}
    (h : d.Advanced I f goal onward id .dispatch t.record t.args advance m)
    (ho : ∀ rejection stage, onward (.recovery rejection) stage) :
    (conclude f id t advance).Ensures d (d.Yields I f goal onward) m := by
  obtain ⟨hm, halone, hdrives, result, hgoal, rfl | ⟨phase, roster, rfl, hawaits, honward⟩⟩ := h
  · cases result with
    | ok _ =>
      refine .bind ((settle_ensures hm halone).mono fun _ m' h' => .pure ?_)
      exact .ended (nomatch ·) h'.1 (h'.2.trans hgoal)
    | error rejection =>
      unfold conclude
      unfold Interpreter.concluded Interpreter.conclude Except.mapError at hgoal
      dsimp only at hgoal ⊢
      split
      · rename_i hevent
        rw [if_pos (show t.record.event = "error" from hevent)] at hgoal
        exact fail_ensures hm hgoal id rejection
      · rename_i hevent
        rw [if_neg (show ¬ t.record.event = "error" from hevent)] at hgoal
        have hfuture := Machine.future_fail halone.future id rejection
        rw [← m.config_fail f id (some rejection)] at hgoal
        have hidle := hm.fail f id (some rejection)
        exact .bind (.make (dispatchError_ensures hn hidle t hfuture hgoal (ho rejection)))
  · exact rest_ensures hm halone hdrives hgoal hawaits honward

/-- **One poll** settles an event as the interpreter does, or leaves it under way, nearer to its end. -/
theorem poll_ensures (hn : I.definition.Named) (h : d.Underway I f goal purpose stage m) :
    (poll f).Ensures d (fun found m' => ∃ polled, found = some polled ∧
      d.Yields I f goal (fun purpose' stage' =>
        stage.Ready m.wakeUps → d.Onward purpose' stage' purpose stage) polled m') m := by
  obtain ⟨hm, id, record, args, result, halone, hleads, hdrives, hgoal⟩ := h
  obtain ⟨t, ht, rfl, rfl, haborted⟩ := halone.book
  refine .bind (.look ?_)
  rw [halone.future]
  dsimp only
  rw [hleads.idle, ht]
  refine .bind (.make (.bind ?_))
  have hbusy : d.Hosts I (m.setStage f .busy) := ⟨hm.interpreter_eq, hm.targetName_eq⟩
  have hadvance : (advance id t stage).Ensures d (d.Advanced I f goal (fun purpose' stage' =>
      stage.Ready m.wakeUps → d.Onward purpose' stage' purpose stage) id purpose t.record t.args)
      (m.setStage f .busy) :=
    advanced_ensures hbusy (halone.setStage .busy) hdrives hleads hgoal fun stage' hs hr =>
      (hs hr).onward purpose
  cases purpose with
  | phase phase => exact hdrives.elim
  | perform => exact hdrives.elim
  | dispatch =>
    refine .bind (hadvance.mono fun advance m' h' => ?_)
    refine (conclude_ensures hn h' fun rejection stage' _ => .inl ?_).mono fun polled m'' h'' =>
      .pure ⟨polled, rfl, h''⟩
    have hleft := stage'.left_le
    unfold Purpose.rank
    dsimp only
    omega
  | recovery rejection =>
    refine .bind (hadvance.mono fun advance m' h' => ?_)
    exact (recover_ensures h').mono fun polled m'' h'' => .pure ⟨polled, rfl, h''⟩

/-! ## Driving an event -/

theorem Machine.wake_iterate (m : Machine κ φ) (wakes : Nat) :
    Machine.wake^[wakes] m = { m with wakeUps := m.wakeUps + wakes } := by
  induction wakes with
  | zero => rfl
  | succ wakes ih =>
    rw [Function.iterate_succ_apply', ih]
    rfl

namespace Driver

/-- **What cannot be driven forever**: a future of which each poll that leaves it pending, with all that wakes
it, leaves it nearer to its end. -/
theorem terminates_of_onward (Inv : Purpose → Stage φ → Machine κ φ → Prop)
    (hacc : ∀ {purpose stage m}, Inv purpose stage m → Acc (TransGen d.MovesIn) stage.calls)
    (hpoll : ∀ {purpose stage m m₁}, Inv purpose stage m → stage.Ready m.wakeUps →
      d.Runs (poll f) m (some .pending) m₁ → ∃ purpose' stage', d.Onward purpose' stage' purpose stage ∧
        ∀ wakes, 0 < wakes ∨ m₁.Due f → Inv purpose' stage' (Machine.wake^[wakes] m₁) ∧
          stage'.Ready (Machine.wake^[wakes] m₁).wakeUps)
    (h : Inv purpose stage m) (hr : stage.Ready m.wakeUps) : d.Terminates f m := by
  -- by the phases that are still to come, and in each phase by the turns of its calls
  induction hrank : purpose.rank stage using Nat.strongRecOn generalizing purpose stage m with
  | _ rank ihrank =>
    have hstage := hacc h
    generalize hcalls : stage.calls = calls at hstage
    induction hstage generalizing purpose stage m with
    | intro calls _ ihcalls =>
      refine .poll fun m₁ hruns wakes hwakes => ?_
      obtain ⟨purpose', stage', honward, hafter⟩ := hpoll h hr hruns
      obtain ⟨hinv, hready⟩ := hafter wakes hwakes
      rcases honward with hlt | ⟨heq, hmoves⟩
      · exact ihrank _ (hrank ▸ hlt) hinv hready rfl
      · exact ihcalls _ (hcalls ▸ hmoves) hinv hready (heq.trans hrank) rfl

/-- Waking the machine changes nothing about the event that is under way. -/
theorem Underway.wakes (h : d.Underway I f goal purpose stage m) (wakes : Nat) :
    d.Underway I f goal purpose stage (Machine.wake^[wakes] m) := by
  obtain ⟨hm, id, record, args, result, halone, hleads, hdrives, hgoal⟩ := h
  rw [Machine.wake_iterate]
  exact ⟨⟨hm.interpreter_eq, hm.targetName_eq⟩, id, record, args, result,
    ⟨halone.future, halone.active, halone.book⟩, hleads.mono wakes, hdrives, hgoal⟩

/-- A future that is due, or whose machine was woken, is ready for the next poll. -/
theorem Underway.ready (h : d.Underway I f goal purpose stage m) {wakes : Nat}
    (hwakes : 0 < wakes ∨ m.Due f) : stage.Ready (Machine.wake^[wakes] m).wakeUps := by
  obtain ⟨hm, id, record, args, result, halone, hleads, -, -⟩ := h
  rw [Machine.wake_iterate]
  exact hleads.ready halone.future hwakes

theorem Underway.acc (h : d.Underway I f goal purpose stage m) :
    Acc (TransGen d.MovesIn) stage.calls := by
  obtain ⟨-, id, record, args, result, -, hleads, -, -⟩ := h
  exact hleads.acc

/-- **An event under way cannot be driven forever.** -/
theorem Underway.terminates (hn : I.definition.Named)
    (h : d.Underway I f goal purpose stage m) (hr : stage.Ready m.wakeUps) :
    d.Terminates f m := by
  refine terminates_of_onward (d.Underway I f goal) Underway.acc ?_ h hr
  intro purpose stage m m₁ h hr hruns
  obtain ⟨polled, hsome, hyields⟩ := hruns.ensures (poll_ensures hn h)
  cases hsome
  cases hyields with
  | ended hover _ _ => exact absurd rfl hover
  | pending hunder honward =>
    exact ⟨_, _, honward hr, fun wakes hwakes => ⟨hunder.wakes wakes, hunder.ready hwakes⟩⟩

/-- **An event that was driven to completion** ended as the interpreter says. -/
theorem Underway.completes (hn : I.definition.Named)
    (h : d.Underway I f goal purpose stage m) (hc : d.Completes f m m') :
    d.Idle I m' ∧ m'.config = goal := by
  induction hc generalizing purpose stage with
  | ended hruns hover =>
    obtain ⟨polled, hsome, hyields⟩ := hruns.ensures (poll_ensures hn h)
    cases hsome
    cases hyields with
    | ended _ hidle hgoal => exact ⟨hidle, hgoal⟩
    | pending _ _ => exact absurd rfl hover
  | again hruns _ ih =>
    obtain ⟨polled, hsome, hyields⟩ := hruns.ensures (poll_ensures hn h)
    cases hsome
    cases hyields with
    | ended hover _ _ => exact absurd rfl hover
    | pending hunder _ => exact ih hunder
  | wake _ ih => exact ih (h.wakes 1)

/-- An event under way can be driven to its completion. -/
theorem Underway.exists_completes (hn : I.definition.Named) (ht : d.Terminates f m)
    (h : d.Underway I f goal purpose stage m) : ∃ m', d.Completes f m m' := by
  induction ht generalizing purpose stage with
  | @poll m _ ih =>
    obtain ⟨found, m₁, hruns⟩ := d.runs_any (poll f) m
    obtain ⟨polled, rfl, hyields⟩ := hruns.ensures (poll_ensures hn h)
    cases hyields with
    | ended hover _ _ => exact ⟨m₁, .ended hruns hover⟩
    | pending hunder _ =>
      obtain ⟨m', hc⟩ := ih m₁ hruns 1 (.inl Nat.one_pos) (hunder.wakes 1)
      exact ⟨m', .again hruns (.wake hc)⟩

/-! ## Driving a list of events -/

/-- **An event that is sent** to an idle machine is refused, or under way to what the interpreter makes
of it. -/
theorem Idle.send_ensures (hn : I.definition.Named) (h : d.Idle I m) (event : String) (args : List Json) :
    (send event args).Ensures d (fun sent m' =>
      let goal := I.step m.config (event, args)
      (∃ error, sent = .error error ∧ d.Idle I m' ∧ m'.config = goal) ∨
        ∃ id f, sent = .ok (id, f) ∧ d.Underway I f goal .dispatch .unpolled m') m := by
  have hinterpreter := h.interpreter_eq
  subst hinterpreter
  refine .bind ((select_ensures h.active event).mono fun found m h' => ?_)
  obtain ⟨rfl, hfound⟩ := h'
  have hselected : (d.interpreter m).selected? event m.config.state = found.toOption := hfound.symm
  unfold Interpreter.step
  dsimp only
  rw [hselected]
  cases found with
  | error error => exact .pure (.inl ⟨error, rfl, h, rfl⟩)
  | ok record =>
    have hevent : record.event = event := Interpreter.selected_event hn hfound.symm
    have hconfig : (m.launch record args).config = { m.config with begun := m.config.begun + 1 } :=
      congrArg (Interpreter.Config.mk _ _) List.length_append
    refine .bind (.look (.bind (.make (.pure (.inr ⟨_, _, rfl, ⟨rfl, h.targetName_eq⟩, ?_⟩)))))
    refine ⟨_, record, args, _, Machine.alone_launch record args h.active, .unpolled rfl, trivial, ?_⟩
    have hperform := Interpreter.perform_eq (d := d) (m := m) record args
    unfold Interpreter.concluded
    dsimp only [Except.toOption]
    rw [hperform, hevent]
    exact congrArg (fun c => (d.interpreter m).conclude c _ event record args _) hconfig

variable {events : List (String × List Json)}

/-- **A machine that was driven** is where the interpreter is, and idle. -/
theorem Idle.drives (hn : I.definition.Named) (h : d.Idle I m) (hd : d.Drives events m m') :
    d.Idle I m' ∧ m'.config = events.foldl I.step m.config := by
  induction hd with
  | nil m => exact ⟨h, rfl⟩
  | refused hruns _ ih =>
    rcases hruns.ensures (h.send_ensures hn _ _) with ⟨error, -, hidle, hstep⟩ | ⟨id, f, hsent, -⟩
    · rw [List.foldl_cons, ← hstep]
      exact ih hidle
    · exact nomatch hsent
  | sent hruns hc _ ih =>
    rcases hruns.ensures (h.send_ensures hn _ _) with ⟨error, hsent, -⟩ | ⟨id, f, hsent, hunder⟩
    · exact nomatch hsent
    · cases hsent
      obtain ⟨hidle, hstep⟩ := hunder.completes hn hc
      rw [List.foldl_cons, ← hstep]
      exact ih hidle

/-- Events can be driven. -/
theorem Idle.exists_drives (hn : I.definition.Named) (events : List (String × List Json)) :
    ∀ {m : Machine κ φ}, d.Idle I m → ∃ m', d.Drives events m m' := by
  induction events with
  | nil => exact fun {m} _ => ⟨m, .nil m⟩
  | cons first rest ih =>
    intro m h
    obtain ⟨event, args⟩ := first
    obtain ⟨sent, m₁, hruns⟩ := d.runs_any (send event args) m
    rcases hruns.ensures (h.send_ensures hn event args) with ⟨error, rfl, hidle, -⟩ | ⟨id, f, rfl, hunder⟩
    · obtain ⟨m', hd⟩ := ih hidle
      exact ⟨m', .refused hruns hd⟩
    · obtain ⟨m₂, hc⟩ := hunder.exists_completes hn (hunder.terminates hn trivial)
      obtain ⟨m', hd⟩ := ih (hunder.completes hn hc).1
      exact ⟨m', .sent hruns hc hd⟩

theorem Completes.reaches {m₀ : Machine κ φ} (hc : d.Completes f m m') :
    ∀ {trace : List (Deed κ φ)}, Reaches m₀ ⟨⟨m, trace⟩, []⟩ →
      ∃ trace', Reaches m₀ ⟨⟨m', trace'⟩, []⟩ := by
  induction hc with
  | ended hruns _ => exact fun hm => Runs.reaches (.poll f) hruns hm
  | again hruns _ ih =>
    intro trace hm
    obtain ⟨trace₁, hm₁⟩ := Runs.reaches (.poll f) hruns hm
    exact ih hm₁
  | wake _ ih => exact fun hm => ih (hm.next (.start .wake _))

/-- **Driving events is a run of the machine**, in which nothing waits at its end. -/
theorem Drives.reaches {m₀ : Machine κ φ} (hd : d.Drives events m m') :
    ∀ {trace : List (Deed κ φ)}, Reaches m₀ ⟨⟨m, trace⟩, []⟩ →
      ∃ trace', Reaches m₀ ⟨⟨m', trace'⟩, []⟩ := by
  induction hd with
  | nil m => exact fun hm => ⟨_, hm⟩
  | @refused event args error events m m₁ m' hruns _ ih =>
    intro trace hm
    obtain ⟨trace₁, hm₁⟩ := Runs.reaches (.send event args) hruns hm
    exact ih hm₁
  | @sent event args id f events m m₁ m₂ m' hruns hc _ ih =>
    intro trace hm
    obtain ⟨trace₁, hm₁⟩ := Runs.reaches (.send event args) hruns hm
    obtain ⟨trace₂, hm₂⟩ := hc.reaches hm₁
    exact ih hm₂

end Driver

/-- **A driven machine refines the textbook interpreter.** Whatever the driver answers, and however often
it polls and wakes, after any number of events the machine is in the interpreter's state, with the
interpreter's history, by a run of the machine. Events can be driven so, and none can be driven
forever. The interpreter selects the first record that wins, and a record succeeds for it if each callback of
all six phases is there and succeeds. -/
theorem drives_interpret (d : Driver κ φ) {spec : Json} {inline : List (InlineHook κ)}
    {idText : TransitionId → String} {initialState : Option String} {listeners : Nat} {m : Machine κ φ}
    (hb : Machine.build spec inline d.target.describe idText initialState listeners = .ok m)
    (events : List (String × List Json)) :
    (∃ m', d.Drives events m m') ∧
      (∀ m', d.Drives events m m' →
        m'.state = ((d.interpreter m).interpret m.state events).state ∧
          m'.history.entries = ((d.interpreter m).interpret m.state events).entries ∧
            (∃ trace, Reaches m ⟨⟨m', trace⟩, []⟩) ∧
              ∀ event args id f m₁, d.Runs (send event args) m' (.ok (id, f)) m₁ → d.Terminates f m₁) ∧
      (∀ event state record, (d.interpreter m).selected? event state = some record ↔
        ∃ before after, m.definition.recordsFor event (some state) = before ++ record :: after ∧
          (∀ other ∈ before, (d.interpreter m).wins? other state = some false) ∧
            (d.interpreter m).wins? record state = some true) ∧
      ∀ record args, (d.interpreter m).perform record args = .ok () ↔
        ∀ phase, ∀ found ∈ (d.interpreter m).called record phase, ∃ callback, found = .ok callback ∧
          ∃ value, d.outcome callback ⟨record.event, record.fromState, record.toState, phase, args⟩ = .ok value := by
  obtain ⟨definition, state, rfl, hn⟩ := Machine.build_eq_ok hb
  have hidle : d.Idle (d.interpreter (.start definition d.target.describe idText state listeners))
      (.start definition d.target.describe idText state listeners) := ⟨⟨rfl, rfl⟩, rfl⟩
  refine ⟨hidle.exists_drives hn events, fun m' hd => ?_, fun _ _ _ => Interpreter.winner_eq_some,
    fun _ _ => Interpreter.perform_eq_ok⟩
  obtain ⟨hidle', hconfig⟩ := hidle.drives hn hd
  refine ⟨congrArg (·.state) hconfig, congrArg (·.entries) hconfig, hd.reaches .start,
    fun event args id f m₁ hruns => ?_⟩
  rcases hruns.ensures (hidle'.send_ensures hn event args) with
    ⟨error, hsent, -⟩ | ⟨id', f', hsent, hunder⟩
  · exact nomatch hsent
  · cases hsent
    exact hunder.terminates hn trivial

namespace Pump

/-- A pump that is started unless it is dry, and that breaks if it cannot be stopped. -/
def spec : Json := .object [
  ("states", .object [("initialState", .string "idle"), ("running", .object [("didEnter", .string "prime")])]),
  ("events", .object [
    ("start", .object [("transitions", .array [
      .object [("idle", .string "broken"), ("guard", .string "cracked")],
      .object [("idle", .string "running"), ("unless", .string "dry")]])]),
    ("stop", .object [("transition", .object [("running", .string "idle"), ("before", .string "drain")])]),
    ("error", .object [("transition", .object [("running", .string "broken"), ("before", .string "alarm")])])])]

def events : List Event :=
  [⟨"start", [⟨"start", "idle", "broken", ⟨some "cracked", none⟩, .ofFn fun _ => []⟩,
      ⟨"start", "idle", "running", ⟨none, some "dry"⟩, .ofFn fun _ => []⟩]⟩,
    ⟨"stop", [⟨"stop", "running", "idle", .none, ⟨["drain"], [], [], [], [], []⟩⟩]⟩,
    ⟨"error", [⟨"error", "running", "broken", .none, ⟨["alarm"], [], [], [], [], []⟩⟩]⟩]

def definition : Definition String :=
  ⟨"idle", ["idle", "broken", "running"].map (State.ofRecords (events.flatMap (·.records))), events,
    [⟨"running", .didEnter, .named "prime"⟩]⟩

def machine : Machine String (Nat × Outcome) := .start definition "pump" toString "idle" 0

theorem build_spec : Machine.build spec [] "pump" toString none 0 = .ok machine := rfl

/-- The pump is primed if it is started slowly, it cannot be drained, and the alarm has to be told of that. -/
def outcome (callback : String) (context : Context) : Outcome :=
  match callback, context with
  | "prime", ⟨"start", "idle", "running", .didEnter, [.string "slowly"]⟩ => .ok .null
  | "drain", ⟨"stop", "running", "idle", .beforeEvent, []⟩ => .error (.string "stuck")
  | "alarm", ⟨"error", "running", "broken", .beforeEvent, [.object [("error", .string "stuck"),
      ("transition", .object [("id", .string "1"), ("event", .string "stop"), ("fromState", .string "running"),
        ("toState", .string "idle"), ("eventArgs", .array [])])]]⟩ => .ok .null
  | _, _ => .error .null

/-- A driver of the pump. Neither is it cracked nor dry, and each of its callbacks sleeps twice. -/
def driver : Driver String (Nat × Outcome) where
  target := ⟨"pump", [("cracked", .value (.number (.integer 0))), ("dry", .value (.string ""))],
    ["prime", "drain", "alarm"].map fun name => (name, name)⟩
  outcome := outcome
  calls callback context settlement := settlement = .pending (2, outcome callback context)
  polls
    | (0, outcome), awaited => awaited = .settled outcome
    | (left + 1, outcome), awaited => awaited = .sleeping (left, outcome)
  calls_any _ _ := ⟨_, rfl⟩
  polls_any
    | (0, _) => ⟨_, rfl⟩
    | (_ + 1, _) => ⟨_, rfl⟩
  settles := by
    rintro callback context _ rfl
    generalize 2 = left
    induction left with
    | zero =>
      refine .pending (fun _ h => nomatch h) (fun _ h => nomatch h) fun _ h => ?_
      cases h
      rfl
    | succ left ih =>
      refine .pending (fun _ h => nomatch h) (fun _ h => ?_) fun _ h => nomatch h
      cases h
      exact ih

end Pump

/-- The pump is started slowly, breaks when it is stopped, and then cannot be started any more. -/
theorem drives_interpret_pump :
    Machine.build Pump.spec [] Pump.driver.target.describe toString none 0 = .ok Pump.machine ∧
      (∃ m', Pump.driver.Drives [("start", [.string "slowly"]), ("stop", []), ("start", [])] Pump.machine m') ∧
      ∀ m', Pump.driver.Drives [("start", [.string "slowly"]), ("stop", []), ("start", [])] Pump.machine m' →
        m'.state = "broken" ∧
          m'.history.entries = [⟨"start", "idle", "running", ()⟩, ⟨"error", "running", "broken", ()⟩] := by
  obtain ⟨hany, hall, -⟩ := drives_interpret Pump.driver Pump.build_spec
    [("start", [.string "slowly"]), ("stop", []), ("start", [])]
  have hinterpret : (Pump.driver.interpreter Pump.machine).interpret Pump.machine.state
      [("start", [.string "slowly"]), ("stop", []), ("start", [])] =
        ⟨"broken", [⟨"start", "idle", "running", ()⟩, ⟨"error", "running", "broken", ()⟩], 3⟩ := rfl
  refine ⟨Pump.build_spec, hany, fun m' hd => ?_⟩
  obtain ⟨hstate, hentries, -⟩ := hall m' hd
  rw [hinterpret] at hstate hentries
  exact ⟨hstate, hentries⟩

end StateEngine
