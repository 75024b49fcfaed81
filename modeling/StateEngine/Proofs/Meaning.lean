import StateEngine.Proofs.Driving

/-!
# What a record means

The interpreter tells from the tables alone what a record calls and what it comes to. The phases of a
transition come to just that with a driver, but for the form of a rejection.

* `Interpreter.called_eq`: what a phase calls is what it lists.
* `Interpreter.perform_eq`: **what a record comes to** is what its phases come to.
* `Interpreter.perform_eq_ok`: **when a record succeeds**, by the callbacks of all six phases.
-/

namespace StateEngine

namespace Interpreter

variable {κ φ : Type} {d : Driver κ φ} {m : Machine κ φ} {record : Record} {args : List Json} {phase : Phase}

/-! ## What a phase calls -/

/-- A missing callback, as the error event is told of it. -/
def told (missing : MissingCallback) : Json := (Rejection.missing missing).toJson

theorem targetName_eq : (d.interpreter m).targetName = d.target.describe := by
  unfold targetName Target.describe defaultTargetName
  by_cases h : d.target.name = ""
  · simp [Driver.interpreter, h]
  · simp [Driver.interpreter, h]

/-- A callback is found if a phase finds it, and else the message is that of the phase. -/
theorem callback_eq {name namedBy : String} (missing : String → MissingCallback)
    (h : told (missing d.target.describe) = .string ("callback \"" ++ name ++ "\" on target \"" ++
      d.target.describe ++ "\" is not defined, it is named by the " ++ namedBy)) :
    (d.interpreter m).callback name namedBy = (d.named name missing).mapError told := by
  unfold callback Driver.named Target.callback?
  rw [targetName_eq, ← h]
  unfold Driver.interpreter
  dsimp only
  cases d.target.callbacks.lookup name <;> rfl

/-- The hooks of a state are those that a phase lists. -/
theorem hooks_eq (record : Record) (state : String) (phaseName : String) (h : phase.name = phaseName) :
    (d.interpreter m).hooks state phase phaseName =
      (m.definition.listedHooks state phase).map fun listed => (d.find record phase listed).mapError told := by
  subst h
  have hfilter : (m.definition.hooks.filter fun hook => hook.state = state ∧ hook.phase = phase) =
      m.definition.hooks.filter fun hook => hook.state == state && hook.phase == phase :=
    List.filter_congr fun hook _ => Bool.eq_iff_iff.2 (by simp)
  unfold hooks Definition.listedHooks Definition.hooksOf
  refine List.ext_getElem? fun i => ?_
  rw [show (d.interpreter m).definition = m.definition from rfl, hfilter]
  simp only [List.getElem?_map, List.getElem?_mapIdx, Option.map_map]
  refine Option.map_congr fun hook _ => ?_
  obtain ⟨_, _, name | callback⟩ := hook
  · exact callback_eq (fun target => .stateHook name target state phase)
      (congrArg Json.string (MissingCallback.message_stateHook ..))
  · rfl

/-- So are the callbacks that a record names. -/
theorem named_eq (record : Record) (phaseName : String) (h : phase.name = phaseName) (names : List String) :
    (d.interpreter m).named record phaseName names =
      (names.map Listed.transition).map fun listed => (d.find record phase listed).mapError told := by
  subst h
  unfold named
  rw [List.map_map]
  refine List.map_congr_left fun name _ => ?_
  exact callback_eq (fun target => .transition name target record phase)
    (congrArg Json.string (MissingCallback.message_transition ..))

theorem hooks_named_eq (record : Record) (state phaseName : String) (h : phase.name = phaseName)
    (names : List String) :
    (d.interpreter m).hooks state phase phaseName ++ (d.interpreter m).named record phaseName names =
      (m.definition.listedHooks state phase ++ names.map Listed.transition).map fun listed =>
        (d.find record phase listed).mapError told := by
  rw [List.map_append, hooks_eq record state phaseName h, named_eq record phaseName h]

/-- **What a phase calls** is what it lists. -/
theorem called_eq (record : Record) (phase : Phase) :
    (d.interpreter m).called record phase =
      (m.definition.listed record phase).map fun listed => (d.find record phase listed).mapError told := by
  cases phase with
  | beforeEvent => exact named_eq record "beforeEvent" rfl record.callbacks.beforeEvent
  | willExit => exact hooks_named_eq record record.fromState "willExit" rfl record.callbacks.willExit
  | willEnter => exact hooks_named_eq record record.toState "willEnter" rfl record.callbacks.willEnter
  | didExit => exact hooks_named_eq record record.fromState "didExit" rfl record.callbacks.didExit
  | didEnter => exact hooks_named_eq record record.toState "didEnter" rfl record.callbacks.didEnter
  | afterEvent => exact named_eq record "afterEvent" rfl record.callbacks.afterEvent

/-! ## What a phase comes to -/

/-- Calls come to what their outcomes do together. -/
theorem verdict_eq (outcomes : List Outcome) :
    verdict outcomes = (StateEngine.verdict outcomes).mapError Rejection.toJson := by
  induction outcomes with
  | nil => rfl
  | cons outcome later ih =>
    rw [verdict, ih]
    unfold StateEngine.verdict
    cases outcome with
    | ok value =>
      rw [lastFailure_ok]
      cases lastFailure? later <;> rfl
    | error reason =>
      rw [lastFailure_error]
      cases lastFailure? later <;> rfl

theorem mapM_mapError {α β ε ε' : Type} (f : α → Except ε β) (g : ε → ε') (l : List α) :
    (l.map fun a => (f a).mapError g).mapM id = (l.mapM f).mapError g := by
  induction l with
  | nil => rfl
  | cons a rest ih =>
    rw [List.map_cons, List.mapM_cons, List.mapM_cons, ih]
    cases f a with
    | error e => rfl
    | ok b => cases rest.mapM f <;> rfl

/-- **What a phase comes to** is what it comes to with the driver. -/
theorem phase_eq (record : Record) (args : List Json) (phase : Phase) :
    (d.interpreter m).phase record args phase =
      (d.phase m.definition record args phase).mapError Rejection.toJson := by
  unfold Interpreter.phase Driver.phase
  rw [called_eq, mapM_mapError]
  cases (m.definition.listed record phase).mapM (d.find record phase) with
  | error missing => rfl
  | ok callbacks => exact verdict_eq _

theorem forM_phase (record : Record) (args : List Json) (phases : List Phase) :
    phases.forM ((d.interpreter m).phase record args) =
      (d.perform m.definition record args phases).mapError Rejection.toJson := by
  induction phases with
  | nil => rfl
  | cons phase rest ih =>
    rw [List.forM_eq_forM, List.forM_cons, ← List.forM_eq_forM, ih, phase_eq, Driver.perform]
    cases d.phase m.definition record args phase <;> rfl

/-- **What a record comes to** is what its phases come to with the driver. -/
theorem perform_eq (record : Record) (args : List Json) :
    (d.interpreter m).perform record args =
      (d.perform m.definition record args Phase.all).mapError Rejection.toJson :=
  forM_phase record args Phase.all

/-! ## When a record succeeds -/

variable {I : Interpreter κ}

theorem verdict_eq_ok {outcomes : List Outcome} :
    verdict outcomes = .ok () ↔ ∀ outcome ∈ outcomes, ∃ value, outcome = .ok value := by
  induction outcomes with
  | nil => simp [verdict]
  | cons outcome rest ih =>
    rw [List.forall_mem_cons, ← ih, verdict, and_comm]
    cases verdict rest with
    | error reason => simp [bind, Except.bind]
    | ok _ => cases outcome <;> simp [bind, Except.bind, pure, Except.pure]

theorem mapM_id_eq_ok {ε : Type} {P : κ → Prop} {called : List (Except ε κ)} :
    (∃ callbacks, called.mapM id = .ok callbacks ∧ ∀ callback ∈ callbacks, P callback) ↔
      ∀ found ∈ called, ∃ callback, found = .ok callback ∧ P callback := by
  induction called with
  | nil => simp [pure, Except.pure]
  | cons found later ih =>
    rw [List.forall_mem_cons, ← ih, List.mapM_cons]
    constructor
    · rintro ⟨callbacks, hcalled, hP⟩
      obtain ⟨callback, hfound, hlater⟩ := except_bind_eq_ok.1 hcalled
      obtain ⟨others, hothers, hcons⟩ := except_bind_eq_ok.1 hlater
      cases hcons
      obtain ⟨hfirst, hrest⟩ := List.forall_mem_cons.1 hP
      exact ⟨⟨callback, hfound, hfirst⟩, others, hothers, hrest⟩
    · rintro ⟨⟨callback, rfl, hfirst⟩, others, hothers, hrest⟩
      rw [hothers]
      exact ⟨callback :: others, rfl, List.forall_mem_cons.2 ⟨hfirst, hrest⟩⟩

/-- **A phase succeeds** if each of its callbacks is there and succeeds. -/
theorem phase_eq_ok :
    I.phase record args phase = .ok () ↔ ∀ found ∈ I.called record phase, ∃ callback, found = .ok callback ∧
      ∃ value, I.outcome callback ⟨record.event, record.fromState, record.toState, phase, args⟩ = .ok value := by
  rw [← mapM_id_eq_ok, Interpreter.phase, except_bind_eq_ok]
  simp only [verdict_eq_ok, List.forall_mem_map]

/-- **A record succeeds** if each callback of all six phases is there and succeeds. -/
theorem perform_eq_ok :
    I.perform record args = .ok () ↔ ∀ phase, ∀ found ∈ I.called record phase, ∃ callback, found = .ok callback ∧
      ∃ value, I.outcome callback ⟨record.event, record.fromState, record.toState, phase, args⟩ = .ok value := by
  have hforM : ∀ phases : List Phase, phases.forM (I.phase record args) = .ok () ↔
      ∀ phase ∈ phases, I.phase record args phase = .ok () := by
    intro phases
    induction phases with
    | nil => exact iff_of_true rfl fun _ h => nomatch h
    | cons phase rest ih =>
      rw [List.forM_eq_forM, List.forM_cons, ← List.forM_eq_forM, except_bind_eq_ok, List.forall_mem_cons, ← ih]
      exact ⟨fun ⟨_, hphase, hrest⟩ => ⟨hphase, hrest⟩, fun ⟨hphase, hrest⟩ => ⟨(), hphase, hrest⟩⟩
  have hall : ∀ phase, phase ∈ Phase.all := fun phase => by cases phase <;> decide
  simp only [← phase_eq_ok]
  exact (hforM Phase.all).trans ⟨fun h phase => h phase (hall phase), fun h phase _ => h phase⟩

end Interpreter

end StateEngine
