import StateEngine.Proofs.Conduct

/-!
# Performing a transition is safe

Reading guards changes nothing. Performing a transition only writes its book, and the book says how it
ended.

* `firstPassing_within`: the record that wins is one of the candidates.
* `startPhase_within`, `continuePhase_within`: a phase only makes notes, and waits for nothing but calls.
* `advance_safe`: the operation that performs a transition keeps its future and knows the outcome.
-/

namespace StateEngine

open Program

variable {κ φ : Type} {P : Change φ → Prop}

/-! ## Guards -/

theorem checkGuard_within (name state : String) :
    (checkGuard name state : Program κ φ _).Within P fun _ => True := by
  refine Within.bind (.ask rfl) fun reply _ => ?_
  cases reply with
  | none => exact Within.look.bind fun _ _ => .pure trivial
  | some holds => exact .pure trivial

theorem passesUnless_within (guards : Guards) (state : String) :
    (passesUnless guards state : Program κ φ _).Within P fun _ => True := by
  unfold passesUnless
  cases guards.doUnless with
  | none => exact .pure trivial
  | some name => exact (checkGuard_within name state).bind fun _ _ => .pure trivial

theorem passes_within (guards : Guards) (state : String) :
    (passes guards state : Program κ φ _).Within P fun _ => True := by
  have hunless := passesUnless_within (P := P) (κ := κ) guards state
  unfold passes
  cases guards.doIf with
  | none => exact hunless
  | some name =>
    refine (checkGuard_within name state).bind fun first _ => ?_
    cases first with
    | error error => exact .pure trivial
    | ok passed =>
      cases passed with
      | true => exact .pure trivial
      | false => exact hunless

/-- The record that passes is one of the candidates. -/
theorem firstPassing_within (state : String) (records : List Record) :
    (firstPassing state records : Program κ φ _).Within P
      fun result => ∀ record, result = .ok (some record) → record ∈ records := by
  induction records with
  | nil => exact .pure fun record h => nomatch h
  | cons r rest ih =>
    unfold firstPassing
    split
    · refine (passes_within r.guards state).bind fun passed _ => ?_
      match passed with
      | .error error => exact .pure fun record h => nomatch h
      | .ok true =>
        refine .pure ?_
        rintro record ⟨⟩
        exact List.mem_cons_self
      | .ok false =>
        exact ih.mono (fun _ h => h) fun result h record hr => List.mem_cons_of_mem r (h record hr)
    · refine .pure ?_
      rintro record ⟨⟩
      exact List.mem_cons_self

/-! ## Phases -/

theorem findNamed_within (name : String) (missing : String → MissingCallback) :
    (findNamed name missing : Program κ φ _).Within P fun _ => True := by
  refine Within.bind (.ask rfl) fun reply _ => ?_
  cases reply with
  | none => exact Within.look.bind fun _ _ => .pure trivial
  | some callback => exact .pure trivial

theorem find_within (record : Record) (phase : Phase) (listed : Listed κ) :
    (find record phase listed : Program κ φ _).Within P fun _ => True := by
  cases listed with
  | stateHook state name => exact findNamed_within name fun target => .stateHook name target state phase
  | inlineHook stateIndex position callback => exact .pure trivial
  | transition name => exact findNamed_within name fun target => .transition name target record phase

theorem findAll_within (record : Record) (phase : Phase) (listed : List (Listed κ)) :
    (findAll record phase listed : Program κ φ _).Within P fun _ => True := by
  induction listed with
  | nil => exact .pure trivial
  | cons x rest ih =>
    refine (find_within record phase x).bind fun found _ => ?_
    cases found with
    | error error => exact .pure trivial
    | ok callback =>
      refine ih.bind fun others _ => ?_
      cases others with
      | error error => exact .pure trivial
      | ok found => exact .pure trivial

theorem callbacksFor_within (t : Transition) (phase : Phase) :
    (callbacksFor t phase : Program κ φ _).Within P fun _ => True :=
  Within.look.bind fun _ _ => findAll_within t.record phase _

theorem callAll_within (context : Context) (callbacks : List (String × κ)) :
    (callAll context callbacks : Program κ φ _).Within P fun _ => True := by
  induction callbacks with
  | nil => exact .pure trivial
  | cons x rest ih =>
    refine Within.bind (.ask rfl) fun settlement _ => ?_
    exact ih.bind fun calls _ => .pure trivial

/-- The marks that performing a transition leaves in its book. -/
def Notes (id : TransitionId) (c : Change φ) : Prop := ∃ mark, mark ≠ .abort ∧ c = .note id mark

/-- Whether a mark says how a transition ended. -/
def Mark.isFinal : Mark → Bool
  | .begin => false
  | .settle _ _ _ => false
  | _ => true

/-- The marks that a phase leaves in the book of its transition: it is not over. -/
def PhaseNotes (id : TransitionId) (c : Change φ) : Prop :=
  ∃ mark, mark.isFinal = false ∧ c = .note id mark

theorem PhaseNotes.notes {id : TransitionId} {c : Change φ} (h : PhaseNotes id c) : Notes id c := by
  obtain ⟨mark, hm, rfl⟩ := h
  refine ⟨mark, ?_, rfl⟩
  rintro rfl
  exact nomatch hm

theorem noteOutcome_within (t : TransitionId) (phase : Phase) (id : String) (outcome : Outcome) :
    (noteOutcome t phase id outcome : Program κ φ _).Within (PhaseNotes t) fun _ => True :=
  (Within.make ⟨.settle phase id outcome, rfl, rfl⟩).bind fun _ _ => .pure trivial

theorem pollPending_within (t : TransitionId) (phase : Phase) (id : String) (computation : φ) :
    (pollPending t phase id computation : Program κ φ _).Within (PhaseNotes t) fun _ => True := by
  refine Within.bind (.ask rfl) fun reply _ => ?_
  cases reply with
  | yielding computation => exact .pure trivial
  | sleeping computation => exact .pure trivial
  | settled outcome => exact noteOutcome_within t phase id outcome

theorem pollCall_within (t : TransitionId) (phase : Phase) (call : Call φ) :
    (pollCall t phase call : Program κ φ _).Within (PhaseNotes t) fun _ => True := by
  unfold pollCall
  split
  · exact .pure trivial
  · exact noteOutcome_within t phase call.id _
  · exact noteOutcome_within t phase call.id _
  · exact pollPending_within t phase call.id _
  · exact pollPending_within t phase call.id _

theorem pollAll_within (t : TransitionId) (phase : Phase) (calls : List (Call φ)) :
    (pollAll t phase calls : Program κ φ _).Within (PhaseNotes t) fun _ => True := by
  induction calls with
  | nil => exact .pure trivial
  | cons call rest ih =>
    refine (pollCall_within t phase call).bind fun _ _ => ?_
    exact ih.bind fun _ _ => .pure trivial

theorem pollTurns_within (t : TransitionId) (phase : Phase) (left turns yields : Nat)
    (roster : Roster φ) :
    (pollTurns t phase left turns yields roster : Program κ φ _).Within (PhaseNotes t) fun _ => True := by
  -- after each poll there is an outcome less to come, or a turn less to be had
  induction left, turns, yields, roster using pollTurns.induct with
  | case1 turns yields roster => rw [pollTurns]; exact .pure trivial
  | case2 left yields roster h =>
    rw [pollTurns]
    · exact .pure trivial
    · exact h
  | case3 left turns roster h h' =>
    rw [pollTurns]
    · exact .pure trivial
    · exact h
    · exact h'
  | case4 roster left turns yields ih1 ih2 ih3 =>
    rw [pollTurns]
    refine Within.look.bind fun m _ => ?_
    cases hn : (roster.heed m.wakeUps).next? with
    | none => exact .pure trivial
    | some found =>
      obtain ⟨position, call, roster'⟩ := found
      refine (pollCall_within t phase call).bind fun polled _ => ?_
      cases hs : polled.standing with
      | noted outcome => exact ih1 position roster' polled
      | due settlement => exact ih2 position roster' polled
      | asleep computation => exact ih3 position roster' polled

theorem pollRoster_within (t : TransitionId) (phase : Phase) (roster : Roster φ) :
    (pollRoster t phase roster : Program κ φ _).Within (PhaseNotes t) fun _ => True := by
  unfold pollRoster
  split
  · exact pollTurns_within t phase _ _ _ roster
  · exact (pollAll_within t phase roster.calls).bind fun _ _ => .pure trivial

theorem lastFailure_ok (value : Json) (later : List Outcome) :
    lastFailure? (.ok value :: later) = lastFailure? later := rfl

theorem lastFailure_error (reason : Json) (later : List Outcome) :
    lastFailure? (.error reason :: later) = some ((lastFailure? later).getD reason) := List.getLast?_cons

/-- A later failure counts, whatever came before it. -/
theorem lastFailure_cons {later : List Outcome} {reason : Json} (h : lastFailure? later = some reason)
    (outcome : Outcome) : lastFailure? (outcome :: later) = some reason := by
  cases outcome with
  | ok value => rw [lastFailure_ok, h]
  | error first => rw [lastFailure_error, h, Option.getD_some]

/-- Whether an advance that waits does so for calls that have not settled. -/
def Advance.Rests (advance : Advance φ) : Prop :=
  ∀ phase roster, advance = .waiting phase roster → roster.outcomes? = none

theorem Advance.rests_over (result : Except Rejection Unit) : (Advance.over result : Advance φ).Rests :=
  fun _ _ h => nomatch h

theorem Advance.rests_ofRoster (phase : Phase) (roster : Roster φ) :
    (Advance.ofRoster phase roster).Rests := by
  unfold ofRoster
  cases h : roster.outcomes? with
  | none =>
    rintro _ _ ⟨⟩
    exact h
  | some outcomes =>
    dsimp only
    cases lastFailure? outcomes with
    | none => exact rests_over _
    | some reason => exact rests_over _

theorem continuePhase_within (t : TransitionId) (phase : Phase) (roster : Roster φ) :
    (continuePhase t phase roster : Program κ φ _).Within (PhaseNotes t) Advance.Rests :=
  (pollRoster_within t phase roster).bind fun roster _ => .pure (Advance.rests_ofRoster phase roster)

theorem startPhase_within (id : TransitionId) (t : Transition) (phase : Phase) :
    (startPhase id t phase : Program κ φ _).Within (PhaseNotes id) Advance.Rests := by
  refine (callbacksFor_within t phase).bind fun found _ => ?_
  cases found with
  | error error => exact .pure (Advance.rests_over _)
  | ok callbacks =>
    refine (Within.make ⟨.begin, rfl, rfl⟩).bind fun _ _ => ?_
    exact (callAll_within _ callbacks).bind fun calls _ => continuePhase_within id phase _

theorem advancePhase_within (id : TransitionId) (t : Transition) (phase : Phase) (stage : Stage φ) :
    (advancePhase id t phase stage : Program κ φ _).Within (PhaseNotes id) Advance.Rests := by
  cases stage with
  | waiting phase roster => exact continuePhase_within id phase roster
  | unpolled => exact startPhase_within id t phase
  | busy => exact startPhase_within id t phase
  | failed rejection => exact startPhase_within id t phase

/-! ## Whole transitions -/

/-- Performing a transition only writes its book. -/
theorem startPhases_within (id : TransitionId) (t : Transition) (phases : List Phase) :
    (startPhases id t phases : Program κ φ _).Within (Notes id) fun _ => True := by
  induction phases with
  | nil => exact (Within.make ⟨.resolve, (nomatch ·), rfl⟩).bind fun _ _ => .pure trivial
  | cons phase rest ih =>
    refine ((startPhase_within id t phase).mono (fun _ => PhaseNotes.notes) fun _ h => h).bind
      fun advance _ => ?_
    match advance with
    | .waiting phase roster => exact .pure trivial
    | .over (.ok ()) => exact ih
    | .over (.error rejection) =>
      exact (Within.make ⟨.reject rejection, (nomatch ·), rfl⟩).bind fun _ _ => .pure trivial

theorem continuePerform_within (id : TransitionId) (t : Transition) (phase : Phase) (roster : Roster φ) :
    (continuePerform id t phase roster : Program κ φ _).Within (Notes id) fun _ => True := by
  refine ((continuePhase_within id phase roster).mono (fun _ => PhaseNotes.notes) fun _ h => h).bind
    fun advance _ => ?_
  match advance with
  | .waiting phase roster => exact .pure trivial
  | .over (.ok ()) => exact startPhases_within id t phase.later
  | .over (.error rejection) =>
    exact (Within.make ⟨.reject rejection, (nomatch ·), rfl⟩).bind fun _ _ => .pure trivial

theorem advance_within (id : TransitionId) (t : Transition) (stage : Stage φ) :
    (advance id t stage : Program κ φ _).Within (Notes id) fun _ => True := by
  cases stage with
  | waiting phase roster => exact continuePerform_within id t phase roster
  | unpolled => exact startPhases_within id t Phase.all
  | busy => exact startPhases_within id t Phase.all
  | failed rejection => exact startPhases_within id t Phase.all

/-- What an operation knows that polls a future: the transition, its record, and what it is for. -/
structure Machine.Polling (f : FutureId) (id : TransitionId) (purpose : Purpose) (record : Record)
    (m : Machine κ φ) : Prop where
  performs : m.Performs f id purpose
  record_eq : m.record? id = some record

variable {f : FutureId} {id : TransitionId} {purpose : Purpose} {record : Record}

theorem Machine.Polling.stable (f : FutureId) (id : TransitionId) (purpose : Purpose)
    (record : Record) : Stable (some f) (Machine.Polling (κ := κ) (φ := φ) f id purpose record) := by
  refine ⟨?_, fun h hr => ⟨hr.future.trans h.performs, hr.grows.record h.record_eq⟩⟩
  rintro m g h ⟨⟩
  exact h.performs.held

/-- Writing the book of the transition is allowed. -/
theorem Machine.Polling.note {m : Machine κ φ} (h : m.Polling f id purpose record) {c : Change φ}
    (hc : Notes id c) : Allowed m (some f) c ∧ (c.apply m).Polling f id purpose record := by
  obtain ⟨mark, hm, rfl⟩ := hc
  exact ⟨.note h.performs hm, h.performs, (Change.grows (.note id mark)).record h.record_eq⟩

/-- How far a transition has come, and if it is over, the book says so. -/
def Advance.Known (id : TransitionId) (advance : Advance φ) (m : Machine κ φ) : Prop :=
  ∀ result, advance = .over result → m.Settled id result

theorem Machine.Settled.resolve {m : Machine κ φ} (h : m.record? id = some record) :
    (m.note id .resolve).Settled id (.ok ()) := by
  obtain ⟨t, ht, -⟩ := record_eq_some.1 h
  exact ⟨t.mark .resolve, by rw [transition_note, ht]; simp, rfl⟩

theorem Machine.Settled.reject {m : Machine κ φ} (h : m.record? id = some record)
    (rejection : Rejection) : (m.note id (.reject rejection)).Settled id (.error rejection) := by
  obtain ⟨t, ht, -⟩ := record_eq_some.1 h
  exact ⟨t.mark (.reject rejection), by rw [transition_note, ht]; simp, rfl, rfl⟩

/-- What performing a transition ends with. -/
def Performed (f : FutureId) (id : TransitionId) (purpose : Purpose) (record : Record)
    (advance : Advance φ) (s : Scene κ φ) : Prop :=
  s.machine.Polling f id purpose record ∧ advance.Known id s.machine

theorem Performed.waiting {s : Scene κ φ} (h : s.machine.Polling f id purpose record) (phase : Phase)
    (roster : Roster φ) : Performed f id purpose record (.waiting phase roster) s :=
  ⟨h, fun _ hr => nomatch hr⟩

/-- The transition resolves. -/
theorem resolve_note_safe {s : Scene κ φ} (h : s.machine.Polling f id purpose record) :
    (do make (.note id .resolve); pure (.over (.ok ())) : Program κ φ (Advance φ)).Safe (some f)
      (Performed f id purpose record) s := by
  obtain ⟨ha, hp⟩ := h.note (c := .note id .resolve) ⟨.resolve, (nomatch ·), rfl⟩
  refine .bind (.make ha (.pure ⟨hp, ?_⟩))
  rintro result ⟨⟩
  exact .resolve h.record_eq

/-- The transition rejects. -/
theorem reject_note_safe {s : Scene κ φ} (h : s.machine.Polling f id purpose record)
    (rejection : Rejection) :
    (do make (.note id (.reject rejection)); pure (.over (.error rejection)) :
      Program κ φ (Advance φ)).Safe (some f) (Performed f id purpose record) s := by
  obtain ⟨ha, hp⟩ := h.note (c := .note id (.reject rejection)) ⟨.reject rejection, (nomatch ·), rfl⟩
  refine .bind (.make ha (.pure ⟨hp, ?_⟩))
  rintro result ⟨⟩
  exact .reject h.record_eq rejection

theorem startPhases_safe (t : Transition) (phases : List Phase) :
    ∀ {s : Scene κ φ}, s.machine.Polling f id purpose record →
      (startPhases id t phases).Safe (some f) (Performed f id purpose record) s := by
  -- the scene is general, for others may change the machine while a phase waits
  induction phases with
  | nil => intro s hs; exact resolve_note_safe hs
  | cons phase rest ih =>
    intro s hs
    have hphase := (startPhase_within (κ := κ) (φ := φ) id t phase).safe
      (Machine.Polling.stable f id purpose record) (fun m c h hc => h.note hc.notes) hs
    refine .bind (hphase.mono fun advance s' hs' => ?_)
    match advance with
    | .waiting phase roster => exact .pure (.waiting hs'.2 phase roster)
    | .over (.ok ()) => exact ih hs'.2
    | .over (.error rejection) => exact reject_note_safe hs'.2 rejection

theorem continuePerform_safe (t : Transition) (phase : Phase) (roster : Roster φ) {s : Scene κ φ}
    (hs : s.machine.Polling f id purpose record) :
    (continuePerform id t phase roster).Safe (some f) (Performed f id purpose record) s := by
  have hphase := (continuePhase_within (κ := κ) (φ := φ) id phase roster).safe
    (Machine.Polling.stable f id purpose record) (fun m c h hc => h.note hc.notes) hs
  refine .bind (hphase.mono fun advance s' hs' => ?_)
  match advance with
  | .waiting phase roster => exact .pure (.waiting hs'.2 phase roster)
  | .over (.ok ()) => exact startPhases_safe t phase.later hs'.2
  | .over (.error rejection) => exact reject_note_safe hs'.2 rejection

/-- **Performing a transition** keeps the future, and the book knows how the transition ended. -/
theorem advance_safe (t : Transition) (stage : Stage φ) {s : Scene κ φ}
    (hs : s.machine.Polling f id purpose record) :
    (advance id t stage).Safe (some f) (Performed f id purpose record) s := by
  cases stage with
  | waiting phase roster => exact continuePerform_safe t phase roster hs
  | unpolled => exact startPhases_safe t Phase.all hs
  | busy => exact startPhases_safe t Phase.all hs
  | failed rejection => exact startPhases_safe t Phase.all hs

end StateEngine
