import StateEngine.Proofs.Interpret
import StateEngine.Proofs.Plan

/-!
# Schedules do not matter

A transition that is performed to its end comes to what is planned, however often its future is polled, and
however long its callbacks take. If they settle sooner or later, then its end is come to.

* `Polls.carries`: polls that keep to a plan and bring a future to its end.
* `Driver.Follows.result_eq`: what the phases come to with a driver is what is planned of them.
* `Driver.Performing.terminates`, `Driver.Performing.brings`: a future that a driver polls.
* `perform_schedule_free`: **performing a transition** comes to one result, in every schedule.
-/

namespace StateEngine

open Program Relation

section

variable {κ φ α β : Type} {P : Plan κ} {d : Definition κ} {target : String} {f : FutureId} {id : TransitionId}
  {t : Transition} {fate : φ → Outcome} {polls : List (List (Act κ φ))} {polled : Polled}
  {acts acts' : List (Act κ φ)}

/-! ## Polls -/

/-- What is asked is not told by where a future is put. -/
theorem asked_mem_of_filter (h : acts.filter (!·.isRest) = acts'.filter (!·.isRest)) {request : Request κ φ}
    {reply : request.Reply} (hr : .asked request reply ∈ acts') : .asked request reply ∈ acts := by
  have hfilter : Act.asked request reply ∈ acts'.filter (!·.isRest) := List.mem_filter.2 ⟨hr, rfl⟩
  rw [← h] at hfilter
  exact (List.mem_filter.1 hfilter).1

/-- An act that only puts a future somewhere tells nothing else. -/
theorem Act.isRest_cases {act : Act κ φ} (h : act.isRest = true) :
    (∃ f stage, act = .made (.setStage f stage)) ∨ ∃ f, act = .made (.closeFuture f) := by
  match act with
  | .asked _ _ => exact nomatch h
  | .made (.setStage f stage) => exact .inl ⟨f, stage, rfl⟩
  | .made (.closeFuture f) => exact .inr ⟨f, rfl⟩

/-- **Polls that keep to a plan** and bring a future to its end perform its transition as planned. -/
theorem Polls.carries (h : Polls d target f id t .perform polls polled) (hp : polled ≠ .pending)
    (hk : P.Keeps fate polls.flatten) :
    polled = .ofResult (.resolved id) (P.result d target t.record Phase.all) ∧
      P.Carries d target id t Phase.all polls.flatten (P.result d target t.record Phase.all) := by
  obtain ⟨acts, result, hperformance, rfl, hsame⟩ := h.performance hp
  -- the acts of the polls are those of a performance, but for where the future is put between polls
  have htells : ∀ {β : Type} {g : Act κ φ → Option β}, (∀ f stage, g (.made (.setStage f stage)) = none) →
      (∀ f, g (.made (.closeFuture f)) = none) → polls.flatten.filterMap g = acts.filterMap g := by
    intro β g hset hclose
    refine filterMap_of_filter hsame fun act hact => ?_
    rcases Act.isRest_cases hact with ⟨f, stage, rfl⟩ | ⟨f, rfl⟩
    · exact hset f stage
    · exact hclose f
  have hlookups : LookupsKeep P acts := fun name reply hr =>
    hk.lookups name reply (asked_mem_of_filter hsame hr)
  have hpolls : PollsKeep fate acts := fun computation reply hr =>
    hk.polls computation reply (asked_mem_of_filter hsame hr)
  have hcalls : ∀ phase, CallsKeep P fate acts phase := by
    intro phase i settlement hi
    rw [← htells (fun _ _ => rfl) fun _ => rfl] at hi
    exact hk.calls phase i settlement hi
  have hcarries := hperformance.conducted.carries List.suffix_rfl hlookups hpolls (fun phase _ => hcalls phase) rfl
  rw [← hcarries.result_eq]
  refine ⟨rfl, hcarries.result_eq, ?_, ?_, ?_, ?_, ?_⟩
  · rw [htells (fun _ _ => rfl) fun _ => rfl, hcarries.invoked_eq]
  · rw [htells (fun _ _ => rfl) fun _ => rfl]
    exact hcarries.settled_perm
  · rw [htells (fun _ _ => rfl) fun _ => rfl]
    exact hcarries.among
  · rw [htells (fun _ _ => rfl) fun _ => rfl]
    exact hcarries.in_order
  · rw [htells (fun _ _ => rfl) fun _ => rfl]
    exact hcarries.last_mark

/-! ## Drivers -/

namespace Driver

variable {driver : Driver κ φ} {m m' : Machine κ φ} {stage : Stage φ} {result : Except Rejection Unit}

/-- The callbacks that are planned are those that the driver has. -/
theorem Follows.find_eq (h : driver.Follows P d t) (phase : Phase) :
    driver.find t.record phase = P.find driver.target.describe t.record phase := by
  have hnamed : ∀ name missing, driver.named name missing = P.named driver.target.describe name missing := by
    intro name missing
    unfold Driver.named Plan.named
    cases hcallback : driver.target.callback? name with
    | none => rw [← h.callback_eq, hcallback]
    | some callback => rw [← h.callback_eq, hcallback]
  funext listed
  cases listed with
  | inlineHook stateIndex position callback => rfl
  | stateHook state name => exact hnamed name fun target => .stateHook name target state phase
  | transition name => exact hnamed name fun target => .transition name target t.record phase

/-- What a phase comes to is what is planned of it. -/
theorem Follows.phase_eq (h : driver.Follows P d t) (phase : Phase) :
    driver.phase d t.record t.args phase = P.phase d driver.target.describe t.record phase := by
  have hfound : P.found d driver.target.describe t.record phase =
      (d.listed t.record phase).mapM (driver.find t.record phase) := by
    rw [h.find_eq]
    rfl
  rw [Driver.phase, ← hfound, Plan.phase]
  cases ho : P.found d driver.target.describe t.record phase with
  | error missing => rfl
  | ok callbacks => exact congrArg verdict (h.outcomes_eq phase callbacks ho)

/-- **What phases come to** is what is planned of them. -/
theorem Follows.result_eq (h : driver.Follows P d t) (phases : List Phase) :
    driver.perform d t.record t.args phases = P.result d driver.target.describe t.record phases := by
  induction phases with
  | nil => rfl
  | cons phase later ih => rw [Driver.perform, Plan.result, h.phase_eq, ih]

end Driver

/-- **What is safe whatever happens** is so if nothing does. -/
theorem Program.Safe.ensures {own : Option FutureId} {post : α → Scene κ φ → Prop} {driver : Driver κ φ}
    {p : Program κ φ α} : ∀ {s : Scene κ φ}, p.Safe own post s →
      p.Ensures driver (fun a m => ∃ s', s'.machine = m ∧ post a s') s.machine := by
  induction p with
  | done a => exact fun {s} h => ⟨s, rfl, h⟩
  | look next ih => exact fun {s} h => ih s.machine h
  | change c next ih => exact fun {s} h => ih h.2
  | ask request resume ih =>
    exact fun {s} h reply _ => ih reply (h.2.2 s (.refl own s.machine) (List.prefix_refl s.trace) reply)

namespace Driver

variable {driver : Driver κ φ} {m m' : Machine κ φ} {stage : Stage φ} {result : Except Rejection Unit}

/-- **A future that a driver polls**, and that performs a transition to a result. -/
structure Performing (driver : Driver κ φ) (d : Definition κ) (f : FutureId) (id : TransitionId)
    (t : Transition) (result : Except Rejection Unit) (stage : Stage φ) (m : Machine κ φ) : Prop
    extends Machine.Serves d driver.target.describe m where
  future : m.future? f = some ⟨id, .perform, stage⟩
  book : ∃ t', m.transition? id = some t' ∧ t'.record = t.record ∧ t'.args = t.args
  leads : driver.Leads d t.record t.args result m.wakeUps stage

/-- **One poll** brings the future to its end, or nearer to it. -/
theorem Performing.poll_ensures (h : driver.Performing d f id t result stage m) :
    (poll f).Ensures driver (fun found m' =>
      (found = some (.ofResult (.resolved id) result) ∧ m'.Settled id result) ∨
        found = some .pending ∧ ∃ stage', driver.Performing d f id t result stage' m' ∧
          (stage.Ready m.wakeUps → driver.Nearer stage' stage)) m := by
  obtain ⟨hm, hfuture, ⟨t', ht, hrecord, hargs⟩, hleads⟩ := h
  have hdefinition := hm.definition
  subst hdefinition
  rw [← hrecord, ← hargs] at hleads
  refine .bind (.look ?_)
  rw [hfuture]
  dsimp only
  rw [hleads.idle, ht]
  refine .bind (.make (.bind (.bind ?_)))
  -- what the transition comes to, and that its book tells
  have hbusy : (m.setStage f .busy).targetName = driver.target.describe := hm.target
  have hpolling : (m.setStage f .busy).Polling f id .perform t'.record :=
    ⟨Machine.future_setStage hfuture .busy, Machine.record_eq_some.2 ⟨t', ht, rfl⟩⟩
  have hsafe : (advance id t' stage).Safe (some f) (Performed f id .perform t'.record) ⟨m.setStage f .busy, []⟩ :=
    advance_safe t' stage hpolling
  refine ((advance_ensures t' hbusy hleads).and hsafe.ensures).mono fun advance m₁ h₁ => ?_
  obtain ⟨⟨hnoted, hadvanced⟩, s', rfl, hperforms, hknows⟩ := h₁
  obtain ⟨t₁, ht₁, hrecord₁, hargs₁, -⟩ := hnoted.book t' ht
  rcases hadvanced with rfl | ⟨phase, roster, rfl, hawaits, hnearer⟩
  · have hsettled := hknows result rfl
    cases result with
    | ok _ => exact .bind (.make (.pure (.pure (.inl ⟨rfl, hsettled⟩))))
    | error rejection => exact .bind (.make (.pure (.pure (.inl ⟨rfl, hsettled⟩))))
  · refine .bind (.make (.pure (.pure (.inr ⟨rfl, .waiting phase roster, ?_, hnearer⟩))))
    refine ⟨⟨hnoted.definition, hnoted.targetName.trans hm.target⟩,
      Machine.future_setStage hperforms.performs _, ⟨t₁, ht₁, hrecord₁.trans hrecord, hargs₁.trans hargs⟩, ?_⟩
    rw [← hrecord, ← hargs]
    exact .waiting hawaits

theorem Performing.wakes (h : driver.Performing d f id t result stage m) (wakes : Nat) :
    driver.Performing d f id t result stage (Machine.wake^[wakes] m) := by
  rw [Machine.wake_iterate]
  exact ⟨⟨h.definition, h.target⟩, h.future, h.book, h.leads.mono wakes⟩

/-- **A transition cannot be performed forever.** -/
theorem Performing.terminates (h : driver.Performing d f id t result stage m) (hr : stage.Ready m.wakeUps) :
    driver.Terminates f m := by
  refine terminates_of_onward (fun purpose stage m => purpose = .perform ∧
    driver.Performing d f id t result stage m) (fun h => h.2.leads.acc) ?_ ⟨rfl, h⟩ hr
  rintro _ stage m m₁ ⟨rfl, h⟩ hr hruns
  rcases hruns.ensures h.poll_ensures with ⟨hsome, -⟩ | ⟨-, stage', hperforming, hnearer⟩
  · cases result <;> exact nomatch hsome
  · refine ⟨.perform, stage', (hnearer hr).onward .perform, fun wakes hwakes =>
      ⟨⟨rfl, hperforming.wakes wakes⟩, ?_⟩⟩
    rw [Machine.wake_iterate]
    exact hperforming.leads.ready hperforming.future hwakes

/-- **A transition that was performed to its end** came to its result. -/
theorem Performing.brings (h : driver.Performing d f id t result stage m) (hb : driver.Brings f m polled m') :
    polled = .ofResult (.resolved id) result ∧ m'.Settled id result := by
  induction hb generalizing stage with
  | ended hruns hover =>
    rcases hruns.ensures h.poll_ensures with ⟨hsome, hsettled⟩ | ⟨hsome, -⟩
    · exact ⟨Option.some.inj hsome, hsettled⟩
    · exact absurd (Option.some.inj hsome) hover
  | again hruns _ ih =>
    rcases hruns.ensures h.poll_ensures with ⟨hsome, -⟩ | ⟨-, stage', hperforming, -⟩
    · cases result <;> exact nomatch hsome
    · exact ih hperforming
  | wake _ ih => exact ih (h.wakes 1)

/-- A transition can be performed to its end. -/
theorem Performing.exists_brings (ht : driver.Terminates f m)
    (h : driver.Performing d f id t result stage m) : ∃ polled m', driver.Brings f m polled m' := by
  induction ht generalizing stage with
  | @poll m _ ih =>
    obtain ⟨found, m₁, hruns⟩ := driver.runs_any (poll f) m
    rcases hruns.ensures h.poll_ensures with ⟨rfl, -⟩ | ⟨rfl, stage', hperforming, -⟩
    · exact ⟨_, m₁, .ended hruns (by cases result <;> exact (nomatch ·))⟩
    · obtain ⟨polled, m', hb⟩ := ih m₁ hruns 1 (.inl Nat.one_pos) (hperforming.wakes 1)
      exact ⟨polled, m', .again hruns (.wake hb)⟩

end Driver

end

/-- **Performing a transition does not depend on the schedule.** If it is known how the callbacks of each phase
end, then all polls that bring a future of the transition to its end call the same callbacks in the same order,
wait for all of a phase before the next one, and come to the same result. It is a rejection if a phase fails, and
the first one that does gives it. A driver of such callbacks comes to this result, and the book tells it. -/
theorem perform_schedule_free {κ φ : Type} (P : Plan κ) (d : Definition κ) (target : String) (t : Transition) :
    (∀ (f : FutureId) (id : TransitionId) (fate : φ → Outcome) (polls : List (List (Act κ φ))) (polled : Polled),
      Polls d target f id t .perform polls polled → polled ≠ .pending → P.Keeps fate polls.flatten →
        polled = .ofResult (.resolved id) (P.result d target t.record Phase.all) ∧
          P.Carries d target id t Phase.all polls.flatten (P.result d target t.record Phase.all)) ∧
      (∀ rejection, P.result d target t.record Phase.all = .error rejection ↔
        ∃ before phase later, Phase.all = before ++ phase :: later ∧
          (∀ earlier ∈ before, P.phase d target t.record earlier = .ok ()) ∧
            P.Fails d target t.record phase rejection) ∧
      ∀ driver : Driver κ φ, driver.Follows P d t → driver.target.describe = target →
        ∀ (m : Machine κ φ) (f : FutureId) (id : TransitionId), m.Poised d target f id t →
          driver.Terminates f m ∧ (∃ polled m', driver.Brings f m polled m') ∧
            ∀ polled m', driver.Brings f m polled m' →
              polled = .ofResult (.resolved id) (P.result d target t.record Phase.all) ∧
                m'.Settled id (P.result d target t.record Phase.all) := by
  refine ⟨fun f id fate polls polled h hp hk => h.carries hp hk, fun rejection => ?_, ?_⟩
  · rw [Plan.result_eq_error]
    simp only [Plan.phase_eq_error]
  · rintro driver hfollows rfl m f id hpoised
    obtain ⟨progress, hbook⟩ := hpoised.book
    have hperforming : driver.Performing d f id t (P.result d driver.target.describe t.record Phase.all)
        .unpolled m :=
      ⟨⟨hpoised.definition, hpoised.target⟩, hpoised.future, ⟨_, hbook, rfl, rfl⟩,
        .unpolled (hfollows.result_eq Phase.all)⟩
    have hterminates := hperforming.terminates trivial
    exact ⟨hterminates, hperforming.exists_brings hterminates, fun polled m' hb => hperforming.brings hb⟩

namespace Race

inductive Racer where
  | slow
  | quick

/-- Two who start before a run, one slow and one quick. -/
def spec : Json := .object [
  ("states", .object [("initialState", .string "here")]),
  ("events", .object [("run", .object [("transition", .object [
    ("here", .string "there"), ("before", .array [.string "slow", .string "quick"])])])])]

def record : Record :=
  ⟨"run", "here", "there", .none,
    .ofFn fun phase => if phase = .beforeEvent then ["slow", "quick"] else []⟩

def definition : Definition Racer :=
  ⟨"here", ["here", "there"].map (State.ofRecords [record]), [⟨"run", [record]⟩], []⟩

theorem compile_spec : Definition.compile spec [] = .ok definition := rfl

def transition : Transition := .fresh record []

def late : Outcome := .error (.string "late")

def early : Outcome := .error (.string "early")

/-- The slow one takes any number of polls, and the quick one none. -/
def driver : Driver Racer Nat where
  target := ⟨"race", [], [("slow", .slow), ("quick", .quick)]⟩
  outcome
    | .slow, _ => late
    | .quick, _ => early
  calls
    | .slow, _, settlement => ∃ left, settlement = .pending left
    | .quick, _, settlement => settlement = .ofOutcome early
  polls
    | 0, awaited => awaited = .settled late
    | left + 1, awaited => awaited = .sleeping left
  calls_any callback _ := by
    cases callback with
    | slow => exact ⟨_, 0, rfl⟩
    | quick => exact ⟨_, rfl⟩
  polls_any computation := by
    cases computation with
    | zero => exact ⟨_, rfl⟩
    | succ left => exact ⟨_, rfl⟩
  settles := by
    intro callback context settlement h
    cases callback with
    | quick =>
      cases h
      exact .error rfl
    | slow =>
      obtain ⟨left, rfl⟩ := h
      induction left with
      | zero =>
        refine .pending (fun _ h => nomatch h) (fun _ h => nomatch h) fun _ h => ?_
        cases h
        rfl
      | succ left ih =>
        refine .pending (fun _ h => nomatch h) (fun _ h => ?_) fun _ h => nomatch h
        cases h
        exact ih

/-- The slow one comes first in the order of the record. -/
def plan : Plan Racer where
  callback? := driver.target.callback?
  outcome
    | _, 0 => late
    | _, _ => early

theorem driver_follows : driver.Follows plan definition transition := by
  refine ⟨fun _ => rfl, fun phase callbacks h => ?_⟩
  cases phase <;> cases h <;> rfl

def context : Context := ⟨"run", "here", "there", .beforeEvent, []⟩

/-- What is done in a first poll, in which the quick one fails. -/
def start : List (Act Racer Nat) := [
  .asked (.callback "slow") (some .slow), .asked (.callback "quick") (some .quick),
  .made (.note 0 .begin),
  .asked (.call .slow context) (.pending 1),
  .asked (.call .quick context) (.ofOutcome early),
  .asked (.poll 1) (.sleeping 0),
  .made (.note 0 (.settle .beforeEvent "transition:quick" early))]

/-- The calls that the first poll leaves. -/
def roster : Roster Nat :=
  ⟨[⟨"transition:slow", .asleep 0⟩, ⟨"transition:quick", .noted early⟩], [0, 1], [], 0⟩

/-- What is done in a second poll, in which the slow one fails. -/
def rest : List (Act Racer Nat) := [
  .asked (.poll 0) (.settled late),
  .made (.note 0 (.settle .beforeEvent "transition:slow" late)),
  .made (.note 0 (.reject (.callback (.string "early")))),
  .made (.closeFuture 0)]

def polls : List (List (Act Racer Nat)) := [start ++ [.made (.setStage 0 (.waiting .beforeEvent roster))], rest]

theorem serves : (Machine.start definition "race" toString "here" 0 : Machine Racer Nat).Serves definition "race" :=
  ⟨rfl, rfl⟩

theorem start_does : (pollFrom 0 0 transition .perform .unpolled).Does (Machine.Serves definition "race")
    (start ++ [.made (.setStage 0 (.waiting .beforeEvent roster))]) .pending :=
  .look serves <| .ask <| .ask <| .change <| .ask <| .ask <| .ask <| .change <| .change <| .done _

theorem rest_does : (pollFrom 0 0 transition .perform (.waiting .beforeEvent roster)).Does
    (Machine.Serves definition "race") rest (.rejected (.callback (.string "early"))) :=
  .ask <| .change <| .change <| .change <| .done _

theorem polls_end : Polls definition "race" 0 0 transition .perform polls
    (.rejected (.callback (.string "early"))) :=
  .poll (.poll .unpolled start_does) rest_does

/-- Whether a callback that is looked up is the planned one, and a poll does not change how the slow one ends. -/
def Answers : Act Racer Nat → Prop
  | .asked (.callback name) reply => reply = plan.callback? name
  | .asked (.poll _) reply => reply.comesTo (fun _ => late) = late
  | _ => True

theorem answers : ∀ act ∈ polls.flatten, Answers act := by
  refine List.forall_mem_cons.2 ⟨rfl, List.forall_mem_cons.2 ⟨rfl, ?_⟩⟩
  simp [rest, Answers, Awaited.comesTo]

theorem keeps : plan.Keeps (fun _ => late) polls.flatten := by
  refine ⟨fun name reply h => answers _ h, fun phase i settlement h => ?_, fun computation reply h => answers _ h⟩
  cases phase with
  | beforeEvent =>
    match i with
    | 0 => cases h; rfl
    | 1 => cases h; rfl
    | _ + 2 => exact nomatch h
  | _ => exact nomatch h

/-- The race before it starts. -/
def machine : Machine Racer Nat :=
  ((Machine.start definition "race" toString "here" 0).addTransition transition).addFuture 0 .perform

theorem poised : machine.Poised definition "race" 0 0 transition := ⟨⟨rfl, rfl⟩, rfl, _, rfl⟩

end Race

/-- The quick one comes last in the order of the record, and so its failure is the rejection, although the slow
one failed after it. -/
theorem perform_schedule_free_race :
    Race.plan.Carries Race.definition "race" 0 Race.transition Phase.all Race.polls.flatten
        (.error (.callback (.string "early"))) ∧
      Race.driver.Terminates 0 Race.machine ∧ (∃ polled m', Race.driver.Brings 0 Race.machine polled m') ∧
        ∀ polled m', Race.driver.Brings 0 Race.machine polled m' →
          polled = .rejected (.callback (.string "early")) ∧
            m'.Settled 0 (.error (.callback (.string "early"))) := by
  obtain ⟨hpolls, -, hdriver⟩ :=
    perform_schedule_free (φ := Nat) Race.plan Race.definition "race" Race.transition
  have hresult : Race.plan.result Race.definition "race" Race.transition.record Phase.all =
      .error (.callback (.string "early")) := rfl
  rw [hresult] at hpolls hdriver
  exact ⟨(hpolls 0 0 _ _ _ Race.polls_end (nomatch ·) Race.keeps).2,
    hdriver Race.driver Race.driver_follows rfl _ _ _ Race.poised⟩

end StateEngine
