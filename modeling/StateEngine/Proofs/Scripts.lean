import StateEngine.Proofs.Build
import StateEngine.Proofs.Run
import StateEngine.Script.Host

/-!
# Scripts are runs

A scripted host runs an operation to its end and answers each request on the way, perhaps after nested
steps. Each of its answers is a move that runs know, so that whatever holds of all runs holds of all
scripts.

* `Host.perform_tracks`: running an operation is a run of its moves.
* `Host.step_tracks`, `Host.runNested_tracks`: likewise steps, and steps inside of requests.
* `Script.run_reaches`: **each report of a script is of a world that its machine reaches.**
-/

namespace StateEngine

/-- Whether the machine of a host is one that a run got to, with these operations still waiting. -/
def Host.Tracks (m : ScriptedMachine) (waiting : List (Waiting LiveCallback Computation))
    (host : Host) : Prop :=
  ∃ trace, Reaches m ⟨⟨host.machine, trace⟩, waiting⟩

/-- Whether nested steps are runs, whatever operations wait. -/
def Nested.Tracks (nested : Nested) : Prop :=
  ∀ m waiting steps host, Host.Tracks m waiting host → Host.Tracks m waiting (nested steps host)

namespace Host

variable {m : ScriptedMachine} {waiting : List (Waiting LiveCallback Computation)} {nested : Nested}
  {host host' : Host}

theorem Tracks.of_machine (h : host.Tracks m waiting) (hm : host'.machine = host.machine) :
    host'.Tracks m waiting := by
  unfold Tracks
  rw [hm]
  exact h

/-! ## Requests -/

theorem machine_trace (entry : LogEntry) : (host.trace entry).machine = host.machine := by
  unfold trace
  split <;> rfl

theorem useCue_tracks (hn : nested.Tracks) (live : LiveCue) (h : host.Tracks m waiting) :
    (useCue nested live host).Tracks m waiting := by
  unfold useCue
  split
  · exact hn m waiting _ _ (h.of_machine rfl)
  · exact h

theorem answer_tracks (hn : nested.Tracks) (request : Request LiveCallback Computation)
    (h : host.Tracks m waiting) : (answer nested request host).2.Tracks m waiting := by
  have hwrite : ∀ entry, (host.write entry).Tracks m waiting := fun _ => h.of_machine rfl
  have htrace : ∀ entry, (host.trace entry).Tracks m waiting := fun _ => h.of_machine (machine_trace _)
  cases request with
  | guard name state =>
    simp only [answer, checkGuard]
    split
    · exact htrace _
    · exact htrace _
    · exact useCue_tracks hn _ ((htrace (.readGuard name)).of_machine rfl)
  | callback name => exact htrace _
  | call callback context =>
    have hcue := useCue_tracks hn callback.cue (hwrite (.call callback.name context))
    simp only [answer, call]
    split
    · exact hcue
    · exact hcue
  | poll computation =>
    simp only [answer, pollComputation]
    split
    · exact h
    · split
      · exact hwrite _
      · exact h
  | notify listener change =>
    simp only [answer]
    split
    · exact h
    · exact useCue_tracks hn _ (hwrite _)

/-! ## Operations -/

/-- A program that goes on in a world that was reached ends in one that is reached. -/
theorem run_tracks (hn : nested.Tracks) (op : Operation)
    (p : Program LiveCallback Computation op.Result) :
    ∀ {host : Host} {trace : List (Deed LiveCallback Computation)},
      Reaches m (World.proceed op p ⟨⟨host.machine, trace⟩, waiting⟩) →
      (p.run (fun machine host => { host with machine }) machine (answer nested) host).2.Tracks m
        waiting := by
  induction p with
  | done a => intro host trace h; exact ⟨trace, h⟩
  | look next ih => intro host trace h; exact ih host.machine h
  | change c next ih =>
    intro host trace h
    have hchanged : Reaches m (World.proceed op next ⟨⟨c.apply host.machine, _⟩, waiting⟩) := h
    exact @ih { host with machine := c.apply host.machine } _ hchanged
  | ask request resume ih =>
    intro host trace h
    -- nested steps run while this operation waits
    have hasked : host.Tracks m (⟨op, request, resume⟩ :: waiting) := ⟨_, h⟩
    obtain ⟨trace', h'⟩ := answer_tracks hn request hasked
    -- the answer is the next move of the operation, for it is the youngest one that waits
    exact ih _ (h'.next (.answer _ [] ⟨op, request, resume⟩ waiting (answer nested request host).1))

theorem perform_tracks (hn : nested.Tracks) (op : Operation) (h : host.Tracks m waiting) :
    (host.perform nested op).2.Tracks m waiting := by
  obtain ⟨trace, h⟩ := h
  exact run_tracks hn op op.program (h.begin op)

/-! ## Steps -/

theorem putFuture_tracks (hn : nested.Tracks) (slot : String) (id : FutureId)
    (h : host.Tracks m waiting) : (host.putFuture nested slot id).Tracks m waiting := by
  have hput : ∀ futures, ({ host with futures } : Host).Tracks m waiting := fun _ => h.of_machine rfl
  unfold putFuture
  dsimp only
  split
  · exact hput _
  · exact perform_tracks hn _ (hput _)

theorem pollUpTo_tracks (hn : nested.Tracks) (id : FutureId) (limit : Nat) :
    ∀ {host : Host}, host.Tracks m waiting → (pollUpTo nested id limit host).2.Tracks m waiting := by
  induction limit with
  | zero => intro host h; exact h
  | succ limit ih =>
    intro host h
    have hpoll := perform_tracks hn (.poll id) h
    unfold pollUpTo
    obtain ⟨result, host', he⟩ : ∃ result host', host.perform nested (.poll id) = (result, host') :=
      ⟨_, _, rfl⟩
    rw [he] at hpoll ⊢
    match result with
    | none => exact hpoll
    | some .pending => exact ih hpoll
    | some .finished => exact hpoll
    | some (.resolved id) => exact hpoll
    | some (.rejected rejection) => exact hpoll

theorem pollSlot_tracks (hn : nested.Tracks) (limit : Nat) (slot : String)
    (h : host.Tracks m waiting) : (pollSlot nested limit slot host).2.Tracks m waiting := by
  have hput : ∀ futures, ({ host with futures } : Host).Tracks m waiting := fun _ => h.of_machine rfl
  unfold pollSlot
  split
  · exact h
  · rename_i id _
    have hpoll := pollUpTo_tracks hn id limit (hput (clearSlot host.futures slot))
    split <;> rename_i he <;> rw [he] at hpoll
    · exact hpoll
    · exact putFuture_tracks hn slot id hpoll
    · exact hpoll
    · exact hpoll
    · exact hpoll

theorem sendSlot_tracks (hn : nested.Tracks) (event : String) (args : List Json) (slot : String)
    (h : host.Tracks m waiting) : (sendSlot nested event args slot host).2.Tracks m waiting := by
  have hsend := perform_tracks hn (.send event args) h
  unfold sendSlot
  split <;> rename_i he <;> rw [he] at hsend
  · exact hsend
  · exact putFuture_tracks hn slot _ (hsend.of_machine rfl)

theorem withTransition_tracks {slot : String} {f : TransitionId → Transition → Host → Answer × Host}
    (h : host.Tracks m waiting) (hf : ∀ id t, (f id t host).2.Tracks m waiting) :
    (host.withTransition slot f).2.Tracks m waiting := by
  unfold withTransition
  split
  · exact h
  · split
    · exact h
    · exact hf _ _

theorem makeFuture_tracks (hn : nested.Tracks) (phase : Option Phase) (slot : String)
    (h : host.Tracks m waiting) : (makeFuture nested phase slot host).2.Tracks m waiting :=
  withTransition_tracks h fun _ _ => putFuture_tracks hn slot _ (perform_tracks hn _ h)

/-- **A step of a script is a run.** -/
theorem step_tracks (hn : nested.Tracks) (s : Step) (h : host.Tracks m waiting) :
    (host.step nested s).2.Tracks m waiting := by
  have hop : ∀ op, (host.perform nested op).2.Tracks m waiting := fun op => perform_tracks hn op h
  cases s with
  | send event args slot =>
    have hsend := sendSlot_tracks hn event args slot h
    simp only [step]
    split <;> rename_i he <;> rw [he] at hsend <;> exact hsend
  | fire event args slot =>
    have hsend := sendSlot_tracks hn event args slot h
    simp only [step]
    split <;> rename_i he <;> rw [he] at hsend
    · exact hsend
    · exact pollSlot_tracks hn _ slot hsend
  | poll slot => exact pollSlot_tracks hn 1 slot h
  | run slot => exact pollSlot_tracks hn runLimit slot h
  | drop slot =>
    simp only [step]
    split
    · exact h
    · exact perform_tracks hn _ (h.of_machine rfl)
  | release gate => exact perform_tracks hn .wake (h.of_machine rfl)
  | transitionFor event args slot =>
    have hfor := hop (.transitionFor event args)
    simp only [step]
    split <;> rename_i he <;> rw [he] at hfor
    · exact hfor
    · exact hfor.of_machine rfl
  | perform slot => exact makeFuture_tracks hn none slot h
  | callback slot phase => exact makeFuture_tracks hn (some phase) slot h
  | callbacksFor slot phase =>
    refine withTransition_tracks h fun id _ => ?_
    have hids := hop (.callbacksFor id phase)
    split <;> rename_i he <;> rw [he] at hids <;> exact hids
  | abort slot => exact withTransition_tracks h fun _ _ => hop _
  | abortActive slot => exact withTransition_tracks h fun _ _ => hop _
  | abortAll => exact hop .abortAll
  | canEnter name =>
    have henter := hop (.canEnter name)
    simp only [step]
    split <;> rename_i he <;> rw [he] at henter <;> exact henter
  | setState name =>
    have hset := hop (.setState name)
    simp only [step]
    split <;> rename_i he <;> rw [he] at hset <;> exact hset
  | inState name => simp only [step]; split <;> exact h
  | accessor name => simp only [step]; split <;> exact h
  | setGuard name script =>
    refine h.of_machine ?_
    cases script <;> rfl
  | setCallback name script => exact h.of_machine rfl
  | removeGuard name => exact h.of_machine rfl
  | subscribe script => exact perform_tracks hn .subscribe (h.of_machine rfl)
  | inspect slot => exact withTransition_tracks h fun _ _ => h
  | record slot => exact withTransition_tracks h fun _ _ => h
  | toValue slot => exact withTransition_tracks h fun _ _ => h
  | outcome slot phase id => exact withTransition_tracks h fun _ _ => h
  | hasActive slot => exact withTransition_tracks h fun _ _ => h
  | _ => exact h

/-- Steps inside of requests are runs, however deep. -/
theorem runNested_tracks (depth : Nat) : Nested.Tracks (runNested depth) := by
  induction depth with
  | zero => exact fun _ _ _ _ h => h
  | succ depth ih =>
    -- deeper down first, then step by step
    intro m waiting steps
    induction steps with
    | nil => exact fun _ h => h
    | cons s rest ihs => exact fun host h => ihs _ ((step_tracks ih s h).of_machine rfl)

end Host

/-! ## Scripts -/

theorem foldl_machine {α : Type} {f : Host → α → Host} (hf : ∀ host a, (f host a).machine = host.machine)
    (l : List α) : ∀ host : Host, (l.foldl f host).machine = host.machine := by
  induction l with
  | nil => exact fun _ => rfl
  | cons a rest ih => exact fun host => (ih (f host a)).trans (hf host a)

theorem Script.machine_furnish (script : Script) (host : Host) :
    (script.furnish host).machine = host.machine := by
  unfold furnish
  dsimp only
  rw [foldl_machine, foldl_machine, foldl_machine]
  · intro host listener; rfl
  · rintro host ⟨name, guard⟩
    cases guard <;> rfl
  · intro host callback; rfl

/-- Whether a report tells what a world is like. -/
def StepReport.Tells (report : StepReport) (w : World LiveCallback Computation) : Prop :=
  report.state = w.machine.state ∧ report.transitioning = w.machine.isTransitioning ∧
    report.active = w.machine.activeTransitions.map (·.record.summary)

theorem Script.runSteps_tells {m : ScriptedMachine} (depth : Nat) (steps : List Step) :
    ∀ {host : Host}, host.Tracks m [] → ∀ report ∈ runSteps depth steps host,
      ∃ w, Reaches m w ∧ w.waiting = [] ∧ report.Tells w := by
  induction steps with
  | nil => exact fun _ _ h => nomatch h
  | cons s rest ih =>
    intro host h report hr
    have hstep := Host.step_tracks (Host.runNested_tracks depth) s h
    rcases List.mem_cons.1 hr with rfl | hr
    · obtain ⟨trace, hreach⟩ := hstep
      exact ⟨_, hreach, rfl, rfl, rfl, rfl⟩
    · refine ih ?_ report hr
      exact hstep.of_machine rfl

/-- **Scripts are runs**: the machine of a script is built from its definition, and each report is of a
world that this machine reaches, with no operation left waiting. -/
theorem Script.run_reaches {script : Script} {report : Report} (h : script.run = .ok report) :
    ∃ m : ScriptedMachine,
      Machine.build script.spec script.liveHooks
          (Target.empty script.target.name : Target LiveGuard LiveCallback).describe
          Script.idText script.initialState script.listeners.length = .ok m ∧
        ∀ r ∈ report.steps, ∃ w, Reaches m w ∧ w.waiting = [] ∧ r.Tells w := by
  obtain ⟨host, hhost, h⟩ := except_bind_eq_ok.1 h
  obtain ⟨m, hm, hhost⟩ := except_bind_eq_ok.1 hhost
  cases h
  cases hhost
  -- furnishing the host leaves its machine as it was built
  refine ⟨m, hm, Script.runSteps_tells _ _ ⟨[], ?_⟩⟩
  rw [script.machine_furnish]
  exact .start

end StateEngine
