import StateEngine.Machine.Interference
import StateEngine.Proofs.Build
import StateEngine.Proofs.Performance

/-!
# Who reads a status

The status of a transition is read in one place only: a dispatch that settles without a rejection is committed
unless its transition was aborted. No change depends on a status, and neither does anything else that a poll does.

* `Change.abort_apply`: **no change tells whether a transition was aborted before**.
* `Machine.Agrees.transition`, `Machine.Agrees.eq_of_abort`: what is the same in two machines that agree.
* `Program.Blind`: programs that cannot tell two such machines apart, until they settle.
* `settle_blind`: the one program that reads a status.
* `poll_blind`: **a poll is blind until it settles**, and that of a future that is no dispatch altogether.
-/

namespace StateEngine

open Program

variable {κ φ α β : Type} {m m' : Machine κ φ} {f : FutureId} {id i : TransitionId} {t : Transition}
  {direct : Prop}

/-! ## Changes -/

/-- An abort overrides the status, whatever else is noted. -/
theorem Transition.mark_abort_mark (t : Transition) (mark : Mark) :
    ((t.mark .abort).mark mark).mark .abort = (t.mark mark).mark .abort := by
  cases mark with
  | settle phase callback outcome => cases outcome <;> rfl
  | _ => rfl

namespace Machine

/-- Transitions, one of which is aborted before a mark and after it. -/
theorem modify_abort_mark (ts : List Transition) (id i : TransitionId) (mark : Mark) :
    ((ts.modify id (·.mark .abort)).modify i (·.mark mark)).modify id (·.mark .abort) =
      (ts.modify i (·.mark mark)).modify id (·.mark .abort) := by
  refine List.ext_getElem? fun j => ?_
  simp only [List.getElem?_modify]
  cases ts[j]? with
  | none => rfl
  | some t =>
    by_cases hid : id = j
    · by_cases hi : i = j
      · simp [hid, hi, t.mark_abort_mark mark]
      · simp only [hid, hi, if_true, if_false]
        rfl
    · simp [hid]

theorem modify_abort_abort (ts : List Transition) (id : TransitionId) :
    (ts.modify id (·.mark .abort)).modify id (·.mark .abort) = ts.modify id (·.mark .abort) :=
  List.modify_modify_eq _ _ id ts

theorem modify_abort_concat (ts : List Transition) (id : TransitionId) (t : Transition) :
    (ts.modify id (·.mark .abort) ++ [t]).modify id (·.mark .abort) = (ts ++ [t]).modify id (·.mark .abort) := by
  refine List.ext_getElem? fun j => ?_
  simp only [List.getElem?_modify, List.getElem?_append, List.length_modify]
  by_cases hj : j < ts.length
  · simp only [hj, if_true]
    cases ts[j]? with
    | none => rfl
    | some t' =>
      by_cases hid : id = j
      · simp only [hid, if_true]
        rfl
      · simp [hid]
  · simp only [hj, if_false]

theorem modify_abort_abortIn (ids : List TransitionId) (id : TransitionId) : ∀ ts : List Transition,
    (abortIn (ts.modify id (·.mark .abort)) ids).modify id (·.mark .abort) =
      (abortIn ts ids).modify id (·.mark .abort) := by
  induction ids with
  | nil => exact fun ts => modify_abort_abort ts id
  | cons i ids ih =>
    intro ts
    have hmarked := ih ((ts.modify id (·.mark .abort)).modify i (·.mark .abort))
    rw [modify_abort_mark, ih] at hmarked
    exact hmarked.symm

theorem abort_abort (m : Machine κ φ) (id : TransitionId) : (m.abort id).abort id = m.abort id :=
  congrArg (fun ts => { m with transitions := ts }) (modify_abort_abort m.transitions id)

/-- An abort of what was aborted already. -/
theorem abort_of_eq (h : m' = m.abort id) : m'.abort id = m.abort id := h ▸ m.abort_abort id

theorem abort_abortActive (m : Machine κ φ) (id i : TransitionId) :
    ((m.abort id).abortActive i).abort id = (m.abortActive i).abort id := by
  by_cases hi : i ∈ m.active
  · rw [abortActive_of_mem hi, abortActive_of_mem (m := m.abort id) hi]
    exact congrArg (fun ts => { m.deactivate i with transitions := ts }) (modify_abort_mark _ id i .abort)
  · rw [abortActive_of_not_mem hi, abortActive_of_not_mem (m := m.abort id) hi]
    exact m.abort_abort id

theorem abort_abortAll (m : Machine κ φ) (id : TransitionId) :
    ((m.abort id).abortAll).abort id = m.abortAll.abort id := by
  rw [abortAll_eq, abortAll_eq]
  exact congrArg (fun ts => { m with active := [], transitions := ts }) (modify_abort_abortIn m.active id m.transitions)

theorem abort_dropFuture (m : Machine κ φ) (id : TransitionId) (g : FutureId) :
    ((m.abort id).dropFuture g).abort id = (m.dropFuture g).abort id := by
  unfold dropFuture
  rw [show (m.abort id).future? g = m.future? g from rfl]
  cases m.future? g with
  | none => exact m.abort_abort id
  | some x =>
    dsimp only
    split
    · exact m.abort_abort id
    · split
      · exact (m.closeFuture g).abort_abortActive id x.transition
      · exact (m.closeFuture g).abort_abort id

end Machine

/-- **No change tells** whether a transition was aborted before. -/
theorem Change.abort_apply (c : Change φ) (m : Machine κ φ) (id : TransitionId) :
    (c.apply (m.abort id)).abort id = (c.apply m).abort id := by
  cases c with
  | note i mark => exact congrArg (fun ts => { m with transitions := ts }) (Machine.modify_abort_mark _ id i mark)
  | add record args => exact congrArg (fun ts => { m with transitions := ts }) (Machine.modify_abort_concat _ id _)
  | launch record args =>
    simp [apply, Machine.launch, Machine.addTransition, Machine.activate, Machine.addFuture, Machine.nextTransition,
      Machine.abort, Machine.note, Machine.modify_abort_concat]
  | relaunch g r record args =>
    simp [apply, Machine.relaunch, Machine.addTransition, Machine.activate, Machine.nextTransition,
      Machine.abort, Machine.note, Machine.modify_abort_concat]
  | fail g i r =>
    cases r with
    | none => exact (m.release g i).abort_abortAll id
    | some r => exact ((m.setStage g (.failed r)).deactivate i).abort_abortAll id
  | abortAll => exact m.abort_abortAll id
  | abortActive i => exact m.abort_abortActive id i
  | dropFuture g => exact m.abort_dropFuture id g
  | _ => exact Machine.abort_of_eq rfl

/-! ## Agreement -/

namespace Machine.Agrees

theorem apply (h : m.Agrees id m') (c : Change φ) : (c.apply m).Agrees id (c.apply m') :=
  calc (c.apply m).abort id
      = (c.apply (m.abort id)).abort id := (c.abort_apply m id).symm
    _ = (c.apply (m'.abort id)).abort id := by rw [show m.abort id = m'.abort id from h]
    _ = (c.apply m').abort id := c.abort_apply m' id

theorem abort_left (h : m.Agrees id m') : (m.abort id).Agrees id m' := (m.abort_abort id).trans h

theorem abort_right (h : m.Agrees id m') : m.Agrees id (m'.abort id) := Eq.trans h (m'.abort_abort id).symm

/-- What an abort leaves alone is the same in both. -/
theorem eq_of_abort (h : m.Agrees id m') (g : Machine κ φ → β) (hg : ∀ m : Machine κ φ, g (m.abort id) = g m) :
    g m = g m' := by
  have habort : m.abort id = m'.abort id := h
  rw [← hg m, ← hg m', habort]

theorem future_eq (h : m.Agrees id m') (f : FutureId) : m'.future? f = m.future? f :=
  (h.eq_of_abort (fun m => m.future? f) fun _ => rfl).symm

/-- A transition is the same in both, up to its book. -/
theorem transition (h : m.Agrees id m') (ht : m.transition? i = some t) :
    ∃ p : Progress, m'.transition? i = some { t with progress := p } ∧ t.progress.Agrees p := by
  have heq : (m.abort id).transition? i = (m'.abort id).transition? i := congrArg (·.transition? i) h
  rw [abort, abort, transition_note, transition_note, ht, Option.map_some] at heq
  obtain ⟨t', ht', hsame⟩ := Option.map_eq_some_iff.1 heq.symm
  by_cases hi : i = id
  · rw [if_pos hi, if_pos hi] at hsame
    obtain ⟨record, args, p⟩ := t'
    obtain ⟨record', args', p'⟩ := t
    simp only [Transition.mark, Progress.mark, Progress.abort, Transition.mk.injEq, Progress.mk.injEq, true_and]
      at hsame
    obtain ⟨rfl, rfl, hresolving, hrejected, hresolutions, hrejections, hrejection⟩ := hsame
    exact ⟨p, ht', hresolving, hrejected, hrejection, hresolutions, hrejections⟩
  · rw [if_neg hi, if_neg hi] at hsame
    subst hsame
    exact ⟨t'.progress, ht', rfl, rfl, rfl, rfl, rfl⟩

theorem transition_none (h : m.Agrees id m') (ht : m.transition? i = none) : m'.transition? i = none := by
  cases ht' : m'.transition? i with
  | none => rfl
  | some t' =>
    obtain ⟨p, hp, -⟩ := transition (Eq.symm h) ht'
    exact nomatch ht.symm.trans hp

end Machine.Agrees

/-! ## Futures that are no dispatch -/

theorem Machine.Directs.setStage (h : m.Directs f) (stage : Stage φ) : (m.setStage f stage).Directs f := by
  intro x hx
  cases hf : m.future? f with
  | none =>
    have hslot : (m.setStage f stage).future? f = none := by
      unfold Machine.future? at hf
      unfold Machine.future? Machine.setStage
      rw [List.getElem?_modify_eq]
      cases hg : m.futures[f]? with
      | none => rfl
      | some slot =>
        rw [hg] at hf
        cases hf
        rfl
    exact nomatch hslot.symm.trans hx
  | some y =>
    cases Option.some.inj ((Machine.future_setStage hf stage).symm.trans hx)
    exact h y hf

theorem Machine.directs_closeFuture (m : Machine κ φ) (f : FutureId) : (m.closeFuture f).Directs f := by
  intro x hx
  have hgone : (m.closeFuture f).future? f = none := (Machine.future_close rfl).trans (if_pos rfl)
  exact nomatch hgone.symm.trans hx

/-! ## Programs that cannot tell -/

/-- **What is known of the machines of two runs.** If the future is no dispatch, this is known as well. -/
structure Machine.Matches (f : FutureId) (id : TransitionId) (direct : Prop) (m m' : Machine κ φ) : Prop where
  agrees : m.Agrees id m'
  directs : direct → m.Directs f

/-- Whether a program is about to settle the dispatch of a transition, with a commit or without. -/
def Program.Settles (id : TransitionId) : Program κ φ α → Prop
  | .change (.commit _ i _) _ => i = id
  | .change (.release _ i) _ => i = id
  | _ => False

/-- **Whether a program goes on in the same way** on machines that agree on everything but the status of a
transition. Where it looks it may be about to settle, but not if the future is no dispatch, as which it is left. -/
def Program.Blind (f : FutureId) (id : TransitionId) (direct : Prop) : Program κ φ α → Prop
  | .done _ => True
  | .look next => ∀ m m', m.Matches f id direct m' →
      (next m = next m' ∧ (next m).Blind f id direct) ∨
        (¬ direct ∧ (next m).Settles id ∧ (next m').Settles id)
  | .change c next =>
      (∀ m : Machine κ φ, (direct → m.Directs f) → direct → (c.apply m).Directs f) ∧ next.Blind f id direct
  | .ask _ resume => ∀ reply, (resume reply).Blind f id direct

theorem Program.Settles.bind {p : Program κ φ α} (h : p.Settles id) (k : α → Program κ φ β) :
    (p.bind k).Settles id := by
  cases p with
  | done a => exact h.elim
  | look next => exact h.elim
  | ask request resume => exact h.elim
  | change c next =>
    cases c with
    | commit g i record => exact h
    | release g i => exact h
    | _ => exact h.elim

namespace Program.Blind

theorem pure (a : α) : (Pure.pure a : Program κ φ α).Blind f id direct := trivial

theorem ask (request : Request κ φ) : (StateEngine.ask request).Blind f id direct := fun _ => trivial

theorem note (i : TransitionId) (mark : Mark) :
    (StateEngine.make (.note i mark) : Program κ φ Unit).Blind f id direct := ⟨fun _ h => h, trivial⟩

theorem setStage (stage : Stage φ) :
    (StateEngine.make (.setStage f stage) : Program κ φ Unit).Blind f id direct :=
  ⟨fun _ h hd => (h hd).setStage stage, trivial⟩

/-- A dispatch may make any change. -/
theorem make (hd : ¬ direct) (c : Change φ) : (StateEngine.make c : Program κ φ Unit).Blind f id direct :=
  ⟨fun _ _ h => absurd h hd, trivial⟩

theorem look {k : Machine κ φ → Program κ φ α}
    (h : ∀ m m', m.Matches f id direct m' → k m = k m' ∧ (k m).Blind f id direct) :
    (StateEngine.look >>= k).Blind f id direct := fun m m' hm => .inl (h m m' hm)

theorem bind {p : Program κ φ α} {k : α → Program κ φ β} (h : p.Blind f id direct)
    (hk : ∀ a, (k a).Blind f id direct) : (p >>= k).Blind f id direct := by
  induction p with
  | done a => exact hk a
  | look next ih =>
    intro m m' hm
    rcases h m m' hm with ⟨hsame, hblind⟩ | ⟨hd, hsettles, hsettles'⟩
    · exact .inl ⟨congrArg (·.bind k) hsame, ih m hblind⟩
    · exact .inr ⟨hd, hsettles.bind k, hsettles'.bind k⟩
  | change c next ih => exact ⟨h.1, ih h.2⟩
  | ask request resume ih => exact fun reply => ih reply (h reply)

end Program.Blind

/-! ## Performing

What performs a transition looks at the machine for its definition, for the name of the target, and for how often
it was woken. -/

theorem findNamed_blind (name : String) (missing : String → MissingCallback) :
    (findNamed name missing : Program κ φ _).Blind f id direct := by
  refine Blind.bind (.ask _) fun reply => ?_
  cases reply with
  | some callback => exact .pure _
  | none =>
    refine Blind.look fun m m' h => ⟨?_, .pure _⟩
    have htarget : m.targetName = m'.targetName := h.agrees.eq_of_abort Machine.targetName fun _ => rfl
    rw [htarget]

theorem find_blind (record : Record) (phase : Phase) (listed : Listed κ) :
    (find record phase listed : Program κ φ _).Blind f id direct := by
  cases listed with
  | stateHook state name => exact findNamed_blind name fun target => .stateHook name target state phase
  | inlineHook stateIndex position callback => exact .pure _
  | transition name => exact findNamed_blind name fun target => .transition name target record phase

theorem findAll_blind (record : Record) (phase : Phase) (listed : List (Listed κ)) :
    (findAll record phase listed : Program κ φ _).Blind f id direct := by
  induction listed with
  | nil => exact .pure _
  | cons x rest ih =>
    refine Blind.bind (find_blind record phase x) fun found => ?_
    cases found with
    | error error => exact .pure _
    | ok callback =>
      refine Blind.bind ih fun others => ?_
      cases others with
      | error error => exact .pure _
      | ok others => exact .pure _

theorem callbacksFor_blind (t : Transition) (phase : Phase) :
    (callbacksFor t phase : Program κ φ _).Blind f id direct := by
  refine Blind.look fun m m' h => ⟨?_, findAll_blind _ _ _⟩
  have hdefinition : m.definition = m'.definition := h.agrees.eq_of_abort Machine.definition fun _ => rfl
  rw [hdefinition]

theorem callAll_blind (context : Context) (callbacks : List (String × κ)) :
    (callAll context callbacks : Program κ φ _).Blind f id direct := by
  induction callbacks with
  | nil => exact .pure _
  | cons x rest ih => exact Blind.bind (.ask _) fun settlement => Blind.bind ih fun calls => .pure _

theorem noteOutcome_blind (i : TransitionId) (phase : Phase) (callback : String) (outcome : Outcome) :
    (noteOutcome i phase callback outcome : Program κ φ _).Blind f id direct :=
  Blind.bind (.note i _) fun _ => .pure _

theorem pollPending_blind (i : TransitionId) (phase : Phase) (callback : String) (computation : φ) :
    (pollPending i phase callback computation : Program κ φ _).Blind f id direct := by
  refine Blind.bind (.ask _) fun reply => ?_
  cases reply with
  | yielding computation => exact .pure _
  | sleeping computation => exact .pure _
  | settled outcome => exact noteOutcome_blind i phase callback outcome

theorem pollCall_blind (i : TransitionId) (phase : Phase) (call : Call φ) :
    (pollCall i phase call : Program κ φ _).Blind f id direct := by
  unfold pollCall
  split
  · exact .pure _
  · exact noteOutcome_blind i phase call.id _
  · exact noteOutcome_blind i phase call.id _
  · exact pollPending_blind i phase call.id _
  · exact pollPending_blind i phase call.id _

theorem pollAll_blind (i : TransitionId) (phase : Phase) (calls : List (Call φ)) :
    (pollAll i phase calls : Program κ φ _).Blind f id direct := by
  induction calls with
  | nil => exact .pure _
  | cons call rest ih => exact Blind.bind (pollCall_blind i phase call) fun call => Blind.bind ih fun rest => .pure _

theorem pollTurns_blind (i : TransitionId) (phase : Phase) (left turns yields : Nat) (roster : Roster φ) :
    (pollTurns i phase left turns yields roster : Program κ φ _).Blind f id direct := by
  -- after each poll there is an outcome less to come, or a turn less to be had
  induction left, turns, yields, roster using pollTurns.induct with
  | case1 turns yields roster => rw [pollTurns]; exact .pure _
  | case2 left yields roster h =>
    rw [pollTurns]
    · exact .pure _
    · exact h
  | case3 left turns roster h h' =>
    rw [pollTurns]
    · exact .pure _
    · exact h
    · exact h'
  | case4 roster left turns yields ih1 ih2 ih3 =>
    rw [pollTurns]
    refine Blind.look fun m m' h => ⟨?_, ?_⟩
    · have hwakeUps : m.wakeUps = m'.wakeUps := h.agrees.eq_of_abort Machine.wakeUps fun _ => rfl
      rw [hwakeUps]
    · cases hn : (roster.heed m.wakeUps).next? with
      | none => exact .pure _
      | some found =>
        obtain ⟨position, call, roster'⟩ := found
        refine Blind.bind (pollCall_blind i phase call) fun polled => ?_
        cases hs : polled.standing with
        | noted outcome => exact ih1 position roster' polled
        | due settlement => exact ih2 position roster' polled
        | asleep computation => exact ih3 position roster' polled

theorem pollRoster_blind (i : TransitionId) (phase : Phase) (roster : Roster φ) :
    (pollRoster i phase roster : Program κ φ _).Blind f id direct := by
  unfold pollRoster
  split
  · exact pollTurns_blind i phase _ _ _ roster
  · exact Blind.bind (pollAll_blind i phase roster.calls) fun calls => .pure _

theorem continuePhase_blind (i : TransitionId) (phase : Phase) (roster : Roster φ) :
    (continuePhase i phase roster : Program κ φ _).Blind f id direct :=
  Blind.bind (pollRoster_blind i phase roster) fun _ => .pure _

theorem startPhase_blind (i : TransitionId) (t : Transition) (phase : Phase) :
    (startPhase i t phase : Program κ φ _).Blind f id direct := by
  refine Blind.bind (callbacksFor_blind t phase) fun found => ?_
  cases found with
  | error error => exact .pure _
  | ok callbacks =>
    refine Blind.bind (.note i .begin) fun _ => ?_
    exact Blind.bind (callAll_blind _ callbacks) fun calls => continuePhase_blind i phase _

theorem startPhases_blind (i : TransitionId) (t : Transition) (phases : List Phase) :
    (startPhases i t phases : Program κ φ _).Blind f id direct := by
  induction phases with
  | nil => exact Blind.bind (.note i .resolve) fun _ => .pure _
  | cons phase rest ih =>
    refine Blind.bind (startPhase_blind i t phase) fun advance => ?_
    rcases advance with ⟨phase, roster⟩ | (rejection | _)
    · exact .pure _
    · exact Blind.bind (.note i (.reject rejection)) fun _ => .pure _
    · exact ih

theorem advance_blind (i : TransitionId) (t : Transition) (stage : Stage φ) :
    (advance i t stage : Program κ φ _).Blind f id direct := by
  cases stage with
  | waiting phase roster =>
    refine Blind.bind (continuePhase_blind i phase roster) fun advance => ?_
    rcases advance with ⟨phase, roster⟩ | (rejection | _)
    · exact .pure _
    · exact Blind.bind (.note i (.reject rejection)) fun _ => .pure _
    · exact startPhases_blind i t phase.later
  | _ => exact startPhases_blind i t Phase.all

theorem advancePhase_blind (i : TransitionId) (t : Transition) (phase : Phase) (stage : Stage φ) :
    (advancePhase i t phase stage : Program κ φ _).Blind f id direct := by
  cases stage with
  | waiting phase roster => exact continuePhase_blind i phase roster
  | _ => exact startPhase_blind i t phase

/-! ## Dispatching -/

theorem checkGuard_blind (name state : String) :
    (checkGuard name state : Program κ φ _).Blind f id direct := by
  refine Blind.bind (.ask _) fun reply => ?_
  cases reply with
  | some holds => exact .pure _
  | none =>
    refine Blind.look fun m m' h => ⟨?_, .pure _⟩
    have htarget : m.targetName = m'.targetName := h.agrees.eq_of_abort Machine.targetName fun _ => rfl
    rw [htarget]

theorem passesUnless_blind (guards : Guards) (state : String) :
    (passesUnless guards state : Program κ φ _).Blind f id direct := by
  unfold passesUnless
  cases guards.doUnless with
  | none => exact .pure _
  | some name => exact Blind.bind (checkGuard_blind name state) fun _ => .pure _

theorem passes_blind (guards : Guards) (state : String) :
    (passes guards state : Program κ φ _).Blind f id direct := by
  have hunless : (passesUnless guards state : Program κ φ _).Blind f id direct := passesUnless_blind guards state
  unfold passes
  cases guards.doIf with
  | none => exact hunless
  | some name =>
    refine Blind.bind (checkGuard_blind name state) fun first => ?_
    cases first with
    | error error => exact .pure _
    | ok passed =>
      cases passed with
      | true => exact .pure _
      | false => exact hunless

theorem firstPassing_blind (state : String) (records : List Record) :
    (firstPassing state records : Program κ φ _).Blind f id direct := by
  induction records with
  | nil => exact .pure _
  | cons record rest ih =>
    unfold firstPassing
    split
    · refine Blind.bind (passes_blind record.guards state) fun passed => ?_
      rcases passed with error | (_ | _)
      · exact .pure _
      · exact ih
      · exact .pure _
    · exact .pure _

theorem resolve_blind (event : String) : (resolve event : Program κ φ _).Blind f id direct := by
  refine Blind.look fun m m' h => ⟨?_, ?_⟩
  · have hdefinition : m.definition = m'.definition := h.agrees.eq_of_abort Machine.definition fun _ => rfl
    have hstate : m.state = m'.state := h.agrees.eq_of_abort Machine.state fun _ => rfl
    rw [hdefinition, hstate]
  · dsimp only
    split
    · exact .pure _
    · refine Blind.bind (firstPassing_blind _ _) fun result => ?_
      rcases result with error | (_ | record)
      · exact .pure _
      · exact .pure _
      · exact .pure _

/-- Whether a record may become active does not depend on who was aborted. -/
theorem Machine.permit_abort (m : Machine κ φ) (id : TransitionId) (record : Record) :
    (m.abort id).permit record = m.permit record := by
  have hlabels : (m.abort id).activeLabels = m.activeLabels := by
    unfold activeLabels activeTransitions
    rw [List.map_filterMap, List.map_filterMap]
    refine List.filterMap_congr fun i _ => ?_
    rw [abort, transition_note]
    cases m.transition? i with
    | none => rfl
    | some t =>
      by_cases hi : i = id
      · simp only [hi, if_true, Option.map_some]
        rfl
      · simp only [hi, if_false, Option.map_some]
  unfold permit
  rw [hlabels]
  rfl

theorem select_blind (event : String) : (select event : Program κ φ _).Blind f id direct := by
  refine Blind.look fun m m' h => ⟨?_, ?_⟩
  · have hdefinition : m.definition = m'.definition := h.agrees.eq_of_abort Machine.definition fun _ => rfl
    rw [hdefinition]
  · split
    · exact .pure _
    · refine Blind.bind (resolve_blind event) fun result => ?_
      cases result with
      | error error => exact .pure _
      | ok record =>
        refine Blind.look fun m m' h => ⟨?_, ?_⟩
        · have hpermit : m.permit record = m'.permit record :=
            h.agrees.eq_of_abort (fun m => m.permit record) fun m => m.permit_abort id record
          rw [hpermit]
        · cases m.permit record with
          | error error => exact .pure _
          | ok _ => exact .pure _

theorem notifyAll_blind (change : StateChange) (listeners : List Nat) :
    (notifyAll change listeners : Program κ φ _).Blind f id direct := by
  induction listeners with
  | nil => exact .pure _
  | cons listener rest ih => exact Blind.bind (.ask _) fun _ => ih

theorem notify_blind (change : StateChange) : (notify change : Program κ φ _).Blind f id direct := by
  refine Blind.look fun m m' h => ⟨?_, notifyAll_blind _ _⟩
  have hlisteners : m.listeners = m'.listeners := h.agrees.eq_of_abort Machine.listeners fun _ => rfl
  rw [hlisteners]

/-- Whether another transition was aborted is the same in both machines. -/
theorem Machine.Agrees.isAborted_eq (h : m.Agrees id m') (hi : i ≠ id) : m.isAborted i = m'.isAborted i := by
  refine h.eq_of_abort (fun m => m.isAborted i) fun m => ?_
  have hbook : (m.abort id).transition? i = m.transition? i := by
    rw [abort, transition_note]
    simp [hi]
  rw [isAborted, hbook, isAborted]

/-- **The one program that reads a status.** It settles the dispatch, with a commit or without. -/
theorem settle_blind (hd : ¬ direct) (i : TransitionId) (record : Record) :
    (settle f i record : Program κ φ _).Blind f id direct := by
  intro m m' h
  by_cases hi : i = id
  · have hsettles : ∀ (b : Bool) (change : StateChange), Program.Settles id
        (if b then (do make (.commit f i record); notify change) else make (.release f i) : Program κ φ Unit) := by
      intro b change
      cases b with
      | true => exact hi
      | false => exact hi
    exact .inr ⟨hd, hsettles _ _, hsettles _ _⟩
  · have hactive : m.isActive i = m'.isActive i := h.agrees.eq_of_abort (fun m => m.isActive i) fun _ => rfl
    have hstate : m.state = m'.state := h.agrees.eq_of_abort Machine.state fun _ => rfl
    refine .inl ⟨?_, ?_⟩
    · simp only [Program.bind, hactive, hstate, h.agrees.isAborted_eq hi]
    · change Program.Blind f id direct (if m.isActive i && !m.isAborted i then
        (do make (.commit f i record); notify _) else make (.release f i) : Program κ φ Unit)
      split
      · exact Blind.bind (.make hd _) fun _ => notify_blind _
      · exact .make hd _

theorem finish_blind (polled : Polled) (result : Except Rejection Unit) :
    (finish f polled result : Program κ φ _).Blind f id direct := by
  have hclose : (make (.closeFuture f) : Program κ φ _).Blind f id direct :=
    ⟨fun m _ _ => m.directs_closeFuture f, trivial⟩
  cases result with
  | ok _ => exact Blind.bind hclose fun _ => .pure _
  | error rejection => exact Blind.bind hclose fun _ => .pure _

theorem rest_blind (phase : Phase) (roster : Roster φ) :
    (rest f phase roster : Program κ φ _).Blind f id direct :=
  Blind.bind (.setStage _) fun _ => .pure _

theorem recover_blind (hd : ¬ direct) (i : TransitionId) (record : Record) (rejection : Rejection)
    (advance : Advance φ) : (recover f i record rejection advance : Program κ φ _).Blind f id direct := by
  rcases advance with ⟨phase, roster⟩ | (other | _)
  · exact rest_blind phase roster
  · exact Blind.bind (.make hd _) fun _ => .pure _
  · exact Blind.bind (settle_blind hd i record) fun _ => .pure _

theorem dispatchError_blind (hd : ¬ direct) (i : TransitionId) (t : Transition) (rejection : Rejection) :
    (dispatchError f i t rejection : Program κ φ _).Blind f id direct := by
  refine Blind.bind (select_blind errorEvent) fun result => ?_
  cases result with
  | error error => exact Blind.bind (.make hd _) fun _ => .pure _
  | ok record =>
    refine Blind.look fun m m' h => ⟨?_, ?_⟩
    · have hnext : m.nextTransition = m'.nextTransition :=
        h.agrees.eq_of_abort Machine.nextTransition fun m => m.length_note id .abort
      have htext : m.idText = m'.idText := h.agrees.eq_of_abort Machine.idText fun _ => rfl
      rw [hnext, htext]
    · refine Blind.bind (.make hd _) fun _ => Blind.bind (startPhases_blind _ _ _) fun advance => ?_
      exact recover_blind hd _ record rejection advance

theorem conclude_blind (hd : ¬ direct) (i : TransitionId) (t : Transition) (advance : Advance φ) :
    (conclude f i t advance : Program κ φ _).Blind f id direct := by
  rcases advance with ⟨phase, roster⟩ | (rejection | _)
  · exact rest_blind phase roster
  · unfold conclude
    dsimp only
    split
    · exact Blind.bind (.make hd _) fun _ => .pure _
    · exact Blind.bind (.make hd _) fun _ => dispatchError_blind hd i t rejection
  · exact Blind.bind (settle_blind hd i t.record) fun _ => .pure _

/-! ## Polls -/

theorem pollFrom_blind {purpose : Purpose} (hd : direct → purpose.isDispatch = false) (i : TransitionId)
    (t : Transition) (stage : Stage φ) : (pollFrom f i t purpose stage : Program κ φ _).Blind f id direct := by
  cases purpose with
  | phase phase =>
    refine Blind.bind (advancePhase_blind i t phase stage) fun advance => ?_
    rcases advance with ⟨phase, roster⟩ | result
    · exact rest_blind phase roster
    · exact finish_blind _ result
  | perform =>
    refine Blind.bind (advance_blind i t stage) fun advance => ?_
    rcases advance with ⟨phase, roster⟩ | result
    · exact rest_blind phase roster
    · exact finish_blind _ result
  | dispatch =>
    have hdispatch : ¬ direct := fun h => nomatch hd h
    exact Blind.bind (advance_blind i t stage) fun advance => conclude_blind hdispatch i t advance
  | recovery rejection =>
    have hdispatch : ¬ direct := fun h => nomatch hd h
    exact Blind.bind (advance_blind i t stage) fun advance => recover_blind hdispatch i t.record rejection advance

/-- No poll reads the book of the transition that it performs. -/
theorem pollFrom_book (i : TransitionId) (t : Transition) (progress : Progress) (purpose : Purpose)
    (stage : Stage φ) :
    (pollFrom f i { t with progress } purpose stage : Program κ φ _) = pollFrom f i t purpose stage := by
  cases purpose with
  | phase phase => cases stage <;> rfl
  | perform => simp only [pollFrom, advance_book]
  | dispatch =>
    simp only [pollFrom, advance_book]
    rfl
  | recovery rejection => simp only [pollFrom, advance_book]

/-- **A poll is blind until it settles**, and that of a future that is no dispatch altogether. -/
theorem poll_blind (f : FutureId) (id : TransitionId) (direct : Prop) :
    (poll f : Program κ φ _).Blind f id direct := by
  refine Blind.look fun m m' h => ?_
  rw [h.agrees.future_eq f]
  cases hf : m.future? f with
  | none => exact ⟨rfl, .pure _⟩
  | some x =>
    obtain ⟨i, purpose, stage⟩ := x
    have hdirect : direct → purpose.isDispatch = false := fun hd => h.directs hd _ hf
    cases hb : stage.isBusy with
    | true =>
      simp only [hb]
      exact ⟨rfl, .pure _⟩
    | false =>
      simp only [hb]
      cases ht : m.transition? i with
      | none =>
        rw [h.agrees.transition_none ht]
        exact ⟨rfl, .pure _⟩
      | some t =>
        -- the two books may differ, but neither is read
        obtain ⟨p, hp, -⟩ := h.agrees.transition ht
        rw [hp]
        simp only [pollFrom_book]
        refine ⟨trivial, Blind.bind (.setStage .busy) fun _ => ?_⟩
        exact Blind.bind (pollFrom_blind hdirect i t stage) fun _ => .pure _

end StateEngine
