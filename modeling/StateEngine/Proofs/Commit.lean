import StateEngine.Proofs.Active

/-!
# Commits

Each commit is of a record that the definition declares, but the machine need not be in the from-state
of the record any more: a transition that stays in its state may be active beside one that leaves it,
and if that one commits first, the other one takes the machine back.

* `Commit`, `Scene.commits`: what was committed, and from which state.
* `Trail.anchored`: while a transition that leads to another state is active, the machine stays where
  all active transitions start.
* `commits_declared_iff`: **every committed change is declared exactly if** each transition that was left
  behind so happens to commit a change that is declared as well.
-/

namespace StateEngine

variable {κ φ : Type} {m : Machine κ φ}

/-- Whether an event has a record from a state to a state. -/
def Definition.HasTransition (definition : Definition κ) (event source target : String) : Prop :=
  ∃ record ∈ definition.recordsFor event none, record.fromState = source ∧ record.toState = target

instance (definition : Definition κ) (event source target : String) :
    Decidable (definition.HasTransition event source target) :=
  inferInstanceAs (Decidable (∃ record ∈ definition.recordsFor event none,
    record.fromState = source ∧ record.toState = target))

/-- What was committed: a record, in the state in which the machine was. -/
structure Commit where
  record : Record
  source : String

namespace Commit

/-- The entry of the history. -/
def entry (c : Commit) : Entry Unit := ⟨c.record.event, c.source, c.record.toState, ()⟩

/-- Whether the machine was no longer in the from-state of the record. -/
def Displaced (c : Commit) : Prop := c.source ≠ c.record.fromState

/-- Whether the change is declared. -/
def Declared (definition : Definition κ) (c : Commit) : Prop :=
  definition.HasTransition c.record.event c.source c.record.toState

end Commit

/-- The commit that a deed made. -/
def Deed.commit? : Deed κ φ → Option Commit
  | .changed m (.commit _ _ record) => some ⟨record, m.state⟩
  | _ => none

/-- All commits, in the order in which they were made. -/
def Scene.commits (s : Scene κ φ) : List Commit := s.trace.filterMap Deed.commit?

theorem Scene.commits_make (s : Scene κ φ) (c : Change φ) :
    (s.make c).commits = s.commits ++ (Deed.commit? (.changed s.machine c)).toList := by
  unfold commits make
  rw [List.filterMap_append]
  cases h : Deed.commit? (.changed s.machine c) <;> simp [h]

theorem Scene.commits_ask (s : Scene κ φ) (request : Request κ φ) :
    (s.ask request).commits = s.commits := by
  simp [commits, ask, Deed.commit?]

/-! ## What changes the state -/

/-- Only a commit, or setting the state, changes the state or the history. -/
theorem Change.state_cases (c : Change φ) :
    ((c.apply m).state = m.state ∧ (c.apply m).history = m.history ∧
        Deed.commit? (.changed m c) = none) ∨
      (∃ name, c = .setState name) ∨ ∃ f i record, c = .commit f i record := by
  cases c with
  | setState name => exact .inr (.inl ⟨name, rfl⟩)
  | commit f i record => exact .inr (.inr ⟨f, i, record, rfl⟩)
  | abortActive i =>
    have hkeeps := m.abortActive_keeps i
    exact .inl ⟨hkeeps.state_eq, hkeeps.history_eq, rfl⟩
  | abortAll =>
    have hkeeps := m.abortAll_keeps
    exact .inl ⟨hkeeps.state_eq, hkeeps.history_eq, rfl⟩
  | fail f i rejection =>
    have hkeeps := m.fail_keeps f i rejection
    exact .inl ⟨hkeeps.state_eq, hkeeps.history_eq, rfl⟩
  | dropFuture f =>
    have hkeeps := m.dropFuture_keeps f
    exact .inl ⟨hkeeps.state_eq, hkeeps.history_eq, rfl⟩
  | _ => exact .inl ⟨rfl, rfl, rfl⟩

/-- No change but a new transition makes the list of transitions longer. -/
theorem Change.length_apply {c : Change φ} :
    (c.apply m).transitions.length = m.transitions.length ∨
      ∃ record args, (c.apply m).transitions = m.transitions ++ [.fresh record args] ∧
        ((c = .add record args ∨ c = .launch record args) ∨
          ∃ f rejection, c = .relaunch f rejection record args) := by
  cases c with
  | note i mark => exact .inl (Machine.length_note i mark)
  | add record args => exact .inr ⟨record, args, rfl, .inl (.inl rfl)⟩
  | launch record args => exact .inr ⟨record, args, rfl, .inl (.inr rfl)⟩
  | relaunch f rejection record args => exact .inr ⟨record, args, rfl, .inr ⟨f, rejection, rfl⟩⟩
  | abortActive i => exact .inl (m.abortActive_keeps i).length_eq
  | abortAll => exact .inl m.abortAll_keeps.length_eq
  | fail f i rejection => exact .inl (m.fail_keeps f i rejection).length_eq
  | dropFuture f => exact .inl (m.dropFuture_keeps f).length_eq
  | _ => exact .inl rfl

/-- A transition that a change adds is fresh. -/
theorem Change.transition_new {c : Change φ} {i : TransitionId} {t : Transition} (hi : ¬ i < m.transitions.length)
    (ht : (c.apply m).transition? i = some t) :
    i = m.nextTransition ∧ ∃ record args, t = .fresh record args ∧
      ((c = .add record args ∨ c = .launch record args) ∨
        ∃ f rejection, c = .relaunch f rejection record args) := by
  have hlt := Machine.transition_lt ht
  have hle := Nat.le_of_not_lt hi
  rcases Change.length_apply (m := m) (c := c) with hlen | ⟨record, args, hts, hc⟩
  · exact absurd (hlen ▸ hlt) hi
  · rw [hts, List.length_append, List.length_singleton] at hlt
    have heq : i = m.nextTransition := Nat.le_antisymm (Nat.le_of_lt_succ hlt) hle
    subst heq
    have hnew : some (Transition.fresh record args) = some t := by
      rw [← ht, Machine.transition?, hts, Machine.nextTransition, List.getElem?_concat_length]
    exact ⟨rfl, record, args, (Option.some.inj hnew).symm, hc⟩

/-- A transition keeps its record, or it is new and its record is declared. -/
theorem Allowed.record_cases {own : Option FutureId} {c : Change φ} (h : Allowed m own c)
    {i : TransitionId} {r : Record} (hr : (c.apply m).record? i = some r) :
    m.record? i = some r ∨ m.definition.Declares r := by
  by_cases hi : i < m.transitions.length
  · exact .inl (c.grows.record_of_lt hi hr)
  · right
    obtain ⟨t, ht, rfl⟩ := Machine.record_eq_some.1 hr
    obtain ⟨-, record, args, rfl, (rfl | rfl) | ⟨f, rejection, rfl⟩⟩ := Change.transition_new hi ht
    · cases h with | add _ hd => exact hd
    · cases h with | launch _ hd _ => exact hd
    · cases h with | relaunch _ _ hr _ => exact ⟨errorEvent, hr⟩

/-! ## Where the machine stays -/

/-- Whether a deed sets the state directly. -/
def Deed.setsState : Deed κ φ → Bool
  | .changed _ (.setState _) => true
  | _ => false

/-- Whether the state was never set directly. -/
def Scene.Unset (s : Scene κ φ) : Prop := ∀ d ∈ s.trace, d.setsState = false

theorem Scene.Unset.of_make {s : Scene κ φ} {c : Change φ} (h : (s.make c).Unset) :
    s.Unset ∧ ∀ name, c ≠ .setState name := by
  refine ⟨fun d hd => h d (List.mem_append_left _ hd), ?_⟩
  rintro name rfl
  exact nomatch h (.changed s.machine (.setState name)) (List.mem_append_right _ List.mem_cons_self)

theorem Scene.Unset.of_ask {s : Scene κ φ} {request : Request κ φ} (h : (s.ask request).Unset) :
    s.Unset := fun d hd => h d (List.mem_append_left _ hd)

/-- Whether the machine is where all active transitions start, if one of them is to leave. -/
def Machine.Anchored (m : Machine κ φ) : Prop :=
  ∀ i ∈ m.active, ∀ r, m.record? i = some r → r.changesState = true →
    ∀ j ∈ m.active, ∀ r', m.record? j = some r' → r'.fromState = m.state

theorem Record.toState_eq {r : Record} (h : r.changesState = false) : r.toState = r.fromState := by
  simpa [Record.changesState] using h

/-- A commit beside a transition that is to leave does not move the machine. -/
theorem Machine.Anchored.commit_eq {s : Scene κ φ} (h : s.machine.Anchored) (ho : s.Orderly)
    {i : TransitionId} {r : Record} (hi : i ∈ s.machine.active) (hr : s.machine.record? i = some r)
    {j : TransitionId} {r' : Record} (hj : j ∈ s.machine.active) (hr' : s.machine.record? j = some r')
    (hc : r'.changesState = true) (hne : i ≠ j) : r.toState = s.machine.state := by
  have hstays : r.changesState = false := by
    refine Bool.eq_false_iff.2 fun hleaves => hne ?_
    exact Option.some.inj ((ho.head_of_changesState hi hr hleaves).symm.trans
      (ho.head_of_changesState hj hr' hc))
  rw [Record.toState_eq hstays]
  exact h j hj r' hr' hc i hi r hr

/-- The active list only loses transitions while the machine stays where it is. -/
theorem Machine.Anchored.of_subset {s : Scene κ φ} (h : s.machine.Anchored) (ho : s.Orderly)
    {m' : Machine κ φ} (hg : s.machine.Grows m') (hs : m'.state = s.machine.state)
    (ha : ∀ i ∈ m'.active, i ∈ s.machine.active) : m'.Anchored := by
  intro i hi r hr hc j hj r' hr'
  rw [hs]
  exact h i (ha i hi) r (hg.record_of_lt (ho.active_lt (ha i hi)) hr) hc j (ha j hj) r'
    (hg.record_of_lt (ho.active_lt (ha j hj)) hr')

/-- A transition that starts where the machine is joins, and stays there unless it is alone. -/
theorem Machine.Anchored.join {s : Scene κ φ} (h : s.machine.Anchored) (ho : s.Orderly)
    {m' : Machine κ φ} (hg : s.machine.Grows m') (hs : m'.state = s.machine.state) {record : Record}
    (hpermit : s.machine.permit record = .ok ())
    (hrec : m'.record? s.machine.nextTransition = some record)
    (ha : m'.active = s.machine.active ++ [s.machine.nextTransition]) : m'.Anchored := by
  obtain ⟨hfrom, hstay⟩ := Machine.permit_eq_ok.1 hpermit
  intro i hi r hr hc j hj r' hr'
  rw [ha] at hi hj
  rw [hs]
  rcases List.mem_append.1 hj with hj | hj
  · have hi : i ∈ s.machine.active := by
      rcases List.mem_append.1 hi with hi | hi
      · exact hi
      · -- the new transition is to leave, so that it would be alone
        rw [List.mem_singleton.1 hi, hrec] at hr
        rw [← Option.some.inj hr] at hc
        rcases hstay with hnil | hto
        · rw [hnil] at hj; exact nomatch hj
        · simp [Record.changesState, hfrom, hto] at hc
    exact h i hi r (hg.record_of_lt (ho.active_lt hi) hr) hc j hj r' (hg.record_of_lt (ho.active_lt hj) hr')
  · rw [List.mem_singleton.1 hj, hrec] at hr'
    rw [← Option.some.inj hr']
    exact hfrom

variable {definition : Definition κ} {targetName state : String} {idText : TransitionId → String} {listeners : Nat}

/-- **While a transition that leads to another state is active, the machine stays where all active
transitions start.** -/
theorem Trail.anchored {s : Scene κ φ} (h : Trail (.start definition targetName idText state listeners) s)
    (hu : s.Unset) : s.machine.Anchored := by
  induction h with
  | start => exact fun _ hi => nomatch hi
  | ask _ _ ih => exact ih hu.of_ask
  | @make s own c ht hc ih =>
    obtain ⟨hu, hset⟩ := hu.of_make
    have hanchored := ih hu
    have ho := ht.orderly
    have hg : s.machine.Grows (s.make c).machine := c.grows
    rcases c.state_cases (m := s.machine) with ⟨hs, -, -⟩ | ⟨name, rfl⟩ | ⟨f, i, record, rfl⟩
    · -- the machine does not move, and only what is permitted there joins
      obtain ⟨new, gone, hf⟩ : ∃ new gone, Flow s.machine (s.make c).machine new gone :=
        ⟨_, _, hc.flow⟩
      cases hf with
      | stay ha _ => exact hanchored.of_subset ho hg hs fun i hi => ha ▸ hi
      | join hpermit hrec ha _ _ => exact hanchored.join ho hg hs hpermit hrec ha
      | leave _ ha _ =>
        exact hanchored.of_subset ho hg hs fun i hi => (List.mem_filter.1 (ha ▸ hi)).1
      | remove ha _ _ =>
        exact hanchored.of_subset ho hg hs fun i hi => (List.mem_filter.1 (ha ▸ hi)).1
      | fail _ ha _ _ => exact hanchored.of_subset ho hg hs fun i hi => nomatch (ha ▸ hi : i ∈ [])
    · -- the state was never set
      exact absurd rfl (hset name)
    · -- if one that is to leave stays active, this commit was beside it and moves nothing
      cases hc with
      | commit _ _ _ hrec hact _ =>
        have hsub : ∀ j ∈ (s.make (.commit f i record)).machine.active,
            j ∈ s.machine.active ∧ i ≠ j := fun j hj =>
          ⟨(List.mem_filter.1 hj).1, (bne_iff_ne.1 (List.mem_filter.1 hj).2).symm⟩
        intro j hj r hr hleaves
        obtain ⟨hj', hne⟩ := hsub j hj
        have hs : record.toState = s.machine.state :=
          hanchored.commit_eq ho hact hrec hj' (hg.record_of_lt (ho.active_lt hj') hr) hleaves hne
        have hkeep : (s.make (.commit f i record)).machine.Anchored :=
          hanchored.of_subset ho hg hs fun k hk => (hsub k hk).1
        exact hkeep j hj r hr hleaves

/-! ## What was committed -/

theorem Trail.declares {s : Scene κ φ} (h : Trail (.start definition targetName idText state listeners) s)
    {i : TransitionId} {r : Record} (hr : s.machine.record? i = some r) : definition.Declares r := by
  induction h generalizing i r with
  | start => exact nomatch hr
  | ask _ _ ih => exact ih hr
  | make ht hc ih =>
    rcases hc.record_cases hr with hr | hd
    · exact ih hr
    · rw [ht.definition_eq] at hd
      exact hd

/-- **The history holds the commits**, one entry for each. -/
theorem Trail.history_eq {s : Scene κ φ}
    (h : Trail (.start definition targetName idText state listeners) s) :
    s.machine.history.entries = s.commits.map Commit.entry := by
  induction h with
  | start => rfl
  | ask _ _ ih => rw [Scene.commits_ask]; exact ih
  | @make s own c _ hc ih =>
    rw [Scene.commits_make]
    rcases c.state_cases (m := s.machine) with ⟨-, hh, hn⟩ | ⟨name, rfl⟩ | ⟨f, i, record, rfl⟩
    · rw [hn, show (s.make c).machine.history = _ from hh, Option.toList_none, List.append_nil]
      exact ih
    · exact ih.trans (by simp [Deed.commit?])
    · rw [List.map_append, ← ih]
      rfl

/-- Listeners are only told of commits, unless the state was set. -/
theorem Trail.notified {s : Scene κ φ} (h : Trail (.start definition targetName idText state listeners) s)
    {listener : Nat} {change : StateChange} (hn : .asked (.notify listener change) ∈ s.trace)
    {event : String} (he : change.event = some event) :
    ∃ c ∈ s.commits, event = c.record.event ∧ change.source = c.source ∧
      change.target = c.record.toState := by
  induction h with
  | start => exact nomatch hn
  | @make s own c _ _ ih =>
    rcases List.mem_append.1 hn with hn | hn
    · obtain ⟨x, hx, hc⟩ := ih hn
      rw [Scene.commits_make]
      exact ⟨x, List.mem_append_left _ hx, hc⟩
    · exact nomatch List.mem_singleton.1 hn
  | @ask s request _ hr ih =>
    rw [Scene.commits_ask]
    rcases List.mem_append.1 hn with hn | hn
    · exact ih hn
    · cases List.mem_singleton.1 hn
      obtain ⟨m, f, i, record, hm, hevent, hsource, htarget⟩ := hr event he
      exact ⟨⟨record, m.state⟩, List.mem_filterMap.2 ⟨_, hm, rfl⟩, hevent, hsource, htarget⟩

/-- **Each commit is of a declared record**, and if this leads to another state, the machine was in its
from-state. -/
theorem Trail.commit_cases {s : Scene κ φ}
    (h : Trail (.start definition targetName idText state listeners) s) (hu : s.Unset) {c : Commit}
    (hc : c ∈ s.commits) :
    definition.Declares c.record ∧ (c.record.changesState = true → c.source = c.record.fromState) := by
  induction h with
  | start => exact nomatch hc
  | ask _ _ ih => rw [Scene.commits_ask] at hc; exact ih hu.of_ask hc
  | @make s own d ht hd ih =>
    rw [Scene.commits_make] at hc
    rcases List.mem_append.1 hc with hc | hc
    · exact ih hu.of_make.1 hc
    · rcases d.state_cases (m := s.machine) with ⟨-, -, hn⟩ | ⟨name, rfl⟩ | ⟨f, i, record, rfl⟩
      · rw [hn] at hc; exact nomatch hc
      · exact nomatch hc
      · cases List.mem_singleton.1 hc
        cases hd with
        | commit _ _ _ hrec hact _ =>
          refine ⟨ht.declares hrec, fun hleaves => ?_⟩
          exact (ht.anchored hu.of_make.1 i hact record hrec hleaves i hact record hrec).symm

/-- **When every committed change is declared.** The history holds the commits, listeners hear of nothing
else, and each commit is of a declared record. But one that stays in its state may have been left
behind. So all committed changes are declared exactly if those of the transitions that were left behind
are, and no commit of a transition that stays moves the machine exactly if none was left behind. -/
theorem commits_declared_iff {spec : Json} {inline : List (InlineHook κ)}
    {initialState : Option String}
    (hb : Machine.build spec inline targetName idText initialState listeners = .ok m) {w : World κ φ}
    (h : Reaches m w) (hu : w.scene.Unset) :
    w.machine.history.entries = w.scene.commits.map Commit.entry ∧
      (∀ listener change event, .asked (.notify listener change) ∈ w.trace →
        change.event = some event → ∃ c ∈ w.scene.commits, change = ⟨some event, c.source, c.record.toState⟩ ∧
          event = c.record.event) ∧
      (∀ c ∈ w.scene.commits, c.record ∈ m.definition.recordsFor c.record.event none ∧
        (c.Displaced → c.record.changesState = false)) ∧
      ((∀ e ∈ w.machine.history.entries, m.definition.HasTransition e.event e.source e.target) ↔
        ∀ c ∈ w.scene.commits, c.Displaced → c.Declared m.definition) ∧
      ((∀ c ∈ w.scene.commits, c.record.changesState = false → c.record.toState = c.source) ↔
        ∀ c ∈ w.scene.commits, ¬ c.Displaced) := by
  obtain ⟨definition, state, rfl, hnamed⟩ := Machine.build_eq_ok hb
  have ht := h.sound.trail
  have hentries := ht.history_eq
  have hdeclared : ∀ c ∈ w.scene.commits, c.record ∈ definition.recordsFor c.record.event none :=
    fun c hc => (ht.commit_cases hu hc).1.event hnamed
  have hstays : ∀ c ∈ w.scene.commits, c.Displaced → c.record.changesState = false := fun c hc hd =>
    Bool.eq_false_iff.2 fun hleaves => hd ((ht.commit_cases hu hc).2 hleaves)
  refine ⟨hentries, ?_, fun c hc => ⟨hdeclared c hc, hstays c hc⟩, ⟨?_, ?_⟩, ⟨?_, ?_⟩⟩
  · intro listener change event hn he
    obtain ⟨c, hc, hevent, hsource, htarget⟩ := ht.notified hn he
    refine ⟨c, hc, ?_, hevent⟩
    rw [← hsource, ← htarget, ← he]
  · intro hall c hc _
    -- each commit has its entry, with the state in which it was made
    have he : c.entry ∈ w.machine.history.entries := by
      rw [show w.machine.history.entries = _ from hentries]
      exact List.mem_map_of_mem hc
    exact hall c.entry he
  · intro hdisplaced e he
    rw [show w.machine.history.entries = _ from hentries] at he
    obtain ⟨c, hc, rfl⟩ := List.mem_map.1 he
    by_cases hs : c.source = c.record.fromState
    · exact ⟨c.record, hdeclared c hc, hs.symm, rfl⟩
    · exact hdisplaced c hc hs
  · intro hmove c hc hd
    -- a transition that stays commits its from-state, where the machine no longer was
    have hto := hmove c hc (hstays c hc hd)
    exact hd (hto.symm.trans (Record.toState_eq (hstays c hc hd)))
  · intro hnone c hc hstay
    have hs : c.source = c.record.fromState := Classical.not_not.1 (hnone c hc)
    rw [Record.toState_eq hstay, hs]

/-- The switch is turned on while it is being poked, and the poke turns it off again. -/
def Switch.poked : World Unit Unit :=
  ((((World.start machine).begin (.send "run" [])).begin (.send "poke" [])).begin (.poll 0)).begin
    (.poll 1)

theorem Switch.reaches_poked : Reaches machine poked :=
  (((Reaches.start.begin (.send "run" [])).begin (.send "poke" [])).begin (.poll 0)).begin (.poll 1)

/-- No event leads the switch from on to off, and yet the poke did. -/
theorem commits_declared_iff_poked :
    Switch.poked.scene.Unset ∧
      Switch.poked.machine.history.entries = [⟨"run", "off", "on", ()⟩, ⟨"poke", "on", "off", ()⟩] ∧
      ¬ (∀ e ∈ Switch.poked.machine.history.entries,
        Switch.machine.definition.HasTransition e.event e.source e.target) ∧
      ¬ (∀ c ∈ Switch.poked.scene.commits,
        c.record.changesState = false → c.record.toState = c.source) := by
  have hunset : Switch.poked.scene.Unset := by unfold Scene.Unset; decide
  obtain ⟨-, -, -, hdeclared, hmove⟩ :=
    commits_declared_iff Switch.build_spec Switch.reaches_poked hunset
  have hpoke : (⟨Switch.record "poke" "off" "off" [], "on"⟩ : Commit) ∈ Switch.poked.scene.commits :=
    List.mem_cons_of_mem _ List.mem_cons_self
  have hdisplaced : (⟨Switch.record "poke" "off" "off" [], "on"⟩ : Commit).Displaced := by
    unfold Commit.Displaced; decide
  refine ⟨hunset, rfl, fun h => ?_, fun h => hmove.1 h _ hpoke hdisplaced⟩
  exact absurd (hdeclared.1 h _ hpoke hdisplaced) (by unfold Commit.Declared; decide)

end StateEngine
