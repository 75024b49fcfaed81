import StateEngine.Proofs.Commit
import StateEngine.Proofs.Status
import StateEngine.Proofs.Story
import StateEngine.Proofs.Walk

/-!
# The history of a run

A dispatch settles when its future notes that all phases are over. If its transition was not aborted by
then, that is a commit, at once and in the same move, and there are no other commits.

* `SettlePoint`, `poll_settles`: **a poll that notes that all phases are over settles next**, and commits
  nothing else.
* `Success`, `Success.Of`: the dispatches that succeeded in a run.
* `history_successes`: **the history has one entry for each dispatch that succeeded**, in order, and in runs
  in which the state is never set it leads from the starting state to the current one.
-/

namespace StateEngine

open Program

variable {κ φ α β : Type} {m : Machine κ φ} {f : FutureId} {R : Response κ φ} {s s' : Scene κ φ}
  {w : World κ φ}

/-! ## The points at which a dispatch settles -/

/-- How a dispatch settles whose phases are over. -/
def Machine.settling (m : Machine κ φ) (f : FutureId) (i : TransitionId) (record : Record) : Change φ :=
  if m.isActive i && !m.isAborted i then .commit f i record else .release f i

/-- **What the points of a poll have to do with settling**: where all phases of a transition are noted to
be over, its future settles or is closed next, and nothing is committed but right after such a note. -/
def SettlePoint (f : FutureId) : Program κ φ α → Scene κ φ → Prop
  | .change (.note i .resolve) next, s =>
    ∃ c, next.first? (s.make (.note i .resolve)).machine = some c ∧
      (c = .closeFuture f ∨ ∃ record, c = (s.make (.note i .resolve)).machine.settling f i record)
  | .change (.commit _ i _) _, s => ∃ s₀ : Scene κ φ, s = s₀.make (.note i .resolve)
  | _, _ => True

/-- Whether a change neither notes that all phases are over nor commits. -/
def Change.isSide : Change φ → Bool
  | .note _ .resolve => false
  | .commit _ _ _ => false
  | _ => true

theorem SettlePoint.side {c : Change φ} (hc : c.isSide = true) (next : Program κ φ α) (s : Scene κ φ) :
    SettlePoint f (.change c next) s := by
  cases c with
  | note i mark =>
    cases mark with
    | resolve => exact nomatch hc
    | _ => trivial
  | commit _ _ _ => exact nomatch hc
  | _ => trivial

/-- A program that goes on after it settled. -/
theorem SettlePoint.bind {p : Program κ φ α} {g : α → Program κ φ β}
    (h : p.Each R (SettlePoint f) s) (hg : ∀ a s, (g a).Each R (SettlePoint f) s) :
    (p >>= g).Each R (SettlePoint f) s := by
  refine Each.bind (h.mono fun q s' hq => ?_)
  cases q with
  | done a => exact hg a s'
  | look _ => trivial
  | ask _ _ => trivial
  | change c next =>
    by_cases hc : c.isSide = true
    · exact SettlePoint.side hc _ s'
    · cases c with
      | commit _ _ _ => exact hq
      | note i mark =>
        cases mark with
        | resolve =>
          obtain ⟨c, hfirst, hcases⟩ := hq
          exact ⟨c, first_bind hfirst g, hcases⟩
        | _ => exact absurd rfl hc
      | _ => exact absurd rfl hc

/-- A program that makes no such change, and goes on with one that is like that. -/
theorem Program.Within.settles {Q : Change φ → Prop} {post : α → Prop} {p : Program κ φ α}
    {g : α → Program κ φ β} (h : p.Within Q post) (hQ : ∀ c, Q c → c.isSide = true)
    (hg : ∀ a s, post a → (g a).Each R (SettlePoint f) s) : (p >>= g).Each R (SettlePoint f) s := by
  have hpoints := h.each (R := R) (I := fun _ => True) (s := s) (fun _ _ _ _ => trivial)
    (fun _ _ _ _ _ _ => trivial) trivial
  refine Each.bind (hpoints.mono fun q s' hq => ?_)
  cases q with
  | done a => exact hg a s' hq.2
  | look _ => trivial
  | ask _ _ => trivial
  | change c next => exact SettlePoint.side (hQ c hq.2.1) _ s'

theorem PhaseNotes.isSide {i : TransitionId} {c : Change φ} (h : PhaseNotes i c) : c.isSide = true := by
  obtain ⟨mark, hm, rfl⟩ := h
  cases mark with
  | resolve => exact nomatch hm
  | _ => rfl

theorem notifyAll_settles (change : StateChange) (listeners : List Nat) :
    ∀ {s : Scene κ φ}, (notifyAll change listeners).Each R (SettlePoint f) s := by
  induction listeners with
  | nil => intro s; trivial
  | cons listener rest ih => intro s; exact ⟨trivial, fun _ _ _ => ih⟩

/-- Nothing is committed but where all phases were noted to be over. -/
theorem settle_settles (i : TransitionId) (record : Record) (s : Scene κ φ) :
    (settle f i record).Each R (SettlePoint f) (s.make (.note i .resolve)) := by
  refine Each.look ?_
  split
  · exact Each.make ⟨s, rfl⟩ (Each.look (notifyAll_settles _ _))
  · trivial

theorem settle_first (m : Machine κ φ) (i : TransitionId) (record : Record) :
    (settle f i record).first? m = some (m.settling f i record) := by
  unfold Machine.settling
  by_cases hc : (m.isActive i && !m.isAborted i) = true
  · rw [if_pos hc]
    exact congrArg (fun p : Program κ φ Unit => p.first? m) (if_pos hc)
  · rw [if_neg hc]
    exact congrArg (fun p : Program κ φ Unit => p.first? m) (if_neg hc)

/-- A dispatch whose phases are over. -/
theorem settles_resolve {i : TransitionId} {record : Record} {polled : Polled} :
    (make (.note i .resolve) >>= fun _ => (settle f i record >>= fun _ =>
      (pure polled : Program κ φ Polled))).Each R (SettlePoint f) s := by
  refine Each.make ⟨_, first_bind (settle_first _ i record) _, .inr ⟨record, rfl⟩⟩ ?_
  exact SettlePoint.bind (settle_settles i record s) fun _ _ => trivial

theorem rest_settles (phase : Phase) (roster : Roster φ) :
    (rest f phase roster : Program κ φ Polled).Each R (SettlePoint f) s := ⟨trivial, trivial⟩

theorem finish_settles (result : Except Rejection Unit) (polled : Polled) :
    (finish f polled result : Program κ φ Polled).Each R (SettlePoint f) s := by
  cases result <;> exact ⟨trivial, trivial⟩

/-- A walk that ends in one of these ways. -/
theorem Walk.settles {i : TransitionId} {g : Advance φ → Program κ φ Polled}
    (hwaits : ∀ phase roster, g (.waiting phase roster) = rest f phase roster)
    (hresolves : ∀ s, (make (.note i .resolve) >>= fun _ => g (.over (.ok ()))).Each R (SettlePoint f) s)
    (hrejects : ∀ r s, (g (.over (.error r))).Each R (SettlePoint f) s) :
    Walk R (fun _ => True) i (SettlePoint f) g where
  note _ _ _ _ := trivial
  amid _ _ _ _ _ _ := trivial
  change c next s _ hc := SettlePoint.side hc.isSide next s
  ask _ _ _ _ := trivial
  waits phase roster s _ _ := by
    rw [hwaits]
    exact rest_settles phase roster
  resolves s _ := hresolves s
  rejects r s _ := ⟨trivial, hrejects r _⟩

theorem recover_settles {i : TransitionId} {record : Record} {r : Rejection} :
    Walk R (fun _ => True) i (SettlePoint f) (recover (κ := κ) f i record r) :=
  .settles (fun _ _ => rfl) (fun _ => settles_resolve) fun _ _ => ⟨trivial, trivial⟩

theorem dispatchError_settles (i : TransitionId) (t : Transition) (r : Rejection) :
    (dispatchError f i t r : Program κ φ Polled).Each R (SettlePoint f) s := by
  refine (select_within (P := fun _ => False) errorEvent).settles (fun _ h => h.elim) fun result s _ => ?_
  cases result with
  | error error => exact ⟨trivial, trivial⟩
  | ok record =>
    refine Each.look (Each.make trivial ?_)
    exact recover_settles.advance .unpolled trivial

theorem conclude_settles (i : TransitionId) (t : Transition) :
    Walk R (fun _ => True) i (SettlePoint f) (conclude (κ := κ) f i t) := by
  refine .settles (fun _ _ => rfl) (fun _ => settles_resolve) fun r s => ?_
  unfold conclude
  dsimp only
  split
  · exact ⟨trivial, trivial⟩
  · exact Each.make trivial (dispatchError_settles _ t r)

theorem pollFrom_settles (i : TransitionId) (t : Transition) (purpose : Purpose) (stage : Stage φ) :
    (pollFrom f i t purpose stage : Program κ φ Polled).Each R (SettlePoint f) s := by
  cases purpose with
  | phase phase =>
    refine (advancePhase_within i t phase stage).settles (fun _ => PhaseNotes.isSide) fun advance s _ => ?_
    obtain ⟨phase, roster⟩ | result := advance
    · exact rest_settles phase roster
    · exact finish_settles result .finished
  | perform =>
    refine (Walk.settles (fun _ _ => rfl) (fun s => ?_) fun r s => ?_).advance stage trivial
    · exact Each.make ⟨_, rfl, .inl rfl⟩ (finish_settles (.ok ()) (.resolved i))
    · exact finish_settles (.error r) (.resolved i)
  | dispatch => exact (conclude_settles i t).advance stage trivial
  | recovery r => exact recover_settles.advance stage trivial

/-- **The points of a poll that have to do with settling.** -/
theorem poll_settles (f : FutureId) (s : Scene κ φ) : (poll f).Each R (SettlePoint f) s := by
  refine Each.look ?_
  split
  · trivial
  · split
    · trivial
    · split
      · trivial
      · exact Each.make trivial (SettlePoint.bind (pollFrom_settles _ _ _ _) fun _ _ => trivial)

theorem Course.settles {q : Program κ φ (Option Polled)} (h : Course m (.poll f) q s) :
    q.Each (Amid m (some f)) (SettlePoint f) s := h.each fun s _ => poll_settles f s

/-! ## Dispatches that succeeded -/

/-- A dispatch that succeeded: the scene in which all of its phases were over, its future, its transition,
and the record of that. -/
structure Success (κ φ : Type) where
  scene : Scene κ φ
  future : FutureId
  transition : TransitionId
  record : Record

namespace Success

/-- The entry of the history: from the state in which the machine was just before. -/
def entry (x : Success κ φ) : Entry Unit :=
  ⟨x.record.event, x.scene.machine.state, x.record.toState, ()⟩

/-- The scene after the commit. -/
def after (x : Success κ φ) : Scene κ φ :=
  (x.scene.make (.note x.transition .resolve)).make (.commit x.future x.transition x.record)

/-- Whether one dispatch was committed before another one succeeded. -/
def Before (x y : Success κ φ) : Prop := x.after.trace <+: y.scene.trace

/-- **Whether a dispatch succeeded in a run**: a poll of its future noted that all phases were over, while
its transition was not aborted. -/
structure Of (m : Machine κ φ) (w : World κ φ) (x : Success κ φ) : Prop where
  made : Made m w (.poll x.future) x.scene (.note x.transition .resolve)
  dispatches : x.scene.machine.Dispatches x.future x.transition
  record_eq : x.scene.machine.record? x.transition = some x.record
  counts : x.scene.machine.isAborted x.transition = false

/-- A deed that is no commit is not the last one of a success. -/
theorem after_prefix_concat {x : Success κ φ} {trace : List (Deed κ φ)} {d : Deed κ φ}
    (hd : d.commit? = none) : x.after.trace <+: trace ++ [d] ↔ x.after.trace <+: trace := by
  constructor
  · intro h
    rcases List.prefix_concat_iff.1 h with heq | hlt
    · have hlast := (List.append_inj' heq rfl).2
      rw [← List.singleton_inj.1 hlast] at hd
      exact nomatch hd
    · exact hlt
  · exact fun h => h.trans (List.prefix_append _ _)

/-- The deeds tell the success. -/
theorem eq_of_trace {x y : Success κ φ} (h : x.after.trace = y.after.trace) : x = y := by
  obtain ⟨⟨m, trace⟩, f, i, record⟩ := x
  obtain ⟨⟨m', trace'⟩, f', i', record'⟩ := y
  obtain ⟨hbefore, hlast⟩ := List.append_inj' h rfl
  obtain ⟨htrace, hnote⟩ := List.append_inj' hbefore rfl
  have hm : m = m' := (Deed.changed.inj (List.singleton_inj.1 hnote)).1
  have hc : Change.commit (φ := φ) f i record = .commit f' i' record' :=
    (Deed.changed.inj (List.singleton_inj.1 hlast)).2
  cases hm
  cases hc
  cases (htrace : trace = trace')
  rfl

end Success

theorem Machine.isAborted_note_resolve (m : Machine κ φ) (i : TransitionId) :
    (m.note i .resolve).isAborted i = m.isAborted i := by
  unfold isAborted
  rw [transition_note]
  cases m.transition? i with
  | none => rfl
  | some t =>
    simp only [Option.map_some, Option.any_some, if_true, Transition.isAborted, Transition.status_mark,
      Status.after]
    split <;> simp_all

theorem Machine.record_note (m : Machine κ φ) (id : TransitionId) (mark : Mark) (i : TransitionId) :
    (m.note id mark).record? i = m.record? i := by
  unfold record?
  rw [transition_note]
  cases m.transition? i with
  | none => rfl
  | some t =>
    simp only [Option.map_some]
    split <;> rfl

/-- Only a poll of its own future notes that all phases of a transition are over. -/
theorem Allowed.own_of_resolve {own : Option FutureId} {i : TransitionId}
    (h : Allowed m own (.note i .resolve)) : ∃ g, own = some g := by
  cases h with
  | note _ _ => exact ⟨_, rfl⟩

/-- Only a poll of its own future commits a transition. -/
theorem Allowed.own_of_commit {own : Option FutureId} {i : TransitionId} {record : Record}
    (h : Allowed m own (.commit f i record)) : own = some f := by
  cases h with
  | commit _ _ _ _ _ _ => rfl

/-- An open dispatch is not closed by its poll, unless it settles. -/
theorem Allowed.not_closeFuture {i : TransitionId} (h : Allowed m (some f) (.closeFuture f))
    (hd : m.Dispatches f i) : False := by
  obtain ⟨x, hx, hopen, -⟩ := hd
  cases h with
  | finish hp hpd =>
    cases Option.some.inj (hx.symm.trans hp)
    exact nomatch hpd.symm.trans hopen
  | refuse hf =>
    cases Option.some.inj (hx.symm.trans hf)
    exact nomatch hopen

theorem Machine.settling_eq_commit {g : FutureId} {i j : TransitionId} {record record' : Record}
    (h : m.settling g i record' = .commit f j record) : g = f := by
  unfold settling at h
  split at h
  · cases h
    rfl
  · exact nomatch h

/-- **What follows a note that all phases are over**, in the same run. -/
theorem Made.settles {i : TransitionId} (h : Made m w (.poll f) s (.note i .resolve)) :
    Trail m s ∧ ∃ c, Allowed (s.make (.note i .resolve)).machine (some f) c ∧
      ((s.make (.note i .resolve)).make c).trace <+: w.trace ∧
      (c = .closeFuture f ∨ ∃ record, c = (s.make (.note i .resolve)).machine.settling f i record) := by
  obtain ⟨next, hcourse, hnext⟩ := h.course
  obtain ⟨htrail, -, hsafe⟩ := hcourse.safe.1
  obtain ⟨c, hfirst, hcases⟩ := hcourse.settles.1
  exact ⟨htrail, c, hsafe.first hfirst, hnext c hfirst, hcases⟩

variable {definition : Definition κ} {targetName state : String} {idText : TransitionId → String} {listeners : Nat}

/-- A dispatch that is being performed has its transition active, unless this was aborted. -/
theorem Scene.Orderly.active_of_dispatches {i : TransitionId} (h : s.Orderly)
    (hd : s.machine.Dispatches f i) (ha : s.machine.isAborted i = false) : i ∈ s.machine.active := by
  refine h.mem_active.2 ⟨Machine.isOpen_iff.2 ⟨f, hd⟩, fun hi => ?_⟩
  exact nomatch (h.removed_aborted i hi).symm.trans ha

/-- **Who succeeds is committed**, at once. -/
theorem Success.Of.committed {x : Success κ φ}
    (h : x.Of (.start definition targetName idText state listeners) w) :
    Trail (.start definition targetName idText state listeners) x.scene ∧ x.after.trace <+: w.trace := by
  obtain ⟨htrail, c, hallowed, htrace, hcases⟩ := h.made.settles
  refine ⟨htrail, ?_⟩
  have hopen : (x.scene.make (.note x.transition .resolve)).machine.Dispatches x.future x.transition :=
    h.dispatches
  have hnot : (x.scene.make (.note x.transition .resolve)).machine.isAborted x.transition = false :=
    (Machine.isAborted_note_resolve _ _).trans h.counts
  -- a note changes neither who dispatches nor who is active
  have hactive : x.transition ∈ (x.scene.make (.note x.transition .resolve)).machine.active :=
    htrail.orderly.active_of_dispatches h.dispatches h.counts
  rcases hcases with rfl | ⟨record, rfl⟩
  · exact (hallowed.not_closeFuture hopen).elim
  · have hcommit : (x.scene.make (.note x.transition .resolve)).machine.settling x.future x.transition
        record = .commit x.future x.transition record := by
      unfold Machine.settling
      rw [Machine.isActive_iff.2 hactive, hnot]
      rfl
    rw [hcommit] at hallowed htrace
    cases hallowed with
    | commit _ _ _ hrec _ _ =>
      have hsame : x.scene.machine.record? x.transition = some record :=
        (Machine.record_note _ _ _ _).symm.trans hrec
      cases Option.some.inj (hsame.symm.trans h.record_eq)
      exact htrace

/-- **Who is committed has succeeded**, just before. -/
theorem Reaches.succeeded (h : Reaches m w) {i : TransitionId} {record : Record}
    (hd : (s.make (.commit f i record)).trace <+: w.trace) :
    ∃ s₀, s = s₀.make (.note i .resolve) ∧ (⟨s₀, f, i, record⟩ : Success κ φ).Of m w := by
  obtain ⟨op, hmade⟩ := h.made_in hd
  obtain ⟨next, hcourse, -⟩ := hmade.course
  obtain ⟨-, hallowed, -⟩ := hcourse.safe.1
  cases Operation.own_eq_some hallowed.own_of_commit
  obtain ⟨s₀, rfl⟩ := hcourse.settles.1
  refine ⟨s₀, rfl, ?_⟩
  -- the note was made by a poll of some future, which settled next: it is the one that committed
  have hnote : (s₀.make (.note i .resolve)).trace <+: w.trace := (List.prefix_append _ _).trans hd
  obtain ⟨op, hmade⟩ := h.made_in hnote
  obtain ⟨g, hg⟩ : ∃ g, op.own = some g := by
    obtain ⟨next, hcourse, -⟩ := hmade.course
    exact hcourse.safe.1.2.1.own_of_resolve
  cases Operation.own_eq_some hg
  obtain ⟨-, c, -, htrace, hcases⟩ := hmade.settles
  have hc : c = .commit f i record := by
    rcases prefix_concat_cases List.prefix_rfl htrace hd with ⟨-, hdeed⟩ | hlater
    · exact (Deed.changed.inj hdeed).2
    · exact absurd hlater not_concat_prefix
  have hgf : g = f := by
    rcases hcases with rfl | ⟨record', rfl⟩
    · exact nomatch hc
    · exact Machine.settling_eq_commit hc
  rw [hgf] at hmade
  cases hallowed with
  | commit hp hpd _ hrec _ haborted =>
    exact ⟨hmade, hp.dispatches hpd, (Machine.record_note _ _ _ _).symm.trans hrec,
      (Machine.isAborted_note_resolve _ _).symm.trans haborted⟩

/-! ## The history -/

/-- **The history is made of the dispatches that succeeded**, in the order in which they did. -/
theorem Reaches.successes (h : Reaches (.start definition targetName idText state listeners) w)
    (hs : Trail (.start definition targetName idText state listeners) s) (hp : s.trace <+: w.trace) :
    ∃ successes : List (Success κ φ),
      s.machine.history.entries = successes.map Success.entry ∧
        (∀ x, x ∈ successes ↔
          x.Of (.start definition targetName idText state listeners) w ∧ x.after.trace <+: s.trace) ∧
        successes.Pairwise Success.Before := by
  induction hs with
  | start =>
    refine ⟨[], rfl, fun x => ⟨fun hx => (nomatch hx), fun hx => ?_⟩, .nil⟩
    exact absurd (List.prefix_nil.1 hx.2) (List.append_ne_nil_of_right_ne_nil _ (List.cons_ne_nil _ _))
  | @ask s request _ _ ih =>
    obtain ⟨xs, hentries, hmem, hsorted⟩ := ih ((List.prefix_append _ _).trans hp)
    refine ⟨xs, hentries, fun x => (hmem x).trans (and_congr_right fun _ => ?_), hsorted⟩
    exact (Success.after_prefix_concat rfl).symm
  | @make s own c ht hc ih =>
    obtain ⟨xs, hentries, hmem, hsorted⟩ := ih ((List.prefix_append _ _).trans hp)
    have hother : Deed.commit? (.changed s.machine c) = none →
        (s.make c).machine.history = s.machine.history → ∃ successes : List (Success κ φ),
        (s.make c).machine.history.entries = successes.map Success.entry ∧
          (∀ x, x ∈ successes ↔ x.Of (.start definition targetName idText state listeners) w ∧
            x.after.trace <+: (s.make c).trace) ∧
          successes.Pairwise Success.Before := by
      intro hnone hhistory
      refine ⟨xs, by rw [hhistory, hentries], fun x => ?_, hsorted⟩
      exact (hmem x).trans (and_congr_right fun _ => (Success.after_prefix_concat hnone).symm)
    rcases c.state_cases (m := s.machine) with ⟨-, hh, hn⟩ | ⟨name, rfl⟩ | ⟨f, i, record, rfl⟩
    · exact hother hn hh
    · exact hother rfl rfl
    · -- a commit: one more dispatch has succeeded, after all others
      obtain ⟨s₀, rfl, hof⟩ := h.succeeded hp
      refine ⟨xs ++ [⟨s₀, f, i, record⟩], ?_, fun x => ⟨fun hx => ?_, fun hx => ?_⟩, ?_⟩
      · rw [List.map_append, ← hentries]
        rfl
      · rcases List.mem_append.1 hx with hx | hx
        · obtain ⟨hx, hbefore⟩ := (hmem x).1 hx
          exact ⟨hx, hbefore.trans (List.prefix_append _ _)⟩
        · rw [List.mem_singleton.1 hx]
          exact ⟨hof, List.prefix_rfl⟩
      · obtain ⟨hx, hbefore⟩ := hx
        rcases List.prefix_concat_iff.1 hbefore with heq | hlt
        · have hsame : x = ⟨s₀, f, i, record⟩ := Success.eq_of_trace heq
          exact List.mem_append_right _ (List.mem_singleton.2 hsame)
        · exact List.mem_append_left _ ((hmem x).2 ⟨hx, hlt⟩)
      · refine List.pairwise_append.2 ⟨hsorted, List.pairwise_singleton _ _, fun x hx y hy => ?_⟩
        rw [List.mem_singleton.1 hy]
        exact (Success.after_prefix_concat rfl).1 ((hmem x).1 hx).2

/-- A transition is committed once. -/
theorem Success.Of.distinct {x y : Success κ φ}
    (hy : y.Of (.start definition targetName idText state listeners) w) (h : x.Before y) :
    x.transition ≠ y.transition := by
  intro heq
  have hmem : .changed (x.scene.make (.note x.transition .resolve)).machine
      (.commit x.future x.transition x.record) ∈ y.scene.trace :=
    h.subset (List.mem_append_right _ List.mem_cons_self)
  have honly := (hy.committed.1.committed hmem (beq_self_eq_true x.transition)).2
  exact nomatch honly.2 y.future (heq ▸ hy.dispatches)

/-! ## What leaves no trace in the history -/

/-- The transitions whose dispatches a deed does away with: it aborts them, or they reject. A dispatch that
is given up is aborted. -/
def Deed.discards : Deed κ φ → List TransitionId
  | .changed m (.fail f id rejection) => id :: (Change.fail (φ := φ) f id rejection).aborts m
  | .changed m c => c.aborts m
  | .asked _ => []

/-- Who is done away with was dispatched or active, and is not active any more. -/
theorem Allowed.discards {own : Option FutureId} {c : Change φ} (h : Allowed m own c) {i : TransitionId}
    (hi : i ∈ Deed.discards (.changed m c)) :
    (i ∈ m.active ∨ ∃ f, m.Dispatches f i) ∧ i ∉ (c.apply m).active := by
  cases h with
  | fail hp hpd _ _ _ =>
    refine ⟨?_, by rw [Change.apply, Machine.fail_eq]; exact List.not_mem_nil⟩
    rcases List.mem_cons.1 hi with rfl | hi
    · exact .inr ⟨_, hp.dispatches hpd⟩
    · exact .inl (List.mem_filter.1 hi).1
  | failDispatch hp _ _ _ =>
    refine ⟨?_, by rw [Change.apply, Machine.fail_eq]; exact List.not_mem_nil⟩
    rcases List.mem_cons.1 hi with rfl | hi
    · exact .inr ⟨_, hp.dispatches rfl⟩
    · exact .inl (List.mem_filter.1 hi).1
  | abortActive id =>
    obtain ⟨rfl, hactive⟩ := Change.mem_aborts_abortActive.1 hi
    refine ⟨.inl hactive, ?_⟩
    rw [Change.apply, Machine.active_abortActive, List.mem_filter]
    simp
  | abortAll => exact ⟨.inl hi, by rw [Change.apply, Machine.abortAll_eq]; exact List.not_mem_nil⟩
  | drop f =>
    cases hf : m.future? f with
    | none =>
      have hnone : i ∉ (Change.dropFuture f).aborts m := by
        rw [Change.aborts, hf]
        simp
      exact absurd hi hnone
    | some x =>
      obtain ⟨⟨hb, hd⟩, rfl, hactive⟩ := (Change.mem_aborts_dropFuture hf).1 hi
      refine ⟨.inl hactive, ?_⟩
      have hdrop : m.dropFuture f = (m.closeFuture f).abortActive x.transition := by
        simp [Machine.dropFuture, hf, hb, hd]
      rw [Change.apply, hdrop, Machine.active_abortActive, List.mem_filter]
      simp
  | _ => exact absurd hi List.not_mem_nil

/-- A deed of a run was allowed in the scene in which it was made. -/
theorem Trail.of_make {c : Change φ} (h : Trail m s') (hd : (s.make c).trace <+: s'.trace) :
    Trail m s ∧ ∃ own, Allowed s.machine own c := by
  obtain ⟨s₂, hs₂, htrace⟩ := h.of_prefix hd
  cases hs₂ with
  | start => exact absurd htrace.symm (List.append_ne_nil_of_right_ne_nil _ (List.cons_ne_nil _ _))
  | ask _ _ => exact nomatch (List.append_inj' htrace rfl).2
  | @make s₁ own c₁ ht hc =>
    obtain ⟨hbefore, hlast⟩ := List.append_inj' htrace rfl
    obtain ⟨machine, trace⟩ := s
    obtain ⟨machine₁, trace₁⟩ := s₁
    obtain ⟨hm, rfl⟩ := Deed.changed.inj (List.singleton_inj.1 hlast)
    cases (hm : machine₁ = machine)
    cases (hbefore : trace₁ = trace)
    exact ⟨ht, own, hc⟩

/-- **A dispatch that was done away with is never committed**, neither before nor after. -/
theorem Trail.discarded (h : Trail (.start definition targetName idText state listeners) s)
    {d : Deed κ φ} (hd : d ∈ s.trace) {i : TransitionId} (hi : i ∈ d.discards) :
    ∀ d ∈ s.trace, d.commits i = false := by
  obtain ⟨before, after, htrace⟩ := List.append_of_mem hd
  cases d with
  | asked request => exact absurd hi List.not_mem_nil
  | changed m₁ c =>
    have hp : (Scene.make ⟨m₁, before⟩ c).trace <+: s.trace :=
      ⟨after, by rw [htrace, Scene.make, List.append_assoc]; rfl⟩
    obtain ⟨ht, own, hc⟩ := h.of_make hp
    obtain ⟨hopen, hgone⟩ := hc.discards hi
    have hlt : i < m₁.transitions.length := by
      rcases hopen with hactive | ⟨f, hf⟩
      · exact ht.orderly.active_lt hactive
      · exact ht.orderly.sent_lt i (ht.orderly.open_sent f i hf)
    have hinactive : (Scene.make ⟨m₁, before⟩ c).machine.Inactive i :=
      ⟨Nat.lt_of_lt_of_le hlt c.grows.length_le, hgone⟩
    refine (ht.make hc).uncommitted h hp hinactive fun d hd => ?_
    rcases List.mem_append.1 hd with hold | hnew
    · -- what was committed is neither active nor dispatched
      refine Bool.eq_false_iff.2 fun hcommits => ?_
      obtain ⟨⟨-, hnot⟩, -, honly⟩ := ht.committed hold hcommits
      rcases hopen with hactive | ⟨f, hf⟩
      · exact hnot hactive
      · exact absurd (honly f hf) (Option.some_ne_none f).symm
    · rw [List.mem_singleton.1 hnew]
      cases c with
      | commit f j record => exact absurd hi List.not_mem_nil
      | _ => rfl

/-- **The history only grows**, at its end. -/
theorem Trail.history_grows (hs : Trail (.start definition targetName idText state listeners) s)
    (hs' : Trail (.start definition targetName idText state listeners) s') (hp : s.trace <+: s'.trace) :
    s.machine.history.entries <+: s'.machine.history.entries := by
  rw [hs.history_eq, hs'.history_eq]
  exact (hp.filterMap _).map _

/-! ## Chains -/

/-- **In a run in which the state is never set, the history is a chain**: the first source is the starting
state, each source is the target before it, and the last target is the current state. -/
theorem Trail.chain (h : Trail (.start definition targetName idText state listeners) s) (hu : s.Unset) :
    s.machine.history.entries.map (·.source) ++ [s.machine.state] =
      state :: s.machine.history.entries.map (·.target) := by
  induction h with
  | start => rfl
  | ask _ _ ih => exact ih hu.of_ask
  | @make s own c _ _ ih =>
    obtain ⟨hunset, hset⟩ := hu.of_make
    have hchain := ih hunset
    rcases c.state_cases (m := s.machine) with ⟨hs, hh, -⟩ | ⟨name, rfl⟩ | ⟨f, i, record, rfl⟩
    · have hstate : (s.make c).machine.state = s.machine.state := hs
      have hhistory : (s.make c).machine.history = s.machine.history := hh
      rw [hstate, hhistory]
      exact hchain
    · exact absurd rfl (hset name)
    · have hentries : (s.make (.commit f i record)).machine.history.entries =
          s.machine.history.entries ++ [⟨record.event, s.machine.state, record.toState, ()⟩] := rfl
      have hstate : (s.make (.commit f i record)).machine.state = record.toState := rfl
      rw [hentries, hstate, List.map_append, List.map_append, ← List.cons_append, ← hchain]
      rfl

theorem Scene.Unset.of_prefix (h : s'.Unset) (hp : s.trace <+: s'.trace) : s.Unset :=
  fun d hd => h d (hp.subset hd)

/-- **What the history says of a run**: it has one entry for each dispatch that succeeded, and none for any
other. -/
structure Chronicle (m : Machine κ φ) (w : World κ φ) (successes : List (Success κ φ)) : Prop where
  entries_eq : w.machine.history.entries = successes.map Success.entry
  mem_iff : ∀ x, x ∈ successes ↔ x.Of m w
  sorted : successes.Pairwise Success.Before
  once : successes.Pairwise fun x y => x.transition ≠ y.transition
  none_discarded : ∀ d ∈ w.trace, ∀ i ∈ d.discards, ∀ x ∈ successes, x.transition ≠ i

/-- **Whether the history leads from the starting state to the current one**, and through all states in
which the machine was in between. -/
structure Linked (m : Machine κ φ) (w : World κ φ) : Prop where
  links : w.machine.history.entries.map (·.source) ++ [w.machine.state] =
    m.state :: w.machine.history.entries.map (·.target)
  states : ∀ s, Trail m s → s.trace <+: w.trace →
    (m.state :: w.machine.history.entries.map (·.target))[s.machine.history.length]? =
      some s.machine.state
  path_nil : w.machine.history.entries = [] → w.machine.history.path = []
  path_eq : w.machine.history.entries ≠ [] →
    w.machine.history.path = m.state :: w.machine.history.entries.map (·.target)

/-- The path of a history that is a chain. -/
theorem History.path_of_links {τ : Type} {history : History τ} {first last : String}
    (h : history.entries.map (·.source) ++ [last] = first :: history.entries.map (·.target))
    (hne : history.entries ≠ []) : history.path = first :: history.entries.map (·.target) := by
  unfold path
  cases hentries : history.entries with
  | nil => exact absurd hentries hne
  | cons e rest =>
    rw [hentries] at h
    have hsource : e.source = first := (List.cons.inj h).1
    rw [List.head?_cons, Option.map_some, hsource]
    rfl

/-- **In a run in which the state is never set**, the history links all states of the machine. -/
theorem Trail.linked (h : Trail (.start definition targetName idText state listeners) w.scene)
    (hu : w.scene.Unset) : Linked (.start definition targetName idText state listeners) w where
  links := h.chain hu
  states s hs hp := by
    have hchain := hs.chain (hu.of_prefix hp)
    obtain ⟨later, hlater⟩ := hs.history_grows h hp
    -- up to its length, the chain is the one that there was then
    have hentries : w.machine.history.entries = s.machine.history.entries ++ later := hlater.symm
    have hstate : (Machine.start definition targetName idText state listeners : Machine κ φ).state = state := rfl
    rw [hstate, hentries, List.map_append, ← List.cons_append, ← hchain, List.append_assoc]
    have hlength : s.machine.history.length = (s.machine.history.entries.map (·.source)).length := by
      rw [List.length_map]
      rfl
    rw [hlength, List.getElem?_append_right (Nat.le_refl _), Nat.sub_self]
    rfl
  path_nil hnil := by
    rw [History.path, hnil]
    rfl
  path_eq hne := History.path_of_links (h.chain hu) hne

/-- **No commit is lost or made twice.** The history only grows at its end, and at each point of each run it
has one entry for each dispatch that has succeeded, in the order in which they did, with the state in which
the machine was just before. In runs in which the state was never set it is a chain from the starting state
to the current one, and its path is the states that the machine went through. -/
theorem history_successes {spec : Json} {inline : List (InlineHook κ)} {initialState : Option String}
    (hb : Machine.build spec inline targetName idText initialState listeners = .ok m) (h : Reaches m w) :
    (∀ u, Reaches m u → u.trace <+: w.trace →
        u.machine.history.entries <+: w.machine.history.entries) ∧
      (∃ successes, Chronicle m w successes) ∧ (w.scene.Unset → Linked m w) := by
  obtain ⟨definition, state, rfl, -⟩ := Machine.build_eq_ok hb
  have ht := h.sound.trail
  refine ⟨fun u hu hp => hu.sound.trail.history_grows ht hp, ?_, fun hu => ht.linked hu⟩
  obtain ⟨successes, hentries, hmem, hsorted⟩ := h.successes ht List.prefix_rfl
  -- who succeeded was committed by now
  have hiff : ∀ x, x ∈ successes ↔ x.Of (.start definition targetName idText state listeners) w :=
    fun x => (hmem x).trans (and_iff_left_of_imp fun hx => hx.committed.2)
  refine ⟨successes, hentries, hiff, hsorted, ?_, fun d hd i hi x hx => ?_⟩
  · refine hsorted.imp_of_mem fun hx hy hbefore => ?_
    exact ((hiff _).1 hy).distinct hbefore
  · rintro rfl
    have hcommit : .changed (x.scene.make (.note x.transition .resolve)).machine
        (.commit x.future x.transition x.record) ∈ w.trace :=
      List.IsPrefix.subset ((hiff x).1 hx).committed.2 (List.mem_append_right _ List.mem_cons_self)
    have hnever := ht.discarded hd hi _ hcommit
    exact nomatch (beq_self_eq_true x.transition).symm.trans hnever

/-- The switch was turned on while it was being poked, and then the poke turned it off again. -/
theorem history_successes_poked :
    (∃ successes : List (Success Unit Unit), Chronicle Switch.machine Switch.poked successes ∧
        successes.map Success.entry = [⟨"run", "off", "on", ()⟩, ⟨"poke", "on", "off", ()⟩]) ∧
      Switch.poked.machine.history.path = ["off", "on", "off"] := by
  obtain ⟨-, ⟨successes, hchronicle⟩, hlinked⟩ :=
    history_successes Switch.build_spec Switch.reaches_poked
  refine ⟨⟨successes, hchronicle, ?_⟩, ?_⟩
  · rw [← hchronicle.entries_eq]
    rfl
  · exact (hlinked (by unfold Scene.Unset; decide)).path_eq (List.cons_ne_nil _ _)

end StateEngine
