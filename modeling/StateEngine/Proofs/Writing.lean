import StateEngine.Proofs.Performance

/-!
# Writing a book

Performing a transition writes its book mark by mark, and stops at every request. Whoever looks into the book
there finds it in one of a few conditions, for each mark is only written into a book that it fits. All that
others can do to the book meanwhile is to abort the transition.

* `Progress.Unbegun`, `Progress.Underway`, `Progress.Done`, `Progress.Failed`: the conditions of a book, each of
  which an abort leaves as it is.
* `Mark.Fits`: the books that a mark may be written into, and `Mark.Fits.proper`: it leaves one of the four.
* `Program.Writes`: what a program makes of a book, whatever it is answered.
* `advance_writes`: **performing a transition only writes marks that fit**, and leaves the book as the result
  says.
-/

namespace StateEngine

variable {κ φ α β : Type}

/-! ## Conditions of a book -/

namespace Progress

/-- Nothing was written into the book, unless the transition was aborted. -/
def Unbegun (p : Progress) : Prop := p = .fresh ∨ p = Progress.fresh.abort

/-- Phases are running. -/
structure Underway (p : Progress) : Prop where
  status : p.status = .resolving ∨ p.status = .aborted
  isResolving : p.isResolving = some true
  isRejected : p.isRejected = none
  rejection : p.rejection = none

/-- Every phase is over, and no callback failed. -/
structure Done (p : Progress) : Prop where
  status : p.status = .resolved ∨ p.status = .aborted
  isResolving : p.isResolving = some false
  isRejected : p.isRejected = some false
  rejection : p.rejection = none
  rejections : p.rejections = []

/-- A phase failed, with a rejection. -/
structure Failed (p : Progress) (r : Rejection) : Prop where
  status : p.status = .rejected ∨ p.status = .aborted
  isResolving : p.isResolving = some false
  isRejected : p.isRejected = some true
  rejection : p.rejection = some r

/-- The transition is not over. -/
def Open (p : Progress) : Prop := p.Unbegun ∨ p.Underway

/-- **The conditions that a book can be in.** -/
def Proper (p : Progress) : Prop := p.Open ∨ p.Done ∨ ∃ r, p.Failed r

/-- What others make of a book: they leave it alone, or abort its transition. -/
def Beside (p p' : Progress) : Prop := p' = p ∨ p' = p.abort

variable {p p' p'' : Progress} {r : Rejection}

theorem Beside.refl (p : Progress) : p.Beside p := .inl rfl

/-- To abort twice is to abort once. -/
theorem Beside.trans (h : p.Beside p') (h' : p'.Beside p'') : p.Beside p'' := by
  rcases h with rfl | rfl
  · exact h'
  · rcases h' with rfl | rfl
    · exact .inr rfl
    · exact .inr rfl

theorem Beside.rejections_eq (h : p.Beside p') : p'.rejections = p.rejections := by
  rcases h with rfl | rfl
  · rfl
  · rfl

/-! An abort leaves a book in its condition. -/

theorem Unbegun.beside (h : p.Unbegun) (hp : p.Beside p') : p'.Unbegun := by
  rcases hp with rfl | rfl
  · exact h
  · rcases h with rfl | rfl
    · exact .inr rfl
    · exact .inr rfl

theorem Underway.beside (h : p.Underway) (hp : p.Beside p') : p'.Underway := by
  rcases hp with rfl | rfl
  · exact h
  · exact ⟨.inr rfl, h.isResolving, h.isRejected, h.rejection⟩

theorem Done.beside (h : p.Done) (hp : p.Beside p') : p'.Done := by
  rcases hp with rfl | rfl
  · exact h
  · exact ⟨.inr rfl, h.isResolving, h.isRejected, h.rejection, h.rejections⟩

theorem Failed.beside (h : p.Failed r) (hp : p.Beside p') : p'.Failed r := by
  rcases hp with rfl | rfl
  · exact h
  · exact ⟨.inr rfl, h.isResolving, h.isRejected, h.rejection⟩

theorem Open.beside (h : p.Open) (hp : p.Beside p') : p'.Open :=
  h.imp (·.beside hp) (·.beside hp)

theorem Proper.beside (h : p.Proper) (hp : p.Beside p') : p'.Proper :=
  h.imp (·.beside hp) (Or.imp (·.beside hp) fun ⟨r, hr⟩ => ⟨r, hr.beside hp⟩)

theorem Unbegun.rejections (h : p.Unbegun) : p.rejections = [] := by
  rcases h with rfl | rfl
  · rfl
  · rfl

theorem Unbegun.status (h : p.Unbegun) : p.status = .pending ∨ p.status = .aborted := by
  rcases h with rfl | rfl
  · exact .inl rfl
  · exact .inr rfl

theorem Open.status (h : p.Open) : p.status = .pending ∨ p.status = .resolving ∨ p.status = .aborted := by
  rcases h with h | h
  · exact h.status.imp_right .inr
  · exact .inr h.status

/-- A phase starts. -/
theorem Open.begin (h : p.Open) : p.begin.Underway := by
  rcases h with (rfl | rfl) | h
  · exact ⟨.inl rfl, rfl, rfl, rfl⟩
  · exact ⟨.inr rfl, rfl, rfl, rfl⟩
  · refine ⟨?_, rfl, h.isRejected, h.rejection⟩
    rcases h.status with hs | hs
    · exact .inl (by simp [Progress.begin, hs])
    · exact .inr (by simp [Progress.begin, hs])

theorem Underway.settle (h : p.Underway) (phase : Phase) (id : String) (outcome : Outcome) :
    (p.settle phase id outcome).Underway := by
  cases outcome with
  | ok value => exact ⟨h.status, h.isResolving, h.isRejected, h.rejection⟩
  | error reason => exact ⟨h.status, h.isResolving, h.isRejected, h.rejection⟩

theorem Underway.resolve (h : p.Underway) (hr : p.rejections = []) : p.resolve.Done := by
  refine ⟨?_, rfl, rfl, h.rejection, hr⟩
  rcases h.status with hs | hs
  · exact .inl (by simp [Progress.resolve, hs])
  · exact .inr (by simp [Progress.resolve, hs])

theorem Open.reject (h : p.Open) (r : Rejection) : (p.reject r).Failed r := by
  refine ⟨?_, rfl, rfl, rfl⟩
  rcases h.status with hs | hs | hs
  · exact .inl (by simp [Progress.reject, hs])
  · exact .inl (by simp [Progress.reject, hs])
  · exact .inr (by simp [Progress.reject, hs])

/-! The status tells the condition, unless it is that of an abort. -/

theorem Proper.pending (h : p.Proper) (hs : p.status = .pending) : p = .fresh := by
  rcases h with ((rfl | rfl) | h) | h | ⟨r, h⟩
  · rfl
  · exact nomatch hs
  · have hstatus := h.status
    simp [hs] at hstatus
  · have hstatus := h.status
    simp [hs] at hstatus
  · have hstatus := h.status
    simp [hs] at hstatus

theorem Proper.resolving (h : p.Proper) (hs : p.status = .resolving) : p.Underway := by
  rcases h with (h | h) | h | ⟨r, h⟩
  · have hstatus := h.status
    simp [hs] at hstatus
  · exact h
  · have hstatus := h.status
    simp [hs] at hstatus
  · have hstatus := h.status
    simp [hs] at hstatus

theorem Proper.resolved (h : p.Proper) (hs : p.status = .resolved) : p.Done := by
  rcases h with h | h | ⟨r, h⟩
  · have hstatus := h.status
    simp [hs] at hstatus
  · exact h
  · have hstatus := h.status
    simp [hs] at hstatus

theorem Proper.rejected (h : p.Proper) (hs : p.status = .rejected) : ∃ r, p.Failed r := by
  rcases h with h | h | h
  · have hstatus := h.status
    simp [hs] at hstatus
  · have hstatus := h.status
    simp [hs] at hstatus
  · exact h

end Progress

/-- **Whether a mark may be written into a book.** A callback settles in a phase that has started, and all
phases are over only if none of their callbacks failed. -/
def Mark.Fits (p : Progress) : Mark → Prop
  | .begin => p.Open
  | .settle _ _ _ => p.Underway
  | .resolve => p.Underway ∧ p.rejections = []
  | .reject _ => p.Open
  | .abort => False

theorem Mark.Fits.proper {p : Progress} {mark : Mark} (h : mark.Fits p) : (p.mark mark).Proper := by
  cases mark with
  | begin => exact .inl (.inr (Progress.Open.begin h))
  | settle phase id outcome => exact .inl (.inr (Progress.Underway.settle h phase id outcome))
  | resolve => exact .inr (.inl (Progress.Underway.resolve h.1 h.2))
  | reject r => exact .inr (.inr ⟨r, Progress.Open.reject h r⟩)
  | abort => exact h.elim

theorem Mark.Fits.ne_abort {p : Progress} {mark : Mark} (h : mark.Fits p) : mark ≠ .abort := by
  rintro rfl
  exact h

/-! ## Programs -/

/-- **Whether a program only writes marks into a book that fit**, and what it makes of the book. Where it asks,
the transition is not over. -/
def Program.Writes (id : TransitionId) (post : α → Progress → Prop) : Program κ φ α → Progress → Prop
  | .done a, p => post a p
  | .look next, p => ∀ m, (next m).Writes id post p
  | .change c next, p => ∃ mark, c = .note id mark ∧ mark.Fits p ∧ next.Writes id post (p.mark mark)
  | .ask _ resume, p => p.Open ∧ ∀ reply p', p.Beside p' → (resume reply).Writes id post p'

namespace Program

variable {id : TransitionId} {p : Progress}

theorem Writes.mono {post post' : α → Progress → Prop} (hpost : ∀ a p, post a p → post' a p)
    {q : Program κ φ α} : ∀ {p : Progress}, q.Writes id post p → q.Writes id post' p := by
  induction q with
  | done a => intro p h; exact hpost a p h
  | look next ih => intro p h; exact fun m => ih m (h m)
  | change c next ih =>
    intro p h
    obtain ⟨mark, hc, hfits, hnext⟩ := h
    exact ⟨mark, hc, hfits, ih hnext⟩
  | ask request resume ih => intro p h; exact ⟨h.1, fun reply p' hp => ih reply (h.2 reply p' hp)⟩

theorem Writes.pure {post : α → Progress → Prop} {a : α} (h : post a p) :
    (Pure.pure a : Program κ φ α).Writes id post p := h

theorem Writes.look {post : α → Progress → Prop} {f : Machine κ φ → Program κ φ α}
    (h : ∀ m, (f m).Writes id post p) : (StateEngine.look >>= f).Writes id post p := h

theorem Writes.note (mark : Mark) (h : mark.Fits p) :
    (make (.note id mark) : Program κ φ Unit).Writes id (fun _ p' => p' = p.mark mark) p :=
  ⟨mark, rfl, h, rfl⟩

theorem Writes.bind {post : β → Progress → Prop} {f : α → Program κ φ β} {q : Program κ φ α} :
    ∀ {p : Progress}, q.Writes id (fun a p' => (f a).Writes id post p') p → (q >>= f).Writes id post p := by
  induction q with
  | done a => intro p h; exact h
  | look next ih => intro p h; exact fun m => ih m (h m)
  | change c next ih =>
    intro p h
    obtain ⟨mark, hc, hfits, hnext⟩ := h
    exact ⟨mark, hc, hfits, ih hnext⟩
  | ask request resume ih => intro p h; exact ⟨h.1, fun reply p' hp => ih reply (h.2 reply p' hp)⟩

/-- What a program makes of a book that changes nothing. -/
theorem Within.writes {post : α → Prop} {q : Program κ φ α} (h : q.Within (fun _ => False) post) :
    ∀ {p : Progress}, p.Open → q.Writes id (fun a p' => post a ∧ p.Beside p') p := by
  induction q with
  | done a => intro p _; exact ⟨h, .refl p⟩
  | look next ih => intro p hp; exact fun m => ih m (h m) hp
  | change c next _ => exact h.1.elim
  | ask request resume ih =>
    intro p hp
    refine ⟨hp, fun reply p' hbeside => ?_⟩
    exact (ih reply (h.2 reply) (hp.beside hbeside)).mono fun a p'' ha => ⟨ha.1, hbeside.trans ha.2⟩

end Program

open Program

/-! ## Calls -/

/-- Whether a call has settled with a failure. -/
def Call.Fails (call : Call φ) : Prop := ∃ reason, call.standing = .noted (.error reason)

/-- Whether failures in a book are told by the calls. -/
def Told (calls : List (Call φ)) (p : Progress) : Prop := p.rejections ≠ [] → ∃ call ∈ calls, call.Fails

theorem Told.beside {calls : List (Call φ)} {p p' : Progress} (h : Told calls p) (hp : p.Beside p') :
    Told calls p' := by
  intro hne
  rw [hp.rejections_eq] at hne
  exact h hne

theorem Told.of_nil {p : Progress} (h : p.rejections = []) (calls : List (Call φ)) : Told calls p :=
  fun hne => absurd h hne

variable {t : TransitionId} {phase : Phase} {p : Progress} {before after : List (Call φ)}

/-- A call that has not settled tells of no failure. -/
theorem Told.of_unsettled {call : Call φ} (h : Told (before ++ call :: after) p) (hc : ¬ call.Fails) :
    Told (before ++ after) p := by
  intro hne
  obtain ⟨other, hmem, hfails⟩ := h hne
  refine ⟨other, ?_, hfails⟩
  rcases List.mem_append.1 hmem with hmem | hmem
  · exact List.mem_append_left _ hmem
  · rcases List.mem_cons.1 hmem with rfl | hmem
    · exact absurd hfails hc
    · exact List.mem_append_right _ hmem

theorem Told.insert (h : Told (before ++ after) p) (call : Call φ) : Told (before ++ call :: after) p := by
  intro hne
  obtain ⟨other, hmem, hfails⟩ := h hne
  refine ⟨other, ?_, hfails⟩
  rcases List.mem_append.1 hmem with hmem | hmem
  · exact List.mem_append_left _ hmem
  · exact List.mem_append_right _ (List.mem_cons_of_mem call hmem)

/-- What the book is like while the calls of a phase are polled. -/
def Progress.Runs (p : Progress) (calls : List (Call φ)) : Prop := p.Underway ∧ Told calls p

theorem Progress.Runs.beside {calls : List (Call φ)} {p p' : Progress} (h : p.Runs calls) (hp : p.Beside p') :
    p'.Runs calls := ⟨h.1.beside hp, h.2.beside hp⟩

theorem noteOutcome_writes (h : p.Runs (before ++ after)) (id : String) (outcome : Outcome) :
    (noteOutcome t phase id outcome : Program κ φ _).Writes t
      (fun call p' => p'.Runs (before ++ call :: after)) p := by
  refine Writes.bind ((Writes.note (.settle phase id outcome) h.1).mono ?_)
  rintro - - rfl
  refine ⟨h.1.settle phase id outcome, ?_⟩
  cases outcome with
  | ok value => exact Told.insert (p := p.settle phase id (.ok value)) h.2 _
  | error reason => exact fun _ => ⟨_, List.mem_append_right _ List.mem_cons_self, reason, rfl⟩

theorem pollPending_writes (h : p.Runs (before ++ after)) (id : String) (computation : φ) :
    (pollPending t phase id computation : Program κ φ _).Writes t
      (fun call p' => p'.Runs (before ++ call :: after)) p := by
  refine Writes.bind ⟨.inr h.1, fun reply p' hp => ?_⟩
  have h' := h.beside hp
  cases reply with
  | yielding computation => exact ⟨h'.1, h'.2.insert _⟩
  | sleeping computation => exact ⟨h'.1, h'.2.insert _⟩
  | settled outcome => exact noteOutcome_writes h' id outcome

/-- One call among the others. -/
theorem pollCall_writes {call : Call φ} (h : p.Runs (before ++ call :: after)) :
    (pollCall t phase call : Program κ φ _).Writes t (fun call p' => p'.Runs (before ++ call :: after)) p := by
  have hother : (∀ outcome, call.standing ≠ .noted outcome) → p.Runs (before ++ after) := by
    refine fun hs => ⟨h.1, h.2.of_unsettled ?_⟩
    rintro ⟨reason, hr⟩
    exact hs _ hr
  unfold pollCall
  split
  · exact h
  · rename_i value hs
    exact noteOutcome_writes (hother fun _ e => nomatch hs.symm.trans e) call.id _
  · rename_i reason hs
    exact noteOutcome_writes (hother fun _ e => nomatch hs.symm.trans e) call.id _
  · rename_i computation hs
    exact pollPending_writes (hother fun _ e => nomatch hs.symm.trans e) call.id _
  · rename_i computation hs
    exact pollPending_writes (hother fun _ e => nomatch hs.symm.trans e) call.id _

theorem pollAll_writes (calls : List (Call φ)) :
    ∀ (before : List (Call φ)) {p : Progress}, p.Runs (before ++ calls) →
      (pollAll t phase calls : Program κ φ _).Writes t (fun calls p' => p'.Runs (before ++ calls)) p := by
  -- the calls that were polled join those that stand before
  induction calls with
  | nil => intro before p h; exact h
  | cons call rest ih =>
    intro before p h
    refine Writes.bind ((pollCall_writes h).mono fun polled p' h' => ?_)
    rw [List.append_cons] at h'
    refine Writes.bind ((ih _ h').mono fun others p'' h'' => ?_)
    rw [← List.append_cons] at h''
    exact h''

/-- The call that has its turn, among the others. -/
theorem Roster.exists_next {roster roster' : Roster φ} {wakeUps position : Nat} {call : Call φ}
    (h : (roster.heed wakeUps).next? = some (position, call, roster')) :
    ∃ before after, roster.calls = before ++ call :: after ∧
      ∀ polled, (roster'.record position polled).calls = before ++ polled :: after := by
  obtain ⟨hcall, hcalls⟩ := Roster.next_eq_some h
  rw [Roster.calls_heed] at hcall hcalls
  obtain ⟨hlt, hcall⟩ := List.getElem?_eq_some_iff.1 hcall
  refine ⟨roster.calls.take position, roster.calls.drop (position + 1), ?_, fun polled => ?_⟩
  · rw [← hcall, List.getElem_cons_drop, List.take_append_drop]
  · rw [Roster.calls_record, hcalls, List.set_eq_take_append_cons_drop, if_pos hlt]

theorem pollTurns_writes (left turns yields : Nat) (roster : Roster φ) :
    ∀ {p : Progress}, p.Runs roster.calls →
      (pollTurns t phase left turns yields roster : Program κ φ _).Writes t
        (fun roster p' => p'.Runs roster.calls) p := by
  induction left, turns, yields, roster using pollTurns.induct with
  | case1 turns yields roster => intro p h; rw [pollTurns]; exact h
  | case2 left yields roster hl =>
    intro p h
    rw [pollTurns]
    · exact h
    · exact hl
  | case3 left turns roster hl ht =>
    intro p h
    rw [pollTurns]
    · exact h
    · exact hl
    · exact ht
  | case4 roster left turns yields ih1 ih2 ih3 =>
    intro p h
    rw [pollTurns]
    refine Writes.look fun m => ?_
    cases hn : (roster.heed m.wakeUps).next? with
    | none => exact h
    | some found =>
      obtain ⟨position, call, roster'⟩ := found
      obtain ⟨before, after, hcalls, hrecord⟩ := Roster.exists_next hn
      rw [hcalls] at h
      refine Writes.bind ((pollCall_writes h).mono fun polled p' h' => ?_)
      rw [← hrecord polled] at h'
      cases hs : polled.standing with
      | noted outcome => exact ih1 position roster' polled h'
      | due settlement => exact ih2 position roster' polled h'
      | asleep computation => exact ih3 position roster' polled h'

theorem pollRoster_writes {roster : Roster φ} (h : p.Runs roster.calls) :
    (pollRoster t phase roster : Program κ φ _).Writes t (fun roster p' => p'.Runs roster.calls) p := by
  unfold pollRoster
  split
  · exact pollTurns_writes _ _ _ roster h
  · exact Writes.bind ((pollAll_writes roster.calls [] h).mono fun calls p' h' => h')

/-! ## Phases -/

/-- What a phase makes of the book. -/
def Advance.Passes (advance : Advance φ) (p : Progress) : Prop :=
  match advance with
  | .waiting _ roster => p.Runs roster.calls
  | .over (.ok ()) => p.Underway ∧ p.rejections = []
  | .over (.error _) => p.Open

/-- What performing a transition makes of its book. -/
def Advance.Leaves (advance : Advance φ) (p : Progress) : Prop :=
  match advance with
  | .waiting _ roster => p.Runs roster.calls
  | .over (.ok ()) => p.Done
  | .over (.error r) => p.Failed r

/-- Once all calls of a phase have succeeded, there is no failure in the book. -/
theorem Advance.passes_ofRoster {roster : Roster φ} (h : p.Runs roster.calls) (phase : Phase) :
    (Advance.ofRoster phase roster).Passes p := by
  rcases Advance.ofRoster_cases phase roster with ⟨-, heq⟩ | ⟨hall, heq⟩ | ⟨_, _, -, -, heq⟩
  · rw [heq]
    exact h
  · rw [heq]
    refine ⟨h.1, Classical.byContradiction fun hne => ?_⟩
    obtain ⟨call, hcall, reason, hfails⟩ := h.2 hne
    obtain ⟨value, hvalue⟩ := hall call hcall
    exact absurd (hfails.symm.trans (Call.outcome_eq_some.1 hvalue)) (by simp)
  · rw [heq]
    exact .inr h.1

theorem continuePhase_writes {roster : Roster φ} (h : p.Runs roster.calls) :
    (continuePhase t phase roster : Program κ φ _).Writes t Advance.Passes p :=
  Writes.bind ((pollRoster_writes h).mono fun _ _ h' => Advance.passes_ofRoster h' phase)

variable {id : TransitionId} {tr : Transition}

/-- A phase begins before any of its callbacks is called. -/
theorem startPhase_writes (h : p.Open) (hr : p.rejections = []) :
    (startPhase id tr phase : Program κ φ _).Writes id Advance.Passes p := by
  refine Writes.bind (((callbacksFor_within tr phase).writes h).mono fun found p' hp => ?_)
  have h' := h.beside hp.2
  cases found with
  | error error => exact h'
  | ok callbacks =>
    refine Writes.bind ((Writes.note .begin h').mono ?_)
    rintro - - rfl
    refine Writes.bind (((callAll_within _ callbacks).writes (.inr h'.begin)).mono fun calls p'' hp' => ?_)
    have hnone : p''.rejections = [] := by
      rw [hp'.2.rejections_eq]
      exact hp.2.rejections_eq.trans hr
    exact continuePhase_writes ⟨h'.begin.beside hp'.2, Told.of_nil hnone _⟩

/-- The rejection of a phase is that of the transition. -/
theorem reject_writes (h : p.Open) (r : Rejection) :
    (do make (.note id (.reject r)); pure (.over (.error r)) : Program κ φ (Advance φ)).Writes id
      Advance.Leaves p := by
  refine Writes.bind ((Writes.note (.reject r) h).mono ?_)
  rintro - - rfl
  exact h.reject r

/-- Phases that start one after the other. The last one has to have begun. -/
theorem startPhases_writes (phases : List Phase) :
    ∀ {p : Progress}, p.Open → p.rejections = [] → (phases = [] → p.Underway) →
      (startPhases id tr phases : Program κ φ _).Writes id Advance.Leaves p := by
  induction phases with
  | nil =>
    intro p _ hr hu
    refine Writes.bind ((Writes.note .resolve ⟨hu rfl, hr⟩).mono ?_)
    rintro - - rfl
    exact (hu rfl).resolve hr
  | cons phase rest ih =>
    intro p h hr _
    refine Writes.bind ((startPhase_writes h hr).mono fun advance p' h' => ?_)
    match advance with
    | .waiting phase roster => exact h'
    | .over (.ok ()) => exact ih (.inr h'.1) h'.2 fun _ => h'.1
    | .over (.error r) => exact reject_writes h' r

theorem continuePerform_writes {roster : Roster φ} (h : p.Runs roster.calls) :
    (continuePerform id tr phase roster : Program κ φ _).Writes id Advance.Leaves p := by
  refine Writes.bind ((continuePhase_writes h).mono fun advance p' h' => ?_)
  match advance with
  | .waiting phase roster => exact h'
  | .over (.ok ()) => exact startPhases_writes phase.later (.inr h'.1) h'.2 fun _ => h'.1
  | .over (.error r) => exact reject_writes h' r

/-- What the book is like where a future stands. -/
def Stage.Stands (stage : Stage φ) (p : Progress) : Prop :=
  match stage with
  | .unpolled => p.Unbegun
  | .waiting _ roster => p.Runs roster.calls
  | .busy => p.Proper
  | .failed _ => False

/-- **Performing a transition only writes marks that fit**, from wherever its future stands, and leaves the book
as the result says. -/
theorem advance_writes {stage : Stage φ} (h : stage.Stands p) (hb : stage.isBusy = false) :
    (advance id tr stage : Program κ φ _).Writes id Advance.Leaves p := by
  cases stage with
  | waiting phase roster => exact continuePerform_writes h
  | unpolled => exact startPhases_writes Phase.all (.inl h) h.rejections fun hnil => nomatch hnil
  | busy => exact nomatch hb
  | failed r => exact nomatch hb

end StateEngine
