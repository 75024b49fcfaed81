import StateEngine.Proofs.Interference
import StateEngine.Proofs.Points
import StateEngine.Proofs.Status
import StateEngine.Proofs.Writing

/-!
# The book of a dispatch

The book of a transition that is only dispatched has one writer: the poll of its one future. All others leave
it alone, or abort the transition. So the poll finds the book as it left it, or aborted, and what `advance`
makes of a book is what happens to it in a run.

* `Scene.OnlySent`: the transitions that are only dispatched, and aborted by the machine only.
* `Trail.origin`: **how every future came to perform its transition**.
* `Allowed.beside`, `Path.beside`: **nobody else writes the book** of a transition that a future dispatches.
* `Aside`: what others do to a book while its writer waits.
* `Scene.Kept`: what a book is like as long as its transition is dispatched, and afterwards.
* `WritePoint`, `poll_writes`: **what a poll writes suits the book**, at each of its points.
-/

namespace StateEngine

open Program

variable {κ φ α β : Type} {m : Machine κ φ} {s s' : Scene κ φ} {own : Option FutureId} {c : Change φ}
  {f g : FutureId} {id : TransitionId} {purpose : Purpose} {t : Transition}

/-! ## Transitions that are only dispatched -/

/-- Whether a deed makes a future that performs a transition directly, or aborts the transition by hand. -/
def Deed.isDirect (id : TransitionId) : Deed κ φ → Bool
  | .changed _ (.note i .abort) => i == id
  | .changed _ (.addFuture i _) => i == id
  | _ => false

/-- **Whether a transition is only dispatched**, and aborted by the machine only. -/
def Scene.OnlySent (s : Scene κ φ) (id : TransitionId) : Prop := ∀ d ∈ s.trace, d.isDirect id = false

theorem Scene.OnlySent.earlier (h : s'.OnlySent id) (hp : s.trace <+: s'.trace) : s.OnlySent id :=
  fun d hd => h d (hp.subset hd)

theorem Scene.OnlySent.of_make (h : (s.make c).OnlySent id) : s.OnlySent id := h.earlier (List.prefix_append _ _)

/-- A transition that is only sent is not being aborted by hand. -/
theorem Scene.OnlySent.ne_abort (h : (s.make c).OnlySent id) : c ≠ .note id .abort := by
  rintro rfl
  have hlast := h _ (List.mem_append_right _ List.mem_cons_self)
  exact Bool.noConfusion ((beq_self_eq_true id).symm.trans hlast)

/-- **How a future came to perform its transition**: it was sent with it, or it was given the transition of the
error event when its own had rejected, or it was made to perform it directly. -/
inductive Origin (trace : List (Deed κ φ)) (f : FutureId) (id : TransitionId) (purpose : Purpose) : Prop where
  | launched {m' : Machine κ φ} {record : Record} {args : List Json} : .changed m' (.launch record args) ∈ trace →
      id = m'.nextTransition → f = m'.nextFuture → purpose = .dispatch → Origin trace f id purpose
  | relaunched {m' : Machine κ φ} {r : Rejection} {record : Record} {args : List Json} :
      .changed m' (.relaunch f r record args) ∈ trace → id = m'.nextTransition → purpose = .recovery r →
      Origin trace f id purpose
  | added {m' : Machine κ φ} : .changed m' (.addFuture id purpose) ∈ trace → Origin trace f id purpose

theorem Origin.later {trace trace' : List (Deed κ φ)} (h : Origin trace f id purpose) (hp : trace <+: trace') :
    Origin trace' f id purpose := by
  cases h with
  | launched hmem hid hf hpurpose => exact .launched (hp.subset hmem) hid hf hpurpose
  | relaunched hmem hid hpurpose => exact .relaunched (hp.subset hmem) hid hpurpose
  | added hmem => exact .added (hp.subset hmem)

theorem Trail.origin (hm : m.futures = []) (h : Trail m s) :
    ∀ {f x}, s.machine.future? f = some x → Origin s.trace f x.transition x.purpose := by
  induction h with
  | start =>
    intro f x hx
    have hlt := Machine.lt_of_future hx
    rw [hm] at hlt
    exact absurd hlt (Nat.not_lt_zero f)
  | ask _ _ ih => exact fun hx => (ih hx).later (List.prefix_append _ _)
  | @make s own c _ hc ih =>
    intro f x hx
    have hlast : .changed s.machine c ∈ (s.make c).trace := List.mem_append_right _ List.mem_cons_self
    cases hf : s.machine.future? f with
    | none =>
      rcases hc.turn_none hf with hnone | ⟨-, i, p, hnew, -, ⟨record, args, rfl, hp, hi, hnext⟩ | rfl⟩
      · exact nomatch hnone.symm.trans hx
      · cases Option.some.inj (hnew.symm.trans hx)
        exact .launched hlast hi hnext hp
      · cases Option.some.inj (hnew.symm.trans hx)
        exact .added hlast
    | some y =>
      have hold : Origin (s.make c).trace f y.transition y.purpose := (ih hf).later (List.prefix_append _ _)
      have hturn := hc.turn hf
      rw [show (c.apply s.machine).future? f = some x from hx] at hturn
      cases hturn with
      | stays _ => exact hold
      | moves _ _ _ _ _ => exact hold
      | reports _ hy _ _ =>
        rw [hy] at hold
        exact hold
      | recovers _ _ hrelaunch =>
        subst hrelaunch
        exact .relaunched hlast rfl rfl

variable {definition : Definition κ} {targetName state : String} {idText : TransitionId → String} {listeners : Nat}

/-- **A transition that is only sent is only dispatched.** -/
theorem Scene.OnlySent.isDispatch (h : s.OnlySent id)
    (ht : Trail (.start definition targetName idText state listeners) s) {x : Future φ}
    (hx : s.machine.future? f = some x) (hid : x.transition = id) : x.purpose.isDispatch = true := by
  cases ht.origin rfl hx with
  | launched _ _ _ hp => rw [hp]; rfl
  | relaunched _ _ hp => rw [hp]; rfl
  | added hmem =>
    rw [hid] at hmem
    exact Bool.noConfusion ((beq_self_eq_true id).symm.trans (h _ hmem))

/-- Who performs a transition that is only sent is its dispatch. -/
theorem Scene.OnlySent.dispatches (h : s.OnlySent id)
    (ht : Trail (.start definition targetName idText state listeners) s) (hp : s.machine.Performs f id purpose) :
    s.machine.Dispatches f id :=
  hp.dispatches (h.isDispatch ht hp rfl)

/-! ## Nobody else writes the book -/

/-- The marks of a change: it is a mark, or it aborts what is active. -/
theorem Change.marks_cases (c : Change φ) (m : Machine κ φ) (id : TransitionId) :
    c.marks m id = [] ∨ (c.marks m id = [.abort] ∧ id ∈ c.aborts m) ∨ ∃ mark, c = .note id mark := by
  unfold marks
  split
  · rename_i i mark
    by_cases hi : id = i
    · subst hi
      exact .inr (.inr ⟨mark, rfl⟩)
    · rw [if_neg hi]
      exact .inl rfl
  · by_cases hi : id ∈ c.aborts m
    · rw [if_pos hi]
      exact .inr (.inl ⟨rfl, hi⟩)
    · rw [if_neg hi]
      exact .inl rfl

/-- What is aborted by a change that is no mark was active. -/
theorem Change.aborts_subset (c : Change φ) (m : Machine κ φ) : c.aborts m ⊆ m.active := by
  intro i hi
  unfold aborts at hi
  split at hi
  · exact (List.mem_filter.1 hi).1
  · exact (List.mem_filter.1 hi).1
  · exact hi
  · exact (List.mem_filter.1 hi).1
  · exact nomatch hi

/-- A book that no mark is written into, but perhaps an abort. -/
theorem Change.beside (c : Change φ) (hnote : ∀ mark, c ≠ .note id mark) (ht : m.transition? id = some t) :
    ∃ t', (c.apply m).transition? id = some t' ∧ t.progress.Beside t'.progress := by
  refine ⟨_, c.transition_apply ht, ?_⟩
  rcases c.marks_cases m id with hnone | ⟨habort, -⟩ | ⟨mark, hc⟩
  · rw [hnone]
    exact .refl _
  · rw [habort]
    exact .inr rfl
  · exact absurd hc (hnote mark)

/-- Only its dispatch writes a mark into the book of a transition that is only sent. -/
theorem Allowed.writer (h : Allowed s.machine own c)
    (htrail : Trail (.start definition targetName idText state listeners) s) (hs : (s.make c).OnlySent id)
    (hd : s.machine.Dispatches f id) {mark : Mark} (hc : c = .note id mark) : own = some f := by
  subst hc
  cases h with
  | abort _ => exact absurd rfl hs.ne_abort
  | note hp _ =>
    have hd' := hs.of_make.dispatches htrail hp
    exact congrArg some (htrail.orderly.open_unique _ f id hd' hd)

/-- **Nobody else writes the book** of a transition that a future dispatches: it is left alone, or aborted. -/
theorem Allowed.beside (h : Allowed s.machine own c)
    (htrail : Trail (.start definition targetName idText state listeners) s) (hs : (s.make c).OnlySent id)
    (hd : s.machine.Dispatches f id) (hown : own ≠ some f) (ht : s.machine.transition? id = some t) :
    ∃ t', (s.make c).machine.transition? id = some t' ∧ t.progress.Beside t'.progress :=
  c.beside (fun _ hc => hown (h.writer htrail hs hd hc)) ht

theorem Path.beside (h : Path own s s') (hown : own ≠ some f) (hd : purpose.isDispatch = true) :
    ∀ {t}, Trail (.start definition targetName idText state listeners) s → s'.OnlySent id →
      s.machine.Performs f id purpose → s.machine.transition? id = some t →
      ∃ t', s'.machine.transition? id = some t' ∧ t.progress.Beside t'.progress := by
  induction h with
  | refl s => exact fun _ _ _ ht => ⟨_, ht, .refl _⟩
  | @make s s' c hc hpath ih =>
    intro t htrail hs hp ht
    have honly : (s.make c).OnlySent id := hs.earlier hpath.trace_prefix
    obtain ⟨t₁, ht₁, hbeside⟩ := hc.beside htrail honly (hp.dispatches hd) hown ht
    -- the poll holds its future, which is therefore as it was
    have hrely : Rely (some f) s.machine (s.make c).machine := by
      refine hc.rely ?_
      rintro g ⟨⟩
      exact ⟨hp.held, hown⟩
    have hp₁ : (s.make c).machine.Performs f id purpose := hrely.future.trans hp
    obtain ⟨t₂, ht₂, hbeside'⟩ := ih (htrail.make hc) hs hp₁ ht₁
    exact ⟨t₂, ht₂, hbeside.trans hbeside'⟩
  | ask hr _ ih => exact fun htrail hs hp ht => ih (htrail.ask hr) hs hp ht

/-- **What others do while a poll waits.** The book of the transition that it performs is as it was, or aborted. -/
def Aside (m : Machine κ φ) (f : FutureId) : Response κ φ := fun request s reply s₁ =>
  Amid m (some f) request s reply s₁ ∧
    ∀ id purpose t, s.machine.Performs f id purpose → purpose.isDispatch = true → s₁.OnlySent id →
      s.machine.transition? id = some t →
      ∃ t₁, s₁.machine.transition? id = some t₁ ∧ t.progress.Beside t₁.progress

/-- What follows what others did. -/
theorem Aside.path {request : Request κ φ} {reply : request.Reply} {s₀ : Scene κ φ}
    (h : Aside (.start definition targetName idText state listeners) f request s₀ reply s) (hp : Path own s s')
    (hown : own ≠ some f) (hheld : s.machine.Held f) :
    Aside (.start definition targetName idText state listeners) f request s₀ reply s' := by
  obtain ⟨⟨htrail, hrely, hprefix⟩, hbook⟩ := h
  have hrely' : Rely (some f) s.machine s'.machine := by
    refine hp.rely ?_
    rintro g ⟨⟩
    exact ⟨hheld, hown⟩
  refine ⟨⟨htrail.path hp, hrely.trans hrely', hprefix.trans hp.trace_prefix⟩, ?_⟩
  intro id purpose t hperforms hd hs ht
  obtain ⟨t₁, ht₁, hbeside⟩ := hbook id purpose t hperforms hd (hs.earlier hp.trace_prefix) ht
  obtain ⟨t₂, ht₂, hbeside'⟩ := hp.beside hown hd htrail hs (hrely.future.trans hperforms) ht₁
  exact ⟨t₂, ht₂, hbeside.trans hbeside'⟩

/-! ## What a poll writes -/

/-- Whether what a program does next suits a book. -/
def Program.Suits (p : Progress) : Program κ φ α → Prop
  | .change (.note _ mark) _ => mark.Fits p
  | .change (.setStage _ (.waiting _ roster)) _ => p.Runs roster.calls
  | .change (.release _ _) _ => p.Done
  | .change (.commit _ _ _) _ => p.Done
  | .change (.fail _ _ _) _ => ∃ r, p.Failed r
  | .ask _ _ => p.Open
  | _ => True

/-- **What there is to say of a poll that performs a transition**: what it does next suits the book. -/
def WritePoint (f : FutureId) (q : Program κ φ α) (s : Scene κ φ) : Prop :=
  ∀ id purpose t, s.machine.Performs f id purpose → purpose.isDispatch = true → s.OnlySent id →
    s.machine.transition? id = some t → q.Suits t.progress

/-- A poll that performs nothing writes nothing. -/
theorem WritePoint.of_idle (h : ∀ id purpose, ¬ s.machine.Performs f id purpose) (q : Program κ φ α) :
    WritePoint f q s := fun id purpose _ hp => absurd hp (h id purpose)

/-- What a program does next is what it does first with more to follow. -/
theorem WritePoint.bind {q : Program κ φ α} (h : WritePoint f q s) (hdone : ∀ a, q ≠ .done a)
    (k : α → Program κ φ β) : WritePoint f (q.bind k) s := by
  cases q with
  | done a => exact absurd rfl (hdone a)
  | look next => exact fun _ _ _ _ _ _ _ => trivial
  | change c next =>
    cases c with
    | setStage g stage => cases stage <;> exact h
    | _ => exact h
  | ask request resume => exact h

/-- What holds however requests are answered holds also if they are answered in fewer ways. -/
theorem Program.Each.weaken {R R' : Response κ φ} {P : Program κ φ α → Scene κ φ → Prop}
    (hR : ∀ request s reply s₁, R' request s reply s₁ → R request s reply s₁) {q : Program κ φ α} :
    ∀ {s : Scene κ φ}, q.Each R P s → q.Each R' P s := by
  induction q with
  | done a => intro s h; exact h
  | look next ih => intro s h; exact ih s.machine h
  | change c next ih => intro s h; exact ⟨h.1, ih h.2⟩
  | ask request resume ih =>
    intro s h
    exact ⟨h.1, fun reply s₁ hr => ih reply (h.2 reply s₁ (hR request s reply s₁ hr))⟩

/-- What holds at the points of a poll amid others. -/
theorem Program.Each.aside {P : Program κ φ α → Scene κ φ → Prop} {q : Program κ φ α}
    (h : q.Each (Amid m (some f)) P s) : q.Each (Aside m f) P s := h.weaken fun _ _ _ _ ha => ha.1

/-- Whether a program goes on to write the book as it should, if the transition is only sent. -/
def Scene.Writing (s : Scene κ φ) (id : TransitionId) (post : α → Progress → Prop) (q : Program κ φ α) : Prop :=
  s.OnlySent id → ∃ t, s.machine.transition? id = some t ∧ q.Writes id post t.progress

/-- **What a program writes in a run**: what it makes of a book by itself. -/
theorem Program.Writes.each {post : α → Progress → Prop} {any : α → Prop} (hd : purpose.isDispatch = true)
    {q : Program κ φ α} (hq : q.Within (Notes id) any) :
    ∀ {s : Scene κ φ}, s.Performing m f id purpose t → s.Writing id post q →
      q.Each (Aside m f) (fun q s => s.Performing m f id purpose t ∧ s.Writing id post q) s := by
  induction q with
  | done a => intro s hp hw; exact ⟨hp, hw⟩
  | look next ih =>
    intro s hp hw
    refine ih s.machine (hq s.machine) hp fun hs => ?_
    obtain ⟨t', ht', hwrites⟩ := hw hs
    exact ⟨t', ht', hwrites s.machine⟩
  | change c next ih =>
    intro s hp hw
    refine ⟨⟨hp, hw⟩, ih hq.2 (hp.note hq.1) fun hs => ?_⟩
    obtain ⟨t', ht', mark, rfl, -, hwrites⟩ := hw hs.of_make
    have hmarked := (Change.note id mark).transition_apply ht'
    rw [Change.marks, if_pos rfl] at hmarked
    exact ⟨_, hmarked, hwrites⟩
  | ask request resume ih =>
    intro s hp hw
    refine ⟨⟨hp, hw⟩, fun reply s₁ ha => ih reply (hq.2 reply) (hp.amid ha.1) fun hs => ?_⟩
    have hbefore : s.trace <+: s₁.trace := (List.prefix_append _ _).trans ha.1.2.2
    obtain ⟨t', ht', hopen, hwrites⟩ := hw (hs.earlier hbefore)
    obtain ⟨t₁, ht₁, hbeside⟩ := ha.2 id purpose t' hp.polling.performs hd hs ht'
    exact ⟨t₁, ht₁, hwrites reply _ hbeside⟩

/-- Where a program writes a book as it should, what it does next suits the book. -/
theorem Scene.Writing.point {post : α → Progress → Prop} {q : Program κ φ α} (hw : s.Writing id post q)
    (hp : s.Performing m f id purpose t) : WritePoint f q s := by
  intro i purpose' t' hp' _ hs ht'
  cases Option.some.inj (hp.polling.performs.symm.trans hp')
  obtain ⟨t'', ht'', hwrites⟩ := hw hs
  cases Option.some.inj (ht'.symm.trans ht'')
  cases q with
  | done a => trivial
  | look next => trivial
  | change c next =>
    obtain ⟨mark, rfl, hfits, -⟩ := hwrites
    exact hfits
  | ask request resume => exact hwrites.1

/-- How a poll goes on once a transition rests or is over. -/
structure Concluding (m : Machine κ φ) (f : FutureId) (id : TransitionId) (purpose : Purpose) (t : Transition)
    (advance : Advance φ) (s : Scene κ φ) : Prop where
  performing : s.Performing m f id purpose t
  known : advance.Known id s.machine
  book : s.OnlySent id → ∃ t, s.machine.transition? id = some t ∧ advance.Leaves t.progress

/-- **Performing a transition, and what follows.** -/
theorem Concluding.advance (stage : Stage φ) {k : Advance φ → Program κ φ β} (hb : stage.isBusy = false)
    (hd : purpose.isDispatch = true) (hp : s.Performing m f id purpose t)
    (hstands : s.OnlySent id → ∃ t, s.machine.transition? id = some t ∧ stage.Stands t.progress)
    (hk : ∀ advance s, Concluding m f id purpose t advance s → (k advance).Each (Aside m f) (WritePoint f) s) :
    (advance id t stage >>= k).Each (Aside m f) (WritePoint f) s := by
  have hsafe := ((advance_safe t stage hp.polling).each hp.trail).aside
  have hwriting : s.Writing id Advance.Leaves (StateEngine.advance id t stage) := fun hs => by
    obtain ⟨t', ht', hstage⟩ := hstands hs
    exact ⟨t', ht', advance_writes hstage hb⟩
  have hpoints := Writes.each hd (advance_within id t stage) hp hwriting
  refine Each.bind ((hpoints.and hsafe).mono fun q s' hq => ?_)
  obtain ⟨⟨hp', hw'⟩, -, hsafe'⟩ := hq
  cases q with
  | done advance => exact hk advance s' ⟨hp', hsafe'.2, hw'⟩
  | look _ => trivial
  | change c next => exact (hw'.point hp').bind nofun k
  | ask request resume => exact (hw'.point hp').bind nofun k

/-- Once its future is closed, a poll writes nothing, nor does one whose future is no dispatch. -/
theorem Program.Safe.writes_nothing {q : Program κ φ α} {post : α → Scene κ φ → Prop} (h : q.Safe (some f) post s)
    (ht : Trail m s) (hdirect : s.machine.Direct f) : q.Each (Aside m f) (WritePoint f) s := by
  refine ((h.each ht).course.mono fun q s' hq => ?_).aside
  obtain ⟨⟨ht', -⟩, hgoes⟩ := hq
  have hlater : s'.machine.Direct f := ht.direct ht' (Goes.trace_prefix hgoes) hdirect
  intro id purpose t hp hd
  exact nomatch hd.symm.trans (hlater.directs _ hp)

variable {advance : Advance φ}

/-- The poll that has to wait leaves the calls of the phase behind. -/
theorem Concluding.rest {phase : Phase} {roster : Roster φ}
    (h : Concluding m f id purpose t (.waiting phase roster) s) :
    (rest f phase roster).Each (Aside m f) (WritePoint f) s := by
  refine Each.make ?_ (fun _ _ _ _ _ _ _ => trivial)
  intro i purpose' t' hp _ hs ht'
  cases Option.some.inj (h.performing.polling.performs.symm.trans hp)
  obtain ⟨t'', ht'', hleaves⟩ := h.book hs
  cases Option.some.inj (ht'.symm.trans ht'')
  exact hleaves

/-- The book of a transition all of whose phases are over. -/
theorem Concluding.done (h : Concluding m f id purpose t (.over (.ok ())) s) {next : Program κ φ α}
    (hc : c = .release f id ∨ ∃ record, c = .commit f id record) : WritePoint f (.change c next) s := by
  intro i purpose' t' hp _ hs ht'
  cases Option.some.inj (h.performing.polling.performs.symm.trans hp)
  obtain ⟨t'', ht'', hleaves⟩ := h.book hs
  cases Option.some.inj (ht'.symm.trans ht'')
  rcases hc with rfl | ⟨record, rfl⟩
  · exact hleaves
  · exact hleaves

/-- The book of a transition one of whose phases failed. -/
theorem Concluding.failed {r : Rejection} (h : Concluding m f id purpose t (.over (.error r)) s)
    {next : Program κ φ α} (reported : Option Rejection) : WritePoint f (.change (.fail f id reported) next) s := by
  intro i purpose' t' hp _ hs ht'
  cases Option.some.inj (h.performing.polling.performs.symm.trans hp)
  obtain ⟨t'', ht'', hleaves⟩ := h.book hs
  cases Option.some.inj (ht'.symm.trans ht'')
  exact ⟨r, hleaves⟩

/-- A poll that only has to say what it comes to. -/
theorem Program.Each.writes_pure {q : Program κ φ α} (h : q.Each (Aside m f) (WritePoint f) s) (k : α → β) :
    (q >>= fun a => (pure (k a) : Program κ φ β)).Each (Aside m f) (WritePoint f) s := by
  refine Each.bind (h.mono fun q s' hq => ?_)
  cases q with
  | done a => exact fun _ _ _ _ _ _ _ => trivial
  | look _ => trivial
  | change c next => exact hq.bind nofun _
  | ask request resume => exact hq.bind nofun _

/-- A dispatch that settles without a rejection. -/
theorem Concluding.settle (h : Concluding m f id purpose t (.over (.ok ())) s) (hd : purpose.isDispatch = true) :
    (settle f id t.record).Each (Aside m f) (WritePoint f) s := by
  have hp := h.performing.polling
  have hsafe := settle_safe hp hd (h.known _ rfl)
  unfold StateEngine.settle at hsafe ⊢
  refine Each.look ?_
  replace hsafe := Safe.of_look hsafe
  split at hsafe
  · rename_i hc
    rw [if_pos hc]
    obtain ⟨hnone, hlt, -⟩ := Scene.closed_make (c := .commit f id t.record) hp.performs rfl rfl
    refine Each.make (h.done (.inr ⟨_, rfl⟩)) ?_
    exact hsafe.2.writes_nothing (h.performing.trail.make hsafe.1) ⟨hlt, fun x hx => nomatch hnone.symm.trans hx⟩
  · rename_i hc
    rw [if_neg hc]
    exact Each.make (h.done (.inl rfl)) fun _ _ _ _ _ _ _ => trivial

/-- **What the end of an error dispatch writes**, or its rest. -/
theorem Concluding.recover {r : Rejection} (h : Concluding m f id (.recovery r) t advance s) :
    (recover f id t.record r advance).Each (Aside m f) (WritePoint f) s := by
  match advance with
  | .waiting phase roster => exact h.rest
  | .over (.ok ()) => exact (h.settle rfl).writes_pure fun _ => Polled.rejected r
  | .over (.error other) => exact Each.make (h.failed none) fun _ _ _ _ _ _ _ => trivial

/-- **What the attempt to dispatch the error event writes**: only its own book. -/
theorem Concluding.dispatchError {r : Rejection} (h : Concluding m f id .dispatch t (.over (.error r)) s)
    (he : t.record.event ≠ errorEvent) :
    (dispatchError f id t r).Each (Aside m f) (WritePoint f) (s.make (.fail f id (some r))) := by
  have hp := h.performing.polling
  have htrail : Trail m (s.make (.fail f id (some r))) :=
    h.performing.trail.make (.failDispatch hp.performs (h.known _ rfl) hp.record_eq he)
  have hfailed : (s.make (.fail f id (some r))).machine.future? f = some ⟨id, .dispatch, .failed r⟩ :=
    Machine.future_fail hp.performs id r
  have hidle : ∀ {s : Scene κ φ}, s.machine.future? f = some ⟨id, .dispatch, .failed r⟩ →
      ∀ i purpose, ¬ s.machine.Performs f i purpose := fun hf _ _ hp => nomatch hf.symm.trans hp
  -- the future stays as it is while the record is selected
  have hsafe := ((select_safe (stable_failed r) errorEvent hfailed).each htrail).aside
  have hquiet := (select_within (P := fun _ => False) errorEvent).each (R := Aside m f)
    (I := fun s => s.machine.future? f = some ⟨id, .dispatch, .failed r⟩)
    (fun _ _ _ h => h.elim) (fun _ _ _ _ ha hf => ha.1.2.1.future.trans hf) hfailed
  refine Each.bind ((hsafe.and hquiet).mono fun q s' hq => ?_)
  obtain ⟨⟨ht', hselected⟩, hf', -⟩ := hq
  cases q with
  | look _ => trivial
  | change c next => exact .of_idle (hidle hf') _
  | ask request resume => exact .of_idle (hidle hf') _
  | done result =>
    match result with
    | .error error => exact Each.make (.of_idle (hidle hf') _) fun _ _ _ _ _ _ _ => trivial
    | .ok record =>
      obtain ⟨⟨-, hdeclared⟩, hpermit⟩ := hselected
      refine Each.look (Each.make (.of_idle (hidle hf') _) ?_)
      generalize [errorPayload r (s'.machine.idText id) t] = args
      have hrelaunch := Allowed.relaunch args hf' (hdeclared record rfl) (hpermit record rfl)
      have hnew := Machine.transition_relaunch (f := f) (m := s'.machine) r record args
      -- from here on the future performs the transition of the error event, whose book is new
      have hperforming : (s'.make (.relaunch f r record args)).Performing m f
          s'.machine.nextTransition (.recovery r) (.fresh record args) := by
        refine ⟨ht'.make hrelaunch, ⟨?_, Machine.record_eq_some.2 ⟨_, hnew, rfl⟩⟩, [], hnew⟩
        exact Machine.future_eq_some.2 (List.getElem?_set_self (Machine.lt_of_future hf'))
      refine Concluding.advance .unpolled rfl rfl hperforming (fun _ => ⟨_, hnew, .inl rfl⟩) ?_
      exact fun advance s hs => hs.recover

/-- **What the end of a dispatch writes**, or its rest. -/
theorem Concluding.conclude (h : Concluding m f id .dispatch t advance s) :
    (conclude f id t advance).Each (Aside m f) (WritePoint f) s := by
  match advance with
  | .waiting phase roster => exact h.rest
  | .over (.ok ()) => exact (h.settle rfl).writes_pure fun _ => Polled.resolved id
  | .over (.error r) =>
    unfold StateEngine.conclude
    dsimp only
    split
    · exact Each.make (h.failed none) fun _ _ _ _ _ _ _ => trivial
    · rename_i he
      exact Each.make (h.failed (some r)) (h.dispatchError he)

/-! ## Books in a run -/

/-- What the book of a transition is like that no future dispatches. -/
inductive Scene.Over (s : Scene κ φ) (id : TransitionId) (p : Progress) : Prop where
  /-- It was never sent. -/
  | unsent : p = .fresh → Over s id p
  /-- It was given up. -/
  | aborted : p.status = .aborted → p.Proper → Over s id p
  | done : p.Done → Over s id p
  /-- Its future settled with the rejection. -/
  | rejected {s₀ : Scene κ φ} {f : FutureId} {purpose : Purpose} {reported : Option Rejection} {r : Rejection} :
      (s₀.make (.fail f id reported)).trace <+: s.trace → s₀.machine.Rejects f id purpose r → p.Failed r →
      Over s id p

/-- **What the book of a transition is like**: as the future has it that dispatches it, or as it was left. -/
inductive Scene.Kept (s : Scene κ φ) (id : TransitionId) (p : Progress) : Prop where
  | stands {f : FutureId} {purpose : Purpose} {stage : Stage φ} :
      s.machine.future? f = some ⟨id, purpose, stage⟩ → purpose.isDispatch = true → stage.Stands p → Kept s id p
  | closed : (∀ f, ¬ s.machine.Dispatches f id) → s.Over id p → Kept s id p

/-- Whether the books of all transitions are kept that are only sent. -/
def Scene.Books (s : Scene κ φ) : Prop :=
  ∀ id t, s.OnlySent id → s.machine.transition? id = some t → s.Kept id t.progress

/-- A stage that a book stands at is that of an open dispatch. -/
theorem Stage.Stands.isOpen {stage : Stage φ} {p : Progress} (h : stage.Stands p)
    (hd : purpose.isDispatch = true) : (⟨id, purpose, stage⟩ : Future φ).isOpen = true := by
  cases stage with
  | failed r => exact h.elim
  | _ => exact hd

theorem Stage.Stands.beside {stage : Stage φ} {p p' : Progress} (h : stage.Stands p) (hp : p.Beside p') :
    stage.Stands p' := by
  cases stage with
  | unpolled => exact Progress.Unbegun.beside h hp
  | waiting phase roster => exact Progress.Runs.beside h hp
  | busy => exact Progress.Proper.beside h hp
  | failed r => exact h.elim

theorem Stage.Stands.proper {stage : Stage φ} {p : Progress} (h : stage.Stands p) : p.Proper := by
  cases stage with
  | unpolled => exact .inl (.inl h)
  | waiting phase roster => exact .inl (.inr h.1)
  | busy => exact h
  | failed r => exact h.elim

/-- The future of an open dispatch has the stage that the book says. -/
theorem Scene.Kept.stage (h : s.Kept id t.progress) (ht : Trail (.start definition targetName idText state listeners) s)
    {stage : Stage φ} (hf : s.machine.future? f = some ⟨id, purpose, stage⟩) (hd : purpose.isDispatch = true)
    (hstage : ∀ r, stage ≠ .failed r) : stage.Stands t.progress := by
  have hopen : s.machine.Dispatches f id := by
    refine ⟨_, hf, ?_, rfl⟩
    cases stage with
    | failed r => exact absurd rfl (hstage r)
    | _ => exact hd
  cases h with
  | stands hg hd' hstands =>
    have hg' : s.machine.Dispatches _ id := ⟨_, hg, hstands.isOpen hd', rfl⟩
    cases ht.orderly.open_unique _ _ id hg' hopen
    cases Option.some.inj (hf.symm.trans hg)
    exact hstands
  | closed hnone _ => exact absurd hopen (hnone f)

/-- **What a poll writes, at each of its points.** -/
theorem poll_writes (ht : Trail (.start definition targetName idText state listeners) s) (hb : s.Books) :
    (poll f).Each (Aside (.start definition targetName idText state listeners) f) (WritePoint f) s := by
  have hsafe : (poll f).Safe (some f) (fun _ _ => True) s := poll_safe f s
  have hdone : ∀ {result : Option Polled} {s : Scene κ φ}, WritePoint f (.done result) s :=
    fun _ _ _ _ _ _ _ => trivial
  cases hf : s.machine.future? f with
  | none =>
    refine Each.look ?_
    rw [hf]
    exact hdone
  | some x =>
    cases hd : x.purpose.isDispatch with
    | false =>
      refine hsafe.writes_nothing ht ⟨Machine.lt_of_future hf, fun y hy => ?_⟩
      cases Option.some.inj (hf.symm.trans hy)
      exact hd
    | true =>
      refine Each.look ?_
      rw [hf]
      obtain ⟨id, purpose, stage⟩ := x
      dsimp only
      cases hbusy : stage.isBusy with
      | true => exact hdone
      | false =>
        cases htr : s.machine.transition? id with
        | none => exact hdone
        | some t =>
          have hperforming : (s.make (.setStage f .busy)).Performing
              (.start definition targetName idText state listeners) f id purpose t := by
            refine ⟨ht.make (.take hf hbusy), ⟨Machine.future_setStage hf .busy, ?_⟩, [], htr⟩
            exact Machine.record_eq_some.2 ⟨t, htr, rfl⟩
          have hstands : (s.make (.setStage f .busy)).OnlySent id → ∃ t,
              (s.make (.setStage f .busy)).machine.transition? id = some t ∧ stage.Stands t.progress := by
            refine fun hs => ⟨t, htr, (hb id t hs.of_make htr).stage ht hf hd ?_⟩
            rintro r rfl
            exact nomatch hbusy
          refine Each.make (fun _ _ _ _ _ _ _ => trivial) (Each.writes_pure ?_ some)
          cases purpose with
          | dispatch => exact Concluding.advance stage hbusy rfl hperforming hstands fun _ _ hs => hs.conclude
          | recovery r => exact Concluding.advance stage hbusy rfl hperforming hstands fun _ _ hs => hs.recover
          | _ => exact nomatch hd

end StateEngine
