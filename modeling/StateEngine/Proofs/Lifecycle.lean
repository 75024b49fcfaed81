import StateEngine.Proofs.History
import StateEngine.Proofs.Keeping
import StateEngine.Proofs.Rejection

/-!
# The life of a transition

What the book of a transition says at one place it says at all others, wherever the host looks: from inside a
guard, a callback or a listener, between two polls, or after an abort.

* `Scene.Books.make`: **every deed keeps the books** of the transitions that are only dispatched.
* `World.Kept`, `Reaches.kept`: **they are kept at every point of every run**.
* `Reaches.frozen`: the book of a transition whose dispatch is over is never written again.
* `book_consistent`: **status, flags, failures and rejection agree**, and a final status is the last one.
-/

namespace StateEngine

open Program

variable {κ φ α β : Type} {m : Machine κ φ} {s s' : Scene κ φ} {own : Option FutureId} {c : Change φ}
  {f g : FutureId} {id : TransitionId} {purpose : Purpose} {t t' : Transition} {stage : Stage φ}
  {definition : Definition κ} {targetName state : String} {idText : TransitionId → String} {listeners : Nat}

/-! ## One deed -/

theorem Scene.Over.later {p : Progress} (h : s.Over id p) (hp : s.trace <+: s'.trace) : s'.Over id p := by
  cases h with
  | unsent h => exact .unsent h
  | aborted ha hproper => exact .aborted ha hproper
  | done h => exact .done h
  | rejected hmade hr hfailed => exact .rejected (hmade.trans hp) hr hfailed

/-- Once its future is closed, nobody dispatches a transition. -/
theorem Scene.Orderly.closed (h : s.Orderly) (hd : s.machine.Dispatches f id)
    (hopen : ∀ g i, s'.machine.Dispatches g i ↔ s.machine.Dispatches g i ∧ g ≠ f) (g : FutureId) :
    ¬ s'.machine.Dispatches g id := by
  intro hg
  obtain ⟨hg, hne⟩ := (hopen g id).1 hg
  exact hne (h.open_unique g f id hg hd)

/-- The book of a new transition. -/
theorem Scene.Kept.new (ht : Trail (.start definition targetName idText state listeners) s)
    (hc : Allowed s.machine own c)
    (hnew : ¬ id < s.machine.transitions.length) (ht' : (s.make c).machine.transition? id = some t') :
    (s.make c).Kept id t'.progress := by
  obtain ⟨rfl, record, args, rfl, hkind⟩ := Change.transition_new hnew ht'
  rcases hkind with (rfl | rfl) | ⟨f, rejection, rfl⟩
  · refine .closed (fun f hd => ?_) (.unsent rfl)
    exact hnew (ht.orderly.sent_lt _ (ht.orderly.open_sent f _ hd))
  · have hfuture : (s.make (.launch record args)).machine.future? s.machine.nextFuture =
        some ⟨s.machine.nextTransition, .dispatch, .unpolled⟩ :=
      (Machine.future_append (m := s.machine) rfl).trans (if_pos rfl)
    exact .stands hfuture rfl (.inl rfl)
  · cases hc with
    | relaunch _ hf _ _ =>
      have hfuture : (s.make (.relaunch f rejection record args)).machine.future? f =
          some ⟨s.machine.nextTransition, .recovery rejection, .busy⟩ :=
        Machine.future_eq_some.2 (List.getElem?_set_self (Machine.lt_of_future hf))
      exact .stands hfuture rfl (.inl (.inl (.inl rfl)))

/-- The book of a transition that nobody dispatches is not written. -/
theorem Allowed.frozen (hc : Allowed s.machine own c)
    (ht : Trail (.start definition targetName idText state listeners) s)
    (hs : (s.make c).OnlySent id) (hnone : ∀ f, ¬ s.machine.Dispatches f id)
    (hbook : s.machine.transition? id = some t) : (s.make c).machine.transition? id = some t := by
  have hmarked := c.transition_apply hbook
  have hmarks : c.marks s.machine id = [] := by
    rcases c.marks_cases s.machine id with h | ⟨-, habort⟩ | ⟨mark, rfl⟩
    · exact h
    · have hactive := ht.orderly.mem_active.1 (c.aborts_subset s.machine habort)
      obtain ⟨f, hf⟩ := Machine.isOpen_iff.1 hactive.1
      exact absurd hf (hnone f)
    · cases hc with
      | abort _ => exact absurd rfl hs.ne_abort
      | note hp _ => exact absurd (hs.of_make.dispatches ht hp) (hnone _)
  rw [hmarks] at hmarked
  exact hmarked

/-- The book of a transition after its future was given up. -/
theorem Scene.Kept.dropped (ht : Trail (.start definition targetName idText state listeners) s)
    (hf : s.machine.future? f = some ⟨id, purpose, stage⟩) (hd : purpose.isDispatch = true)
    (hstands : stage.Stands t.progress) (hbook : s.machine.transition? id = some t)
    (ht' : (s.make (.dropFuture f)).machine.transition? id = some t') :
    (s.make (.dropFuture f)).Kept id t'.progress := by
  have hopen : s.machine.Dispatches f id := ⟨_, hf, hstands.isOpen hd, rfl⟩
  have hdropped := Change.transition_dropFuture f hbook
  cases Option.some.inj (hdropped.symm.trans ht')
  have hmem := Change.mem_aborts_dropFuture hf (i := id)
  cases hb : stage.isBusy with
  | true =>
    -- a future that is being polled stays
    have hsame : s.machine.dropFuture f = s.machine := Machine.dropFuture_of_busy hf hb
    have hnot : id ∉ (Change.dropFuture f).aborts s.machine := fun hi =>
      Bool.noConfusion ((hmem.1 hi).1.1.symm.trans hb)
    rw [if_neg hnot]
    refine .stands (f := f) ?_ hd hstands
    exact (congrArg (fun m : Machine κ φ => m.future? f) hsame).trans hf
  | false =>
    have hclosed : ∀ g i, (s.make (.dropFuture f)).machine.Dispatches g i ↔
        s.machine.Dispatches g i ∧ g ≠ f := by
      have heq : s.machine.dropFuture f = (s.machine.closeFuture f).abortActive id := by
        simp [Machine.dropFuture, hf, hb, hd]
      intro g i
      rw [show (s.make (.dropFuture f)).machine = _ from heq,
        Machine.dispatches_of_futures (Machine.futures_abortActive id)]
      exact Machine.dispatches_close rfl
    refine .closed (ht.orderly.closed hopen hclosed) ?_
    by_cases hi : id ∈ (Change.dropFuture f).aborts s.machine
    · rw [if_pos hi]
      exact .aborted rfl (hstands.proper.beside (.inr rfl))
    · -- it was not active, so that it had been aborted before
      rw [if_neg hi]
      have hremoved : id ∈ s.removed := Classical.byContradiction fun hkept =>
        hi (hmem.2 ⟨⟨hb, hd⟩, rfl, ht.orderly.mem_active.2 ⟨Machine.isOpen_iff.2 ⟨f, hopen⟩, hkept⟩⟩)
      have haborted := ht.orderly.removed_aborted id hremoved
      rw [Machine.isAborted, hbook, Option.any_some, Transition.isAborted, decide_eq_true_eq] at haborted
      exact .aborted haborted hstands.proper

/-- The book of a transition whose future settles is left as it is. -/
theorem Scene.Kept.settled (ht : Trail (.start definition targetName idText state listeners) s)
    (hp : s.machine.Performs f id purpose) (hd : purpose.isDispatch = true)
    (hopen : ∀ g i, (s.make c).machine.Dispatches g i ↔ s.machine.Dispatches g i ∧ g ≠ f)
    (hmarks : c.marks s.machine id = []) (hover : (s.make c).Over id t.progress) :
    (s.make c).Kept id (t.markAll (c.marks s.machine id)).progress := by
  rw [hmarks]
  exact .closed (ht.orderly.closed (hp.dispatches hd) hopen) hover

/-- A rejection does not abort the transition that rejects. -/
theorem Change.marks_fail (m : Machine κ φ) (f : FutureId) (id : TransitionId) (reported : Option Rejection) :
    (Change.fail (φ := φ) f id reported).marks m id = [] := by
  unfold marks
  refine if_neg fun hi => ?_
  exact bne_iff_ne.1 (List.mem_filter.1 hi).2 rfl

/-- The book of a transition that rejects. -/
theorem Scene.Over.fail {r : Rejection} (hr : s.machine.Rejects f id purpose r)
    (hbook : s.machine.transition? id = some t) (hfailed : ∃ r, t.progress.Failed r)
    (reported : Option Rejection) : (s.make (.fail f id reported)).Over id t.progress := by
  obtain ⟨r', hfailed⟩ := hfailed
  obtain ⟨t', ht', -, hrejection⟩ := hr.settled
  cases Option.some.inj (hbook.symm.trans ht')
  cases Option.some.inj (hfailed.rejection.symm.trans hrejection)
  exact .rejected List.prefix_rfl hr hfailed

/-- **What a poll writes keeps the book** of the transition that its future dispatches. -/
theorem Scene.Kept.written {next : Program κ φ α} (ht : Trail (.start definition targetName idText state listeners) s)
    (hs : (s.make c).OnlySent id) (hc : Allowed s.machine (some f) c)
    (hpoint : WritePoint f (.change c next) s) (hf : s.machine.future? f = some ⟨id, purpose, stage⟩)
    (hd : purpose.isDispatch = true) (hstands : stage.Stands t.progress)
    (hbook : s.machine.transition? id = some t) (ht' : (s.make c).machine.transition? id = some t') :
    (s.make c).Kept id t'.progress := by
  have hmarked := c.transition_apply hbook
  cases Option.some.inj (hmarked.symm.trans ht')
  have hsuits : ∀ {purpose}, s.machine.Performs f id purpose → purpose.isDispatch = true →
      (Program.change c next).Suits t.progress := fun hp hd => hpoint id _ t hp hd hs.of_make hbook
  cases hc with
  | @note _ i _ mark hp _ =>
    cases Option.some.inj (hf.symm.trans hp)
    have hfits : mark.Fits t.progress := hsuits hf hd
    have hmarks : (Change.note (φ := φ) id mark).marks s.machine id = [mark] := if_pos rfl
    rw [hmarks]
    exact .stands (f := f) hf hd hfits.proper
  | relaunch _ hf' _ _ =>
    cases Option.some.inj (hf.symm.trans hf')
    exact hstands.elim
  | take hf' _ =>
    cases Option.some.inj (hf.symm.trans hf')
    exact .stands (Machine.future_setStage hf .busy) hd hstands.proper
  | rest phase roster hp =>
    cases Option.some.inj (hf.symm.trans hp)
    exact .stands (Machine.future_setStage hf (.waiting phase roster)) hd (hsuits hf hd)
  | finish hp hd' =>
    cases Option.some.inj (hf.symm.trans hp)
    exact nomatch hd.symm.trans hd'
  | refuse hf' =>
    cases Option.some.inj (hf.symm.trans hf')
    exact hstands.elim
  | release hp _ _ _ =>
    cases Option.some.inj (hf.symm.trans hp)
    exact .settled ht hf hd (fun _ _ => Machine.dispatches_close rfl) rfl (.done (hsuits hf hd))
  | commit hp _ _ _ _ _ =>
    cases Option.some.inj (hf.symm.trans hp)
    exact .settled ht hf hd (fun _ _ => Machine.dispatches_close rfl) rfl (.done (hsuits hf hd))
  | fail hp _ hk _ _ =>
    cases Option.some.inj (hf.symm.trans hp)
    have hover := Scene.Over.fail ⟨hf, hk⟩ hbook (hsuits hf hd) none
    exact .settled ht hf hd (fun _ _ => Machine.dispatches_fail hf none) (Change.marks_fail _ f id none) hover
  | @failDispatch _ _ _ r hp hk _ _ =>
    cases Option.some.inj (hf.symm.trans hp)
    have hover := Scene.Over.fail ⟨hf, hk⟩ hbook (hsuits hf hd) (some r)
    exact .settled ht hf hd (fun _ _ => Machine.dispatches_fail hf (some r)) (Change.marks_fail _ f id _) hover

/-- **Every deed keeps the books** of the transitions that are only dispatched. -/
theorem Scene.Books.make (hb : s.Books) (ht : Trail (.start definition targetName idText state listeners) s)
    (hc : Allowed s.machine own c) {next : Program κ φ α}
    (hpoint : ∀ f, own = some f → WritePoint f (.change c next) s) : (s.make c).Books := by
  intro id t' hs ht'
  by_cases hlt : id < s.machine.transitions.length
  · obtain ⟨t, hbook⟩ := s.machine.transition_of_lt hlt
    have hkept := hb id t hs.of_make hbook
    cases hkept with
    | closed hnone hover =>
      have hsame := hc.frozen ht hs hnone hbook
      cases Option.some.inj (hsame.symm.trans ht')
      have hnone' : ∀ f, ¬ (s.make c).machine.Dispatches f id := fun f hd => by
        have honly : s.machine.OnlyIn none id := ⟨hlt, fun g hg => absurd hg (hnone g)⟩
        exact nomatch (hc.onlyIn honly).2 f hd
      exact .closed hnone' (hover.later (List.prefix_append _ _))
    | @stands f purpose stage hf hd hstands =>
      by_cases hown : own = some f
      · subst hown
        exact .written ht hs hc (hpoint f rfl) hf hd hstands hbook ht'
      by_cases hdrop : c = .dropFuture f
      · subst hdrop
        exact .dropped ht hf hd hstands hbook ht'
      · -- it is somebody else's deed
        have hopen : s.machine.Dispatches f id := ⟨_, hf, hstands.isOpen hd, rfl⟩
        obtain ⟨t₁, ht₁, hbeside⟩ := hc.beside ht hs hopen hown hbook
        cases Option.some.inj (ht₁.symm.trans ht')
        have hslot := hc.slot (Machine.lt_of_future hf) hown hdrop
        have hf' : (s.make c).machine.future? f = some ⟨id, purpose, stage⟩ :=
          Machine.future_eq_some.2 (hslot.trans (Machine.future_eq_some.1 hf))
        exact .stands hf' hd (hstands.beside hbeside)
  · exact .new ht hc hlt ht'

/-- What is asked changes no book. -/
theorem Scene.Books.ask (hb : s.Books) (request : Request κ φ) : (s.ask request).Books := by
  intro id t hs ht
  have hkept := hb id t (hs.earlier (List.prefix_append _ _)) ht
  cases hkept with
  | stands hf hd hstands => exact .stands hf hd hstands
  | closed hnone hover => exact .closed hnone (hover.later (List.prefix_append _ _))

/-! ## Runs -/

/-- Whether a poll that waits goes on to write what suits the book, whatever it is answered. -/
def Waiting.Keeps (m : Machine κ φ) (x : Waiting κ φ) (s : Scene κ φ) : Prop :=
  ∀ f, x.own = some f → ∃ s₀, Trail m s₀ ∧
    (Program.ask x.request x.resume).Each (Aside m f) (WritePoint f) s₀ ∧ ∀ reply, Aside m f x.request s₀ reply s

/-- **What holds of the books at every point of every run.** -/
structure World.Kept (m : Machine κ φ) (w : World κ φ) : Prop where
  books : w.scene.Books
  waits : ∀ x ∈ w.waiting, x.Keeps m w.scene

/-- An operation that goes on keeps the books, and waits where it is going to keep them. -/
theorem World.proceed_keeps (op : Operation) (p : Program κ φ op.Result) :
    ∀ w : World κ φ, Trail (.start definition targetName idText state listeners) w.scene →
      p.Safe op.own (fun _ _ => True) w.scene →
      (∀ f, op.own = some f →
        p.Each (Aside (.start definition targetName idText state listeners) f) (WritePoint f) w.scene) →
      w.scene.Books →
        (proceed op p w).scene.Books ∧
          ((proceed op p w).waiting = w.waiting ∨
            ∃ x : Waiting κ φ, (proceed op p w).waiting = x :: w.waiting ∧
              x.Keeps (.start definition targetName idText state listeners) (proceed op p w).scene) := by
  induction p with
  | done a => intro w _ _ _ hb; exact ⟨hb, .inl rfl⟩
  | look next ih => intro w ht hsafe hpoints hb; exact ih w.machine w ht hsafe hpoints hb
  | change c next ih =>
    intro w ht hsafe hpoints hb
    obtain ⟨hc, hsafe⟩ := hsafe
    have hbooks : (w.scene.make c).Books := hb.make ht hc fun f hf => (hpoints f hf).1
    exact ih { w with scene := w.scene.make c } (ht.make hc) hsafe (fun f hf => (hpoints f hf).2) hbooks
  | ask request resume _ =>
    intro w ht hsafe hpoints hb
    refine ⟨hb.ask request, .inr ⟨⟨op, request, resume⟩, rfl, fun f hf => ?_⟩⟩
    refine ⟨w.scene, ht, hpoints f hf, fun reply => ?_⟩
    have hamid : Amid (.start definition targetName idText state listeners) (some f) request w.scene reply
        (w.scene.ask request) := ⟨ht.ask hsafe.1, .refl _ _, List.prefix_rfl⟩
    exact ⟨hamid, fun _ _ t _ _ _ ht => ⟨t, ht, .refl _⟩⟩

/-- What others do lets a poll that waits keep the book. -/
theorem Waiting.Keeps.path {x : Waiting κ φ}
    (h : x.Keeps (.start definition targetName idText state listeners) s) (hsafe : x.Safe s) (hp : Path own s s')
    (hown : ∀ f, x.own = some f → own ≠ some f) : x.Keeps (.start definition targetName idText state listeners) s' := by
  intro f hf
  obtain ⟨s₀, ht, hpoints, haside⟩ := h f hf
  exact ⟨s₀, ht, hpoints, fun reply => (haside reply).path hp (hown f hf) (hsafe.held f hf)⟩

/-- A move of an operation that holds no future of one that waits. -/
theorem World.Kept.proceed {w : World κ φ} (h : w.Kept (.start definition targetName idText state listeners))
    (hsound : w.Sound (.start definition targetName idText state listeners)) {op : Operation}
    {p : Program κ φ op.Result}
    (hsafe : p.Safe op.own (fun _ _ => True) w.scene)
    (hpoints : ∀ f, op.own = some f →
      p.Each (Aside (.start definition targetName idText state listeners) f) (WritePoint f) w.scene)
    (hapart : ∀ x ∈ w.waiting, ∀ f, x.own = some f → op.own ≠ some f) :
    (w.proceed op p).Kept (.start definition targetName idText state listeners) := by
  have hpath := (hsound.proceed hsafe hapart).1
  obtain ⟨hbooks, hwaiting⟩ := World.proceed_keeps op p w hsound.trail hsafe hpoints h.books
  have hold : ∀ x ∈ w.waiting, x.Keeps (.start definition targetName idText state listeners) (w.proceed op p).scene :=
    fun x hx => (h.waits x hx).path (hsound.safe x hx) hpath (hapart x hx)
  refine ⟨hbooks, ?_⟩
  rcases hwaiting with heq | ⟨x, heq, hx⟩
  · rw [heq]
    exact hold
  · rw [heq]
    exact List.forall_mem_cons.2 ⟨hx, hold⟩

/-- **The books are kept at every point of every run.** -/
theorem Reaches.kept {w : World κ φ} (h : Reaches (.start definition targetName idText state listeners) w) :
    w.Kept (.start definition targetName idText state listeners) := by
  induction h with
  | start =>
    refine ⟨fun id t _ ht => ?_, fun x hx => nomatch hx⟩
    exact nomatch ht
  | @next op w w' hw hn ih =>
    have hsound := hw.sound
    cases hn with
    | start =>
      rcases hsound.begin_cases op with hidle | hapart
      · rw [hidle]
        exact ih
      · refine ih.proceed hsound (op.safe w.scene) (fun f hf => ?_) hapart
        cases Operation.own_eq_some hf
        exact poll_writes hsound.trail ih.books
    | answer scene newer x older reply =>
      have hx : x ∈ newer ++ x :: older := List.mem_append_right _ List.mem_cons_self
      have hsub : newer ++ older ⊆ newer ++ x :: older := (List.sublist_cons_self x older).append_left newer |>.subset
      obtain ⟨hrest, hapart⟩ := hsound.without
      have hkept : (⟨scene, newer ++ older⟩ : World κ φ).Kept (.start definition targetName idText state listeners) :=
        ⟨ih.books, fun y hy => ih.waits y (hsub hy)⟩
      have hsafe := (hsound.safe x hx).resume scene (.refl x.own scene.machine) List.prefix_rfl reply
      refine hkept.proceed hrest hsafe (fun f hf => ?_) hapart
      obtain ⟨s₀, -, hpoints, haside⟩ := ih.waits x hx f hf
      exact hpoints.2 reply scene (haside reply)

/-! ## What a host sees -/

/-- Whatever is asked could be answered. -/
theorem Request.exists_reply (request : Request κ φ) : ∃ _ : request.Reply, True := by
  cases request with
  | guard name state => exact ⟨(none : Option Bool), trivial⟩
  | callback name => exact ⟨(none : Option κ), trivial⟩
  | call callback context => exact ⟨(.unit : Settlement φ), trivial⟩
  | poll computation => exact ⟨(.settled (.ok .null) : Awaited φ), trivial⟩
  | notify listener change => exact ⟨(), trivial⟩

variable {w w' : World κ φ}

/-- **Wherever the host looks, a transition that is dispatched is not over.** -/
theorem Reaches.open_of_dispatches (h : Reaches (.start definition targetName idText state listeners) w)
    (hs : w.scene.OnlySent id) (hd : w.machine.Dispatches f id) (ht : w.machine.transition? id = some t) :
    t.progress.Open := by
  have hkept := h.kept
  cases hkept.books id t hs ht with
  | closed hnone _ => exact absurd hd (hnone f)
  | @stands g purpose stage hg hdispatch hstands =>
    cases stage with
    | unpolled => exact .inl hstands
    | waiting phase roster => exact .inr hstands.1
    | failed r => exact hstands.elim
    | busy =>
      -- the poll that holds the future waits, and did not leave the book over
      obtain ⟨x, hx, hop⟩ := h.busy_waits (f := g) rfl ⟨_, hg, rfl⟩
      have hown : x.own = some g := by rw [Waiting.own, hop]; rfl
      obtain ⟨s₀, htrail, hpoints, haside⟩ := hkept.waits x hx g hown
      obtain ⟨reply, -⟩ := x.request.exists_reply
      obtain ⟨⟨-, hrely, hprefix⟩, hbook⟩ := haside reply
      have hperforms : s₀.machine.Performs g id purpose := hrely.future.symm.trans hg
      have hearlier : s₀.OnlySent id := hs.earlier ((List.prefix_append _ _).trans hprefix)
      have hsent := htrail.orderly.open_sent g id (hperforms.dispatches hdispatch)
      obtain ⟨t₀, ht₀⟩ := s₀.machine.transition_of_lt (htrail.orderly.sent_lt id hsent)
      have hopen : t₀.progress.Open := hpoints.1 id purpose t₀ hperforms hdispatch hearlier ht₀
      obtain ⟨t₁, ht₁, hbeside⟩ := hbook id purpose t₀ hperforms hdispatch hs ht₀
      cases Option.some.inj (ht₁.symm.trans ht)
      exact hopen.beside hbeside

/-- **The book of a transition whose dispatch is over is never written again.** -/
theorem Reaches.frozen (h : Reaches (.start definition targetName idText state listeners) w)
    (h' : Reaches (.start definition targetName idText state listeners) w') (hp : w.trace <+: w'.trace)
    (hs : w'.scene.OnlySent id) (hnone : ∀ f, ¬ w.machine.Dispatches f id)
    (ht : w.machine.transition? id = some t) : w'.machine.transition? id = some t := by
  have htrail := h.sound.trail
  have hkept : w'.scene.OnlySent id →
      w'.machine.OnlyIn none id ∧ w'.machine.transition? id = some t := by
    refine htrail.later h'.sound.trail hp (I := fun s => s.OnlySent id →
      s.machine.OnlyIn none id ∧ s.machine.transition? id = some t) ?_ ?_ fun _ => ?_
    · intro s own c hs₁ ih hc honly
      obtain ⟨hclosed, hbook⟩ := ih honly.of_make
      have hnone : ∀ f, ¬ s.machine.Dispatches f id := fun f hf => nomatch hclosed.2 f hf
      exact ⟨hc.onlyIn hclosed, hc.frozen hs₁ honly hnone hbook⟩
    · exact fun s request ih honly => ih (honly.earlier (List.prefix_append _ _))
    · exact ⟨⟨Machine.transition_lt ht, fun g hg => absurd hg (hnone g)⟩, ht⟩
  exact (hkept hs).2

/-- What a change aborts it removes from the active list. -/
theorem Change.not_active_of_aborts {m : Machine κ φ} (hi : id ∈ c.aborts m) : id ∉ (c.apply m).active := by
  cases c with
  | fail f i r => rw [Change.apply, Machine.fail_eq]; exact List.not_mem_nil
  | abortAll => rw [Change.apply, Machine.abortAll_eq]; exact List.not_mem_nil
  | abortActive i =>
    obtain ⟨rfl, -⟩ := Change.mem_aborts_abortActive.1 hi
    rw [Change.apply, Machine.active_abortActive]
    exact fun hmem => bne_iff_ne.1 (List.mem_filter.1 hmem).2 rfl
  | dropFuture f =>
    cases hf : m.future? f with
    | none =>
      rw [Change.aborts, hf] at hi
      simp at hi
    | some x =>
      obtain ⟨⟨hb, hd⟩, rfl, -⟩ := (Change.mem_aborts_dropFuture hf).1 hi
      have heq : m.dropFuture f = (m.closeFuture f).abortActive x.transition := by
        simp [Machine.dropFuture, hf, hb, hd]
      rw [Change.apply, heq, Machine.active_abortActive]
      exact fun hmem => bne_iff_ne.1 (List.mem_filter.1 hmem).2 rfl
  | _ => exact absurd hi List.not_mem_nil

/-- **What is active was not aborted**, unless by hand. -/
theorem Trail.active_not_aborted (h : Trail (.start definition targetName idText state listeners) s)
    (hs : s.OnlySent id) (hactive : id ∈ s.machine.active) : s.machine.isAborted id = false := by
  induction h with
  | start => exact nomatch hactive
  | ask _ _ ih => exact ih (hs.earlier (List.prefix_append _ _)) hactive
  | @make s own c htrail hc ih =>
    by_cases hlt : id < s.machine.transitions.length
    · obtain ⟨t, ht⟩ := s.machine.transition_of_lt hlt
      have hwas : id ∈ s.machine.active := Classical.byContradiction fun hnot =>
        (hc.inactive ⟨hlt, hnot⟩).2 hactive
      have hbefore := ih hs.of_make hwas
      have hmarked := c.transition_apply ht
      rw [Machine.isAborted, ht, Option.any_some] at hbefore
      rw [Machine.isAborted, show (s.make c).machine.transition? id = _ from hmarked, Option.any_some]
      rcases c.marks_cases s.machine id with hmarks | ⟨-, habort⟩ | ⟨mark, rfl⟩
      · rw [hmarks]
        exact hbefore
      · exact absurd hactive (Change.not_active_of_aborts habort)
      · have hne : mark ≠ .abort := fun e => hs.ne_abort (e ▸ rfl)
        rw [show (Change.note (φ := φ) id mark).marks s.machine id = [mark] from if_pos rfl]
        exact (t.isAborted_mark_eq hne).trans hbefore
    · obtain ⟨t, ht⟩ := (s.make c).machine.transition_of_lt ((htrail.make hc).orderly.active_lt hactive)
      obtain ⟨-, record, args, rfl, -⟩ := Change.transition_new hlt ht
      rw [Machine.isAborted, ht]
      rfl

/-- Who has polled something has polled a future that was there. -/
theorem Course.poll_lt {m : Machine κ φ} {polled : Polled} (h : Course m (.poll f) (.done (some polled)) s) :
    f < s.machine.futures.length := by
  obtain ⟨u, hu, hgoes⟩ := h
  have htrail := hu.sound.trail
  cases hf : u.machine.future? f with
  | none =>
    have hnothing : (poll f).Each (Amid m (some f)) (fun q _ => q = .done none) u.scene := by
      refine Each.look ?_
      rw [show u.scene.machine.future? f = none from hf]
      rfl
    exact nomatch hnothing.goes hgoes
  | some x =>
    have hsafe := ((poll_safe f u.scene).each htrail).goes hgoes
    refine htrail.later hsafe.1 (Goes.trace_prefix hgoes) (I := fun s => f < s.machine.futures.length)
      (fun _ _ c _ hlt _ => Nat.lt_of_lt_of_le hlt c.length_futures_le) (fun _ _ hlt => hlt) ?_
    exact Machine.lt_of_future hf

/-- **What the polls of a future yield whose transition rejects**, before and after: nothing yet, or what is owed
for the rejection. -/
theorem Reaches.yields_owed {m : Machine κ φ} {s₀ : Scene κ φ} {reported : Option Rejection} {r : Rejection}
    (hm : m.futures = []) (h : Reaches m w) (hd : (s₀.make (.fail f id reported)).trace <+: w.trace)
    (hr : s₀.machine.Rejects f id purpose r) {u u' : World κ φ} {polled : Polled} (hu : Reaches m u)
    (hy : u.Yields (.poll f) (some polled) u') (hrun : w.trace <+: u'.trace ∨ u'.trace <+: w.trace) :
    polled = .pending ∨ polled = .rejected (purpose.owed r) := by
  have hfits := hu.fits hm hy
  have hs₀ := (h.sound.trail.of_make hd).1
  have hcases : (s₀.make (.fail f id reported)).trace <+: u'.trace ∨ u'.trace <+: s₀.trace := by
    rcases hrun with hlater | hearlier
    · exact .inl (hd.trans hlater)
    · rcases List.prefix_or_prefix_of_prefix hd hearlier with hafter | hbefore
      · exact .inl hafter
      · rcases List.prefix_concat_iff.1 hbefore with heq | hlt
        · exact .inl (heq ▸ List.prefix_rfl)
        · exact .inr hlt
  rcases hcases with hafter | hbefore
  · exact hfits.of_fail hr hafter
  · -- until its transition rejects a future is there
    have hthere : u'.machine.future? f ≠ none := fun hnone => by
      have htrail := (hu.next hy.next).sound.trail
      have hgone := (htrail.story_over hs₀ hbefore hnone (hu.yields hy).poll_lt).1
      exact nomatch hgone.symm.trans hr.performs
    cases polled with
    | pending => exact .inl rfl
    | finished => exact absurd hfits.1 hthere
    | resolved _ => exact absurd hfits.1 hthere
    | rejected _ => exact absurd hfits.1 hthere

/-- **Who rejected a transition, and what came of it.** The future that dispatches the transition failed with the
rejection. Its polls yield nothing yet, or what it owes: the rejection itself, but an error dispatch, which rejects
unheard, yields the one that the error event was sent for. -/
structure World.RejectedBy (m : Machine κ φ) (w : World κ φ) (id : TransitionId) (f : FutureId) (purpose : Purpose)
    (r : Rejection) : Prop where
  origin : Origin w.trace f id purpose
  isDispatch : purpose.isDispatch = true
  rejects : ∃ (s₀ : Scene κ φ) (reported : Option Rejection),
    (s₀.make (.fail f id reported)).trace <+: w.trace ∧ s₀.machine.Rejects f id purpose r
  yields : ∀ u u' polled, Reaches m u → u.Yields (.poll f) (some polled) u' →
    w.trace <+: u'.trace ∨ u'.trace <+: w.trace → polled = .pending ∨ polled = .rejected (purpose.owed r)

/-- The book of a transition that is only dispatched is in one of the conditions. -/
theorem Scene.Kept.proper {p : Progress} (h : s.Kept id p) : p.Proper := by
  cases h with
  | stands _ _ hstands => exact hstands.proper
  | closed _ hover =>
    cases hover with
    | unsent hp => exact .inl (.inl (.inl hp))
    | aborted _ hproper => exact hproper
    | done hdone => exact .inr (.inl hdone)
    | rejected _ _ hfailed => exact .inr (.inr ⟨_, hfailed⟩)

/-- Who has resolved or rejected is not dispatched any more. -/
theorem Reaches.closed (h : Reaches (.start definition targetName idText state listeners) w) (hs : w.scene.OnlySent id)
    (ht : w.machine.transition? id = some t)
    (hstatus : t.progress.status = .resolved ∨ t.progress.status = .rejected) (f : FutureId) :
    ¬ w.machine.Dispatches f id := by
  intro hd
  have hopen : t.progress.Open := h.open_of_dispatches hs hd ht
  have hstatus' := hopen.status
  rcases hstatus with hstatus | hstatus
  · simp [hstatus] at hstatus'
  · simp [hstatus] at hstatus'

/-- **A transition whose status is rejected was rejected by its dispatch**, with what the book says. -/
theorem Reaches.rejectedBy (h : Reaches (.start definition targetName idText state listeners) w)
    (hs : w.scene.OnlySent id) (ht : w.machine.transition? id = some t) (hstatus : t.progress.status = .rejected) :
    ∃ f purpose r, t.progress.Failed r ∧
      w.RejectedBy (.start definition targetName idText state listeners) id f purpose r := by
  cases h.kept.books id t hs ht with
  | @stands f purpose stage hf hd hstands =>
    exact absurd ⟨_, hf, hstands.isOpen hd, rfl⟩ (h.closed hs ht (.inr hstatus) f)
  | closed _ hover =>
    cases hover with
    | unsent hp => exact nomatch hstatus.symm.trans (congrArg Progress.status hp)
    | aborted haborted _ => exact nomatch hstatus.symm.trans haborted
    | done hdone => exact absurd hdone.status (by simp [hstatus])
    | @rejected s₀ f purpose reported r hmade hrejects hfailed =>
      have htrail := (h.sound.trail.of_make hmade).1
      have hbefore : s₀.trace <+: w.trace := (List.prefix_append _ _).trans hmade
      refine ⟨f, purpose, r, hfailed, (htrail.origin rfl hrejects.performs).later hbefore,
        (hs.earlier hbefore).isDispatch htrail hrejects.performs rfl, ⟨s₀, reported, hmade, hrejects⟩, ?_⟩
      exact fun _ _ _ hu hy hrun => h.yields_owed rfl hmade hrejects hu hy hrun

/-- **A final status is the last one**, of a transition that is only dispatched. -/
theorem Reaches.final_status (h : Reaches (.start definition targetName idText state listeners) w)
    (h' : Reaches (.start definition targetName idText state listeners) w') (hp : w.trace <+: w'.trace)
    (hs : w'.scene.OnlySent id) (ht : w.machine.transition? id = some t)
    (hfinal : t.progress.status.isFinal = true) : w'.machine.status? id = some t.progress.status := by
  have hfrozen : t.progress.status = .resolved ∨ t.progress.status = .rejected →
      w'.machine.status? id = some t.progress.status := fun hstatus => by
    have hbook := h.frozen h' hp hs (h.closed (hs.earlier hp) ht hstatus) ht
    rw [Machine.status?, hbook, Option.map_some]
  cases hstatus : t.progress.status with
  | pending => simp [hstatus, Status.isFinal] at hfinal
  | resolving => simp [hstatus, Status.isFinal] at hfinal
  | resolved => exact hstatus ▸ hfrozen (.inl hstatus)
  | rejected => exact hstatus ▸ hfrozen (.inr hstatus)
  | aborted =>
    obtain ⟨deeds, hdeeds⟩ := hp
    have heq := h.sound.trail.status_eq h'.sound.trail hdeeds.symm ht
    rw [hstatus, Status.foldl_aborted] at heq
    exact heq

/-- **Wherever the host looks, the book of a transition agrees with itself**, if the transition is only dispatched
and only aborted by the machine. What is active is pending or resolving. A pending transition has an empty book,
a resolving one runs its phases, a resolved one had no failure, and a rejected one has the rejection that its
dispatch came to. A final status is the last one. -/
theorem book_consistent {spec : Json} {inline : List (InlineHook κ)} {targetName : String}
    {idText : TransitionId → String} {initialState : Option String}
    (hb : Machine.build spec inline targetName idText initialState listeners = .ok m)
    (h : Reaches m w) (hs : w.scene.OnlySent id) (ht : w.machine.transition? id = some t) :
    (id ∈ w.machine.active → t.progress.status = .pending ∨ t.progress.status = .resolving) ∧
      (t.progress.status = .pending → t.progress = .fresh) ∧
      (t.progress.status = .resolving → t.progress.isResolving = some true ∧ t.progress.isRejected = none) ∧
      (t.progress.status = .resolved → t.progress.isResolving = some false ∧ t.progress.isRejected = some false ∧
        t.progress.rejection = none ∧ t.progress.rejections = []) ∧
      (t.progress.status = .rejected → t.progress.isResolving = some false ∧ t.progress.isRejected = some true ∧
        ∃ f purpose r, t.progress.rejection = some r ∧ w.RejectedBy m id f purpose r) ∧
      (t.progress.status.isFinal = true → ∀ w', Reaches m w' → w.trace <+: w'.trace → w'.scene.OnlySent id →
        w'.machine.status? id = some t.progress.status) := by
  obtain ⟨definition, state, rfl, -⟩ := Machine.build_eq_ok hb
  have hproper : t.progress.Proper := (h.kept.books id t hs ht).proper
  refine ⟨fun hactive => ?_, hproper.pending, fun hstatus => ?_, fun hstatus => ?_, fun hstatus => ?_,
    fun hfinal w' h' hp hs' => h.final_status h' hp hs' ht hfinal⟩
  · obtain ⟨f, hd⟩ := Machine.isOpen_iff.1 (h.sound.trail.orderly.mem_active.1 hactive).1
    have hlive : w.machine.isAborted id = false := h.sound.trail.active_not_aborted hs hactive
    rw [Machine.isAborted, ht, Option.any_some, Transition.isAborted, decide_eq_false_iff_not] at hlive
    have hopen : t.progress.Open := h.open_of_dispatches hs hd ht
    exact hopen.status.imp_right fun hstatus => hstatus.resolve_right hlive
  · have hunderway := hproper.resolving hstatus
    exact ⟨hunderway.isResolving, hunderway.isRejected⟩
  · have hdone := hproper.resolved hstatus
    exact ⟨hdone.isResolving, hdone.isRejected, hdone.rejection, hdone.rejections⟩
  · obtain ⟨f, purpose, r, hfailed, hby⟩ := h.rejectedBy hs ht hstatus
    exact ⟨hfailed.isResolving, hfailed.isRejected, f, purpose, r, hfailed.rejection, hby⟩

/-- The switch is about to be halted, and is poked meanwhile. The callback that is to halt it has been called,
and is going to fail. -/
def Switch.failing : World Unit Unit :=
  ((((World.start machine).begin (.send "halt" [])).begin (.send "poke" [])).begin (.poll 0)).reply answers

theorem Switch.reaches_failing : Reaches machine failing :=
  (((Reaches.start.begin (.send "halt" [])).begin (.send "poke" [])).begin (.poll 0)).next
    (World.next_reply rfl answers)

/-- The callback that is to halt the switch has failed. -/
theorem book_consistent_failing : ∃ t f purpose r,
    (Switch.failing.reply Switch.answers).machine.transition? 0 = some t ∧ t.progress.status = .rejected ∧
      t.progress.isResolving = some false ∧ t.progress.isRejected = some true ∧ t.progress.rejection = some r ∧
      (Switch.failing.reply Switch.answers).RejectedBy Switch.machine 0 f purpose r := by
  have hreaches := Switch.reaches_failing.next (World.next_reply rfl Switch.answers)
  have hsent : (Switch.failing.reply Switch.answers).scene.OnlySent 0 := by
    unfold Scene.OnlySent
    decide
  obtain ⟨-, -, -, -, hrejected, -⟩ := book_consistent Switch.build_spec hreaches hsent rfl
  obtain ⟨hresolving, hrejecting, f, purpose, r, hrejection, hby⟩ := hrejected rfl
  exact ⟨_, f, purpose, r, rfl, rfl, hresolving, hrejecting, hrejection, hby⟩

end StateEngine
