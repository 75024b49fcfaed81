import StateEngine.Proofs.Abort
import StateEngine.Proofs.Course

/-!
# The status of a transition

A status is to move along: from pending to resolving, and on to one of the three final ones, where it
is to stay. It does move along. But an abort is written into every book, and a transition that is
performed a second time settles a second time, so that a final status is not the last one.

* `Status.after`: the status after a mark, and `Mark.Overrules`: the marks that change a final one.
* `Change.marks`, `Change.transition_apply`: **the marks of a change, and the books after it**.
* `Trail.book_eq`: **a book at a later point of a run** is the old one with the marks made since.
* `status_final_iff`: a status never moves back, an abort is never taken back, and **a final status stays
  exactly as long as nothing overrules it**.
-/

namespace StateEngine

variable {κ φ : Type} {m : Machine κ φ}

/-! ## Marks -/

namespace Status

/-- How far a transition is in its life. No final status is further than another. -/
def rank : Status → Nat
  | pending => 0
  | resolving => 1
  | _ => 2

/-- The status after a mark. -/
def after (status : Status) : Mark → Status
  | .begin => if status = pending then resolving else status
  | .settle _ _ _ => status
  | .resolve => if status = aborted then aborted else resolved
  | .reject _ => if status = aborted then aborted else rejected
  | .abort => aborted

theorem rank_le (status : Status) : status.rank ≤ 2 := by
  cases status <;> decide

/-- **No mark moves a status back.** -/
theorem rank_after (status : Status) (mark : Mark) : status.rank ≤ (status.after mark).rank := by
  have hle := status.rank_le
  cases mark with
  | begin =>
    unfold after
    dsimp only
    split
    · rename_i h
      rw [h]
      decide
    · exact Nat.le_refl _
  | settle phase id outcome => exact Nat.le_refl _
  | abort => exact hle
  | _ =>
    unfold after
    dsimp only
    split
    · exact hle
    · exact hle

theorem after_aborted (mark : Mark) : aborted.after mark = aborted := by
  cases mark <;> rfl

end Status

/-- The final status that a mark stands for. -/
def Mark.verdict? : Mark → Option Status
  | .resolve => some .resolved
  | .reject _ => some .rejected
  | .abort => some .aborted
  | _ => none

/-- **Whether a mark overrules a final status**: it stands for another one, and the status is not that of
an abort. -/
def Mark.Overrules (mark : Mark) (status : Status) : Prop :=
  status ≠ .aborted ∧ ∃ verdict, mark.verdict? = some verdict ∧ verdict ≠ status

/-- A final status stays after a mark exactly if the mark does not overrule it. -/
theorem Status.after_eq_iff {status : Status} (h : status.isFinal = true) (mark : Mark) :
    status.after mark = status ↔ ¬ mark.Overrules status := by
  unfold Mark.Overrules
  by_cases ha : status = .aborted
  · subst ha
    simp [Status.after_aborted]
  · have hp : status ≠ .pending := by
      rintro rfl
      exact nomatch h
    cases mark <;> simp [Status.after, Mark.verdict?, ha, hp]

theorem Transition.status_mark (t : Transition) (mark : Mark) :
    (t.mark mark).progress.status = t.progress.status.after mark := by
  cases mark with
  | settle phase id outcome => cases outcome <;> rfl
  | _ => rfl

/-- The status after some marks. -/
theorem Transition.status_markAll (t : Transition) (marks : List Mark) :
    (t.markAll marks).progress.status = marks.foldl Status.after t.progress.status := by
  induction marks generalizing t with
  | nil => rfl
  | cons mark rest ih =>
    have htail := ih (t.mark mark)
    rw [t.status_mark mark] at htail
    exact htail

namespace Status

theorem rank_foldl (marks : List Mark) (status : Status) :
    status.rank ≤ (marks.foldl after status).rank := by
  induction marks generalizing status with
  | nil => exact Nat.le_refl _
  | cons mark rest ih => exact Nat.le_trans (status.rank_after mark) (ih _)

theorem foldl_aborted (marks : List Mark) : marks.foldl after aborted = aborted := by
  induction marks with
  | nil => rfl
  | cons mark rest ih => rw [List.foldl_cons, after_aborted, ih]

/-- What overrules nothing leaves a final status as it is. -/
theorem foldl_eq {status : Status} (h : status.isFinal = true) {marks : List Mark}
    (hm : ∀ mark ∈ marks, ¬ mark.Overrules status) : marks.foldl after status = status := by
  induction marks with
  | nil => rfl
  | cons mark rest ih =>
    obtain ⟨hmark, hrest⟩ := List.forall_mem_cons.1 hm
    rw [List.foldl_cons, (after_eq_iff h mark).2 hmark, ih hrest]

end Status

/-! ## The marks of a change -/

/-- The transitions that a change aborts. -/
def Change.aborts (m : Machine κ φ) : Change φ → List TransitionId
  | .fail _ id _ => m.active.filter (· != id)
  | .abortActive id => m.active.filter (· == id)
  | .abortAll => m.active
  | .dropFuture f => m.active.filter fun i =>
    (m.future? f).any fun x => !x.stage.isBusy && x.purpose.isDispatch && x.transition == i
  | _ => []

/-- **The marks that a change makes in the book of a transition.** -/
def Change.marks (m : Machine κ φ) (c : Change φ) (i : TransitionId) : List Mark :=
  match c with
  | .note id mark => if i = id then [mark] else []
  | c => if i ∈ c.aborts m then [.abort] else []

/-- A book in which an abort is written, or not. -/
theorem Transition.markAll_abort (t : Transition) (p : Prop) [Decidable p] :
    t.markAll (if p then [.abort] else []) = if p then t.mark .abort else t := by
  split <;> rfl

theorem Change.mem_aborts_abortActive {id i : TransitionId} :
    i ∈ (Change.abortActive (φ := φ) id).aborts m ↔ i = id ∧ id ∈ m.active := by
  rw [aborts, List.mem_filter, beq_iff_eq]
  constructor
  · rintro ⟨hi, rfl⟩
    exact ⟨rfl, hi⟩
  · rintro ⟨rfl, hi⟩
    exact ⟨hi, rfl⟩

/-- Giving a future up aborts its transition if it is an idle dispatch. -/
theorem Change.mem_aborts_dropFuture {f : FutureId} {x : Future φ} (hf : m.future? f = some x)
    {i : TransitionId} :
    i ∈ (Change.dropFuture f).aborts m ↔
      (x.stage.isBusy = false ∧ x.purpose.isDispatch = true) ∧ i = x.transition ∧
        x.transition ∈ m.active := by
  rw [aborts, List.mem_filter, hf]
  simp only [Option.any_some, Bool.and_eq_true, Bool.not_eq_true', beq_iff_eq]
  constructor
  · rintro ⟨hi, hx, rfl⟩
    exact ⟨hx, rfl, hi⟩
  · rintro ⟨hx, rfl, hi⟩
    exact ⟨hi, hx, rfl⟩

theorem Machine.transition_of_transitions {m' : Machine κ φ} (h : m'.transitions = m.transitions)
    (i : TransitionId) : m'.transition? i = m.transition? i := by
  unfold transition?
  rw [h]

/-- The book of a transition after its future was given up. -/
theorem Change.transition_dropFuture (f : FutureId) {i : TransitionId} {t : Transition}
    (h : m.transition? i = some t) :
    (m.dropFuture f).transition? i =
      some (if i ∈ (Change.dropFuture f).aborts m then t.mark .abort else t) := by
  have hkept : i ∉ (Change.dropFuture f).aborts m → (m.dropFuture f).transitions = m.transitions →
      (m.dropFuture f).transition? i =
        some (if i ∈ (Change.dropFuture f).aborts m then t.mark .abort else t) := fun hi hd => by
    rw [if_neg hi, Machine.transition_of_transitions hd, h]
  cases hf : m.future? f with
  | none =>
    refine hkept ?_ (by rw [Machine.dropFuture_of_none hf])
    rw [aborts, hf]
    simp
  | some x =>
    have hmem := Change.mem_aborts_dropFuture hf (i := i)
    cases hb : x.stage.isBusy with
    | true =>
      refine hkept (fun hi => ?_) (by rw [Machine.dropFuture_of_busy hf hb])
      exact Bool.noConfusion ((hmem.1 hi).1.1.symm.trans hb)
    | false =>
      cases hd : x.purpose.isDispatch with
      | false =>
        refine hkept (fun hi => ?_) (by simp [Machine.dropFuture, hf, hb, hd, Machine.closeFuture])
        exact Bool.noConfusion ((hmem.1 hi).1.2.symm.trans hd)
      | true =>
        have hdrop : m.dropFuture f = (m.closeFuture f).abortActive x.transition := by
          simp [Machine.dropFuture, hf, hb, hd]
        have hclosed : (m.closeFuture f).transition? i = some t := h
        rw [hdrop, Machine.transition_abortActive, hclosed, Option.map_some]
        simp only [hmem, hb, hd, and_self, true_and]
        rfl

/-- **The books after a change.** -/
theorem Change.transition_apply (c : Change φ) {i : TransitionId} {t : Transition}
    (h : m.transition? i = some t) :
    (c.apply m).transition? i = some (t.markAll (c.marks m i)) := by
  have hsame : ∀ {m' : Machine κ φ}, m'.transitions = m.transitions →
      m'.transition? i = some (t.markAll []) :=
    fun ht => (Machine.transition_of_transitions ht i).trans h
  have hnew : ∀ {m' : Machine κ φ} {u : Transition}, m'.transitions = m.transitions ++ [u] →
      m'.transition? i = some (t.markAll []) := by
    intro m' u ht
    have hi := Machine.transition_lt h
    unfold Machine.transition? at h ⊢
    rw [ht, List.getElem?_append_left hi]
    exact h
  cases c with
  | note id mark =>
    rw [apply, Machine.transition_note, h, Option.map_some, marks]
    split <;> rfl
  | add record args => exact hnew rfl
  | launch record args => exact hnew rfl
  | relaunch f rejection record args => exact hnew rfl
  | fail f id rejection =>
    have hbook := Machine.getElem_abortIn (m.active.filter (· != id)) i m.transitions
    rw [show m.transitions[i]? = some t from h, Option.map_some, ← t.markAll_abort] at hbook
    rw [apply, Machine.fail_eq]
    exact hbook
  | abortActive id =>
    rw [apply, Machine.transition_abortActive, h, Option.map_some, ← t.markAll_abort]
    simp only [marks, mem_aborts_abortActive]
  | abortAll =>
    rw [apply, Machine.transition_abortAll, h, Option.map_some, ← t.markAll_abort]
    rfl
  | dropFuture f =>
    rw [apply, transition_dropFuture f h, ← t.markAll_abort]
    rfl
  | _ => exact hsame rfl

/-! ## Later points -/

/-- The marks that a deed makes in the book of a transition. -/
def Deed.marks (i : TransitionId) : Deed κ φ → List Mark
  | .changed m c => c.marks m i
  | .asked _ => []

/-- The status of a transition. -/
def Machine.status? (m : Machine κ φ) (i : TransitionId) : Option Status :=
  (m.transition? i).map (·.progress.status)

/-- **A book at a later point of a run** is the old one with the marks made since. -/
theorem Trail.book_eq {s s' : Scene κ φ} (hs : Trail m s) (hs' : Trail m s')
    {deeds : List (Deed κ φ)} (hd : s'.trace = s.trace ++ deeds) {i : TransitionId} {t : Transition}
    (h : s.machine.transition? i = some t) :
    s'.machine.transition? i = some (t.markAll (deeds.flatMap (Deed.marks i))) := by
  have hlater : ∃ since, s'.trace = s.trace ++ since ∧
      s'.machine.transition? i = some (t.markAll (since.flatMap (Deed.marks i))) := by
    refine hs.later hs' ⟨deeds, hd.symm⟩ (I := fun s' => ∃ since, s'.trace = s.trace ++ since ∧
      s'.machine.transition? i = some (t.markAll (since.flatMap (Deed.marks i)))) ?_ ?_ ?_
    · rintro s₁ own c - ⟨since, htrace, hbook⟩ -
      refine ⟨since ++ [.changed s₁.machine c], by rw [Scene.make, htrace, List.append_assoc], ?_⟩
      have hnext := c.transition_apply hbook
      rw [List.flatMap_append, List.flatMap_singleton, Transition.markAll, List.foldl_append]
      exact hnext
    · rintro s₁ request ⟨since, htrace, hbook⟩
      refine ⟨since ++ [.asked request], by rw [Scene.ask, htrace, List.append_assoc], ?_⟩
      rw [List.flatMap_append, List.flatMap_singleton, Deed.marks, List.append_nil]
      exact hbook
    · exact ⟨[], (List.append_nil _).symm, h⟩
  obtain ⟨since, htrace, hbook⟩ := hlater
  rw [List.append_cancel_left (hd.symm.trans htrace)]
  exact hbook

/-- What was done up to some point of a run was a run. -/
theorem Trail.of_prefix {s : Scene κ φ} (h : Trail m s) {trace : List (Deed κ φ)}
    (hp : trace <+: s.trace) : ∃ s₀, Trail m s₀ ∧ s₀.trace = trace := by
  induction h with
  | start => exact ⟨_, .start, (List.prefix_nil.1 hp).symm⟩
  | make ht hc ih =>
    rcases List.prefix_concat_iff.1 hp with heq | hlt
    · exact ⟨_, ht.make hc, heq.symm⟩
    · exact ih hlt
  | ask ht hr ih =>
    rcases List.prefix_concat_iff.1 hp with heq | hlt
    · exact ⟨_, ht.ask hr, heq.symm⟩
    · exact ih hlt

/-- The status of a transition at a later point of a run. -/
theorem Trail.status_eq {s s' : Scene κ φ} (hs : Trail m s) (hs' : Trail m s')
    {deeds : List (Deed κ φ)} (hd : s'.trace = s.trace ++ deeds) {i : TransitionId} {t : Transition}
    (h : s.machine.transition? i = some t) :
    s'.machine.status? i = some ((deeds.flatMap (Deed.marks i)).foldl Status.after t.progress.status) := by
  rw [Machine.status?, hs.book_eq hs' hd h, Option.map_some, t.status_markAll]

/-- A deed makes one mark in a book at most. -/
theorem Deed.marks_of_mem {d : Deed κ φ} {i : TransitionId} {mark : Mark} (h : mark ∈ d.marks i) :
    d.marks i = [mark] := by
  cases d with
  | asked request => exact nomatch h
  | changed m c =>
    have hle : (c.marks m i).length ≤ 1 := by
      unfold Change.marks
      split <;> split <;> simp
    have hmem : mark ∈ c.marks m i := h
    obtain ⟨only, honly⟩ := List.length_eq_one_iff.1 (Nat.le_antisymm hle (List.length_pos_of_mem h))
    rw [honly, List.mem_singleton] at hmem
    rw [hmem]
    exact honly

variable {w w' : World κ φ}

/-- **How a status moves.** It never moves back, and no abort is ever taken back. A final status stays the
same at all points up to a later one exactly if no mark that was made until then overrules it. -/
theorem status_final_iff (h : Reaches m w) (h' : Reaches m w') (hp : w.trace <+: w'.trace)
    {i : TransitionId} {t : Transition} (ht : w.machine.transition? i = some t) :
    ∃ t', w'.machine.transition? i = some t' ∧
      t.progress.status.rank ≤ t'.progress.status.rank ∧
      (t.progress.status = .aborted → t'.progress.status = .aborted) ∧
      (t.progress.status.isFinal = true →
        ((∀ s, Trail m s → w.trace <+: s.trace → s.trace <+: w'.trace →
            s.machine.status? i = some t.progress.status) ↔
          ∀ d ∈ w.deeds w', ∀ mark ∈ d.marks i, ¬ mark.Overrules t.progress.status)) := by
  obtain ⟨deeds, hdeeds⟩ := id hp
  have hw := h.sound.trail
  have hw' := h'.sound.trail
  have hbook := hw.book_eq hw' hdeeds.symm ht
  have hstatus := t.status_markAll (deeds.flatMap (Deed.marks i))
  rw [World.deeds_eq hdeeds.symm]
  refine ⟨_, hbook, ?_, ?_, fun hfinal => ⟨?_, ?_⟩⟩
  · rw [hstatus]
    exact Status.rank_foldl _ _
  · intro haborted
    rw [hstatus, haborted]
    exact Status.foldl_aborted _
  · intro hall d hd mark hmark hover
    -- the status before the deed is the final one, and after it that of the mark
    obtain ⟨before, after, rfl⟩ := List.append_of_mem hd
    have hpre : w.trace ++ before <+: w'.trace := ⟨d :: after, by rw [← hdeeds, List.append_assoc]⟩
    have hpost : w.trace ++ (before ++ [d]) <+: w'.trace :=
      ⟨after, by rw [← hdeeds]; simp⟩
    obtain ⟨s₁, hs₁, htrace₁⟩ := hw'.of_prefix hpre
    obtain ⟨s₂, hs₂, htrace₂⟩ := hw'.of_prefix hpost
    have hbefore := hall s₁ hs₁ ⟨before, htrace₁.symm⟩ (htrace₁ ▸ hpre)
    have hafter := hall s₂ hs₂ ⟨before ++ [d], htrace₂.symm⟩ (htrace₂ ▸ hpost)
    rw [hw.status_eq hs₁ htrace₁ ht, Option.some.injEq] at hbefore
    rw [hw.status_eq hs₂ htrace₂ ht, List.flatMap_append, List.flatMap_singleton,
      Deed.marks_of_mem hmark, List.foldl_append, hbefore, Option.some.injEq] at hafter
    exact (Status.after_eq_iff hfinal mark).1 hafter hover
  · rintro hnone s hs ⟨since, hsince⟩ hle
    rw [hw.status_eq hs hsince.symm ht, Option.some.injEq]
    refine Status.foldl_eq hfinal fun mark hmark => ?_
    obtain ⟨d, hd, hmark⟩ := List.mem_flatMap.1 hmark
    -- what was done up to the point was done up to the end
    have hsub : since <+: deeds := by
      rw [← hsince, ← hdeeds] at hle
      exact (List.prefix_append_right_inj _).1 hle
    exact hnone d (hsub.subset hd) mark hmark

/-- The switch was turned on. -/
def Switch.turnedOn : World Unit Unit := ((World.start machine).begin (.send "run" [])).begin (.poll 0)

theorem Switch.reaches_turnedOn : Reaches machine turnedOn :=
  (Reaches.start.begin (.send "run" [])).begin (.poll 0)

/-- The switch is on, and then the transition that turned it on is aborted. -/
theorem status_final_iff_aborted :
    Switch.turnedOn.machine.status? 0 = some .resolved ∧
      (Switch.turnedOn.begin (.abort 0)).machine.status? 0 = some .aborted ∧
      ¬ (∀ d ∈ Switch.turnedOn.deeds (Switch.turnedOn.begin (.abort 0)), ∀ mark ∈ d.marks 0,
        ¬ mark.Overrules .resolved) := by
  have hlater := Switch.reaches_turnedOn.begin (.abort 0)
  have hp : Switch.turnedOn.trace <+: (Switch.turnedOn.begin (.abort 0)).trace :=
    World.trace_proceed (.abort 0)
  obtain ⟨t', -, -, -, hfinal⟩ := status_final_iff Switch.reaches_turnedOn hlater
    hp (i := 0) rfl
  refine ⟨rfl, rfl, fun hnone => ?_⟩
  have hsame := (hfinal rfl).2 hnone _ hlater.sound.trail hp List.prefix_rfl
  exact absurd hsame (by decide)

end StateEngine
