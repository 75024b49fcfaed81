import StateEngine.Proofs.Blindness

/-!
# An abort is bookkeeping

To abort a transition by hand changes its status, and nothing else comes of it before a dispatch of the transition
is committed. So two runs of a future that only differ in aborts go side by side, move by move.

* `Abreast`: two polls that have the same left to do, or are both about to settle.
* `Moment.Next.matches`: **a move that the one run makes the other can make as well**.
* `Moment.Runs.matches`: runs that only differ in aborts.
* `abort_bookkeeping`: **an abort changes the status, and nothing else**.
-/

namespace StateEngine

open Program

variable {κ φ : Type} {m : Machine κ φ} {f : FutureId} {id : TransitionId} {t : Transition} {direct : Prop}

/-! ## Side by side -/

/-- **Two polls side by side**: the same is left to do of both, or both are about to settle. -/
inductive Abreast (f : FutureId) (id : TransitionId) (direct : Prop) :
    Option (Program κ φ (Option Polled)) → Option (Program κ φ (Option Polled)) → Prop where
  | idle : Abreast f id direct none none
  | same {p : Program κ φ (Option Polled)} : p.Blind f id direct → Abreast f id direct (some p) (some p)
  | settling {p p' : Program κ φ (Option Polled)} : ¬ direct → p.Settles id → p'.Settles id →
      Abreast f id direct (some p) (some p')

theorem Move.aborts_iff {move : Move κ φ} : move.aborts id = true ↔ move = .other (.note id .abort) := by
  constructor
  · intro h
    unfold aborts at h
    split at h
    · rw [beq_iff_eq.1 h]
    · exact nomatch h
  · rintro rfl
    exact beq_self_eq_true id

namespace Moment

variable {x x' y y' z : Moment κ φ} {move : Move κ φ} {moves moves' : List (Move κ φ)}

/-- **Two runs side by side.** -/
structure Matches (f : FutureId) (id : TransitionId) (direct : Prop) (x x' : Moment κ φ) : Prop where
  machine : x.machine.Matches f id direct x'.machine
  abreast : Abreast f id direct x.poll? x'.poll?

/-- An abort in the one run. -/
theorem Next.abort_left (h : x.Next f move y) (ha : move.aborts id = true) (hx : x.Matches f id direct x') :
    y.Matches f id direct x' := by
  cases Move.aborts_iff.1 ha
  cases h with
  | other hd => exact ⟨⟨hx.machine.agrees.abort_left, fun h => hd (hx.machine.directs h)⟩, hx.abreast⟩

/-- An abort in the other run. -/
theorem Matches.abort_right (hx : x.Matches f id direct x') (ha : move.aborts id = true) :
    ∃ y', x'.Next f move y' ∧ x.Matches f id direct y' := by
  cases Move.aborts_iff.1 ha
  have hagrees := hx.machine.agrees.abort_right
  exact ⟨⟨x'.machine.abort id, x'.poll?⟩, .other fun h => h, ⟨hagrees, hx.machine.directs⟩, hx.abreast⟩

/-- **A move that the one run makes the other can make as well**, unless it settles the dispatch. -/
theorem Next.matches (h : x.Next f move y) (hx : x.Matches f id direct x')
    (hs : direct ∨ move.settles id = false) : ∃ y', x'.Next f move y' ∧ y.Matches f id direct y' := by
  obtain ⟨m', poll'?⟩ := x'
  obtain ⟨hm, habreast⟩ := hx
  cases h with
  | @other m _ c hd =>
    have hagrees : (c.apply m).Agrees id (c.apply m') := hm.agrees.apply c
    have hd' : m'.Directs f → (c.apply m').Directs f := fun h g hg =>
      hd (fun g hg => h g ((hm.agrees.future_eq f).trans hg)) g ((hagrees.future_eq f).symm.trans hg)
    exact ⟨_, .other hd', ⟨hagrees, fun h => hd (hm.directs h)⟩, habreast⟩
  | poll =>
    cases habreast with
    | idle => exact ⟨_, .poll, hm, .same (poll_blind f id direct)⟩
  | @look m next =>
    cases habreast with
    | settling _ hp _ => exact hp.elim
    | same hblind =>
      rcases hblind m m' hm with ⟨hsame, hnext⟩ | ⟨hd, hp, hp'⟩
      · refine ⟨_, .look, hm, ?_⟩
        rw [← hsame]
        exact .same hnext
      · exact ⟨_, .look, hm, .settling hd hp hp'⟩
  | @change m c next =>
    cases habreast with
    | same hblind =>
      obtain ⟨hdirects, hnext⟩ := hblind
      exact ⟨_, .change, ⟨hm.agrees.apply c, hdirects m hm.directs⟩, .same hnext⟩
    | settling hd hp _ =>
      have hsettles := hs.resolve_left hd
      cases c with
      | commit g i record => exact absurd (beq_iff_eq.2 hp) (Bool.eq_false_iff.1 hsettles)
      | release g i => exact absurd (beq_iff_eq.2 hp) (Bool.eq_false_iff.1 hsettles)
      | _ => exact hp.elim
  | answer reply =>
    cases habreast with
    | settling _ hp _ => exact hp.elim
    | same hblind => exact ⟨_, .answer reply, hm, .same (hblind reply)⟩
  | yield =>
    cases habreast with
    | settling _ hp _ => exact hp.elim
    | same _ => exact ⟨_, .yield, hm, .idle⟩

theorem Next.unique (h : x.Next f move y) (h' : x.Next f move y') : y = y' := by
  cases h with
  | other _ => cases h'; rfl
  | poll => cases h'; rfl
  | look => cases h'; rfl
  | change => cases h'; rfl
  | answer _ => cases h'; rfl
  | yield => cases h'; rfl

theorem Runs.unique (h : x.Runs f moves y) (h' : x.Runs f moves y') : y = y' := by
  induction h with
  | nil => cases h'; rfl
  | cons hn _ ih =>
    cases h' with
    | cons hn' h' =>
      cases hn.unique hn'
      exact ih h'

theorem Runs.append (h : x.Runs f moves y) (h' : y.Runs f moves' z) : x.Runs f (moves ++ moves') z := by
  induction h with
  | nil _ => exact h'
  | cons hn _ ih => exact .cons hn (ih h')

/-- Any number of aborts in the other run. -/
theorem Matches.aborts (hx : x.Matches f id direct x') (ha : ∀ move ∈ moves, move.aborts id = true) :
    ∃ y', x'.Runs f moves y' ∧ x.Matches f id direct y' := by
  induction moves generalizing x' with
  | nil => exact ⟨x', .nil x', hx⟩
  | cons move moves ih =>
    obtain ⟨hmove, hmoves⟩ := List.forall_mem_cons.1 ha
    obtain ⟨y', hn, hy⟩ := hx.abort_right hmove
    obtain ⟨z', hr, hz⟩ := ih hy hmoves
    exact ⟨z', .cons hn hr, hz⟩

/-- **Runs that only differ in aborts go side by side**, until the dispatch settles. -/
theorem Runs.matches (h : x.Runs f moves y) : ∀ {x' moves'}, x.Matches f id direct x' →
    (direct ∨ ∀ move ∈ moves, move.settles id = false) →
    moves.filter (fun move => !move.aborts id) = moves'.filter (fun move => !move.aborts id) →
    ∃ y', x'.Runs f moves' y' ∧ y.Matches f id direct y' := by
  induction h with
  | nil x =>
    intro x' moves' hx _ hsame
    refine hx.aborts fun move hmove => ?_
    have hnone := List.filter_eq_nil_iff.1 hsame.symm move hmove
    exact Bool.of_not_eq_false fun hfalse => hnone (by rw [hfalse]; rfl)
  | @cons x y z move moves hn _ ih =>
    intro x' moves' hx hs hsame
    have hlater : direct ∨ ∀ move ∈ moves, move.settles id = false :=
      hs.imp_right fun h => (List.forall_mem_cons.1 h).2
    cases ha : move.aborts id with
    | true =>
      rw [List.filter_cons_of_neg (by simp [ha])] at hsame
      exact ih (hn.abort_left ha hx) hlater hsame
    | false =>
      rw [List.filter_cons_of_pos (by simp [ha])] at hsame
      -- the other run aborts first, as often as it does, and then makes the same move
      obtain ⟨before, after, rfl, hbefore, -, hafter⟩ := List.filter_eq_cons_iff.1 hsame.symm
      obtain ⟨x₁, hruns, hx₁⟩ := hx.aborts fun move hmove =>
        Bool.of_not_eq_false fun hfalse => hbefore move hmove (by rw [hfalse]; rfl)
      obtain ⟨y₁, hn₁, hy₁⟩ := hn.matches hx₁ (hs.imp_right fun h => h move List.mem_cons_self)
      obtain ⟨z', hruns', hz⟩ := ih hy₁ hlater hafter.symm
      exact ⟨z', hruns.append (.cons hn₁ hruns'), hz⟩

theorem Next.grows (h : x.Next f move y) : x.machine.Grows y.machine := by
  cases h with
  | @other m poll? c _ => exact c.grows
  | @change m c next => exact c.grows
  | poll => exact .of_eq rfl
  | look => exact .of_eq rfl
  | answer _ => exact .of_eq rfl
  | yield => exact .of_eq rfl

theorem Runs.grows (h : x.Runs f moves y) : x.machine.Grows y.machine := by
  induction h with
  | nil x => exact .of_eq rfl
  | cons hn _ ih => exact hn.grows.trans ih

/-- **An abort is never taken back.** -/
theorem Runs.isAborted (h : x.Runs f moves y) (hlt : id < x.machine.transitions.length)
    (ha : ∃ move ∈ moves, move.aborts id = true) : y.machine.isAborted id = true := by
  induction h with
  | nil x =>
    obtain ⟨move, hmove, -⟩ := ha
    exact nomatch hmove
  | @cons x y z move moves hn hruns ih =>
    obtain ⟨other, hother, haborts⟩ := ha
    rcases List.mem_cons.1 hother with rfl | hlater
    · refine hruns.grows.isAborted ?_
      cases Move.aborts_iff.1 haborts
      cases hn with
      | @other m poll? c _ =>
        obtain ⟨t, ht⟩ := m.transition_of_lt hlt
        have hbook : (m.abort id).transition? id = some (t.mark .abort) := by
          rw [Machine.abort, Machine.transition_note, ht, Option.map_some, if_pos rfl]
        change (m.abort id).isAborted id = true
        rw [Machine.isAborted, hbook, Option.any_some]
        exact t.isAborted_mark_abort
    · exact ih (Nat.lt_of_lt_of_le hlt hn.grows.length_le) ⟨other, hlater, haborts⟩

end Moment

/-- **An abort changes the status, and nothing else.** A future is polled, and others do what they like between any
two steps of its polls. If it performs a transition directly, any list of moves that only differs from this run in
aborts of some transition is a run as well: the same requests are made in the same polls, with the same outcomes.
Wherever the two runs are, they agree on everything but the status of the transition, and its status is that of an
abort if there was one. So they do if the future is a dispatch, until it settles with the transition, for then it
reads the status. -/
theorem abort_bookkeeping {moves moves' : List (Move κ φ)} {x : Moment κ φ}
    (hd : m.Directs f ∨ ∀ move ∈ moves, move.settles id = false) (ht : m.transition? id = some t)
    (h : Moment.Runs f ⟨m, none⟩ moves x)
    (hsame : moves.filter (fun move => !move.aborts id) = moves'.filter fun move => !move.aborts id) :
    (∃ x', Moment.Runs f ⟨m, none⟩ moves' x') ∧
      ∀ x', Moment.Runs f ⟨m, none⟩ moves' x' → x.machine.Agrees id x'.machine ∧
        ∃ t₁ t₁', x.machine.transition? id = some t₁ ∧ x'.machine.transition? id = some t₁' ∧
          t₁.progress.Agrees t₁'.progress ∧
          ((∃ move ∈ moves, move.aborts id = true) → t₁.progress.status = .aborted) := by
  have hstart : (⟨m, none⟩ : Moment κ φ).Matches f id (m.Directs f) ⟨m, none⟩ := ⟨⟨rfl, fun h => h⟩, .idle⟩
  obtain ⟨y', hruns, hmatches⟩ := h.matches hstart hd hsame
  refine ⟨⟨y', hruns⟩, fun x' hx' => ?_⟩
  cases hruns.unique hx'
  obtain ⟨t₁, ht₁, -⟩ := h.grows id t ht
  obtain ⟨p, hp, hagrees⟩ := hmatches.machine.agrees.transition ht₁
  refine ⟨hmatches.machine.agrees, t₁, _, ht₁, hp, hagrees, fun ha => ?_⟩
  have haborted := h.isAborted (Machine.transition_lt ht) ha
  rw [Machine.isAborted, ht₁, Option.any_some, Transition.isAborted, decide_eq_true_eq] at haborted
  exact haborted

namespace Switch

/-- The halt is performed directly, and has not been polled yet. -/
def performing : World Unit Unit := ((World.start machine).begin (.transitionFor "halt" [])).begin (.perform 0 none)

/-- The poll of the halt, with others about while its callback runs. The callback fails. -/
def haltMoves (others : List (Move Unit Unit)) : List (Move Unit Unit) :=
  [.poll, .look, .change (.setStage 0 .busy), .look, .change (.note 0 .begin), .look, .change (.note 0 .begin),
      .look, .answer (.callback "explode") (some ()), .change (.note 0 .begin)] ++ others ++
    [.answer (.call () ((Transition.fresh (record "halt" "off" "stopped" ["explode"]) []).context .willEnter))
        (.error (.string "boom")),
      .change (.note 0 (.settle .willEnter "transition:explode" (.error (.string "boom")))),
      .change (.note 0 (.reject (.callback (.string "boom")))), .change (.closeFuture 0),
      .yield (some (.rejected (.callback (.string "boom"))))]

end Switch

/-- Whoever aborts the halt while its callback runs, the callback fails, and the halt rejects. -/
theorem abort_bookkeeping_halting :
    ∃ x x' t t', Moment.Runs 0 ⟨Switch.performing.machine, none⟩ (Switch.haltMoves [.other (.note 0 .abort)]) x ∧
      Moment.Runs 0 ⟨Switch.performing.machine, none⟩ (Switch.haltMoves []) x' ∧
      x.machine.transition? 0 = some t ∧ x'.machine.transition? 0 = some t' ∧ t.progress.Agrees t'.progress ∧
      t.progress.status = .aborted ∧ t.progress.isRejected = some true := by
  have hdirects : Switch.performing.machine.Directs 0 := by
    intro x hx
    cases hx
    rfl
  have hruns : Moment.Runs 0 ⟨Switch.performing.machine, none⟩ (Switch.haltMoves [.other (.note 0 .abort)]) _ :=
    .cons .poll <| .cons .look <| .cons .change <| .cons .look <| .cons .change <| .cons .look <| .cons .change <|
      .cons .look <| .cons (.answer _) <| .cons .change <| .cons (.other fun h => h) <| .cons (.answer _) <|
      .cons .change <| .cons .change <| .cons .change <| .cons .yield (.nil _)
  have hsame : (Switch.haltMoves [.other (.note 0 .abort)]).filter (fun move => !move.aborts 0) =
      (Switch.haltMoves []).filter fun move => !move.aborts 0 := rfl
  obtain ⟨⟨x', hx'⟩, hall⟩ := abort_bookkeeping (.inl hdirects) rfl hruns hsame
  obtain ⟨-, t, t', ht, ht', hagrees, haborted⟩ := hall x' hx'
  have haborts : ∃ move ∈ Switch.haltMoves [.other (.note 0 .abort)], move.aborts 0 = true :=
    ⟨.other (.note 0 .abort), List.mem_append_left _ (List.mem_append_right _ List.mem_cons_self), rfl⟩
  have hrejected : t.progress.isRejected = some true := by
    cases ht
    rfl
  exact ⟨_, x', t, t', hruns, hx', ht, ht', hagrees, haborted haborts, hrejected⟩

end StateEngine
