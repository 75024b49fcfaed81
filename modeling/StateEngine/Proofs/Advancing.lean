import StateEngine.Proofs.Turns

/-!
# Phases that a driver performs

A phase finds its callbacks, calls them and polls the calls until each has its outcome. With a driver it
comes to what the outcomes of its callbacks are, and so do the phases of a whole transition. As long as one
of them waits, each poll brings it nearer to its end: it gets to a later phase, or some calls of the same
phase have turns.

* `startPhase_ensures`, `startPhases_ensures`: phases come to what their callbacks do, or wait for it.
* `Driver.Leads`, `Driver.Nearer`: the result that a stage leads to, and the order of stages.
* `advance_ensures`: **performing a transition** comes to its result, or to a nearer stage.
-/

namespace StateEngine

open Program Relation

variable {κ φ : Type} {d : Driver κ φ} {m m' : Machine κ φ} {id : TransitionId}
  {outcomes : List Outcome} {phase : Phase}

/-! ## Phases -/

/-- The calls of a phase are owed the outcomes of its callbacks. -/
theorem callAll_ensures (context : Context) (callbacks : List (String × κ)) :
    (callAll context callbacks).Ensures d (fun calls m' => m' = m ∧
      d.Owes calls (callbacks.map fun callback => d.outcome callback.2 context) ∧
        ∀ call ∈ calls, call.outcome? = none) m := by
  induction callbacks with
  | nil => exact .pure ⟨rfl, .nil, fun _ h => nomatch h⟩
  | cons first rest ih =>
    refine .bind (.ask fun settlement hs => .bind (ih.mono fun calls m' h => .pure ?_))
    obtain ⟨hm, howes, hnone⟩ := h
    exact ⟨hm, .cons (d.settles hs) howes, List.forall_mem_cons.2 ⟨rfl, hnone⟩⟩

/-- A phase is over once every call has its outcome, and then it comes to their verdict. -/
theorem Advance.ofRoster_eq (phase : Phase) (roster : Roster φ) :
    Advance.ofRoster phase roster = match roster.outcomes? with
      | none => .waiting phase roster
      | some outcomes => .over (verdict outcomes) := by
  unfold Advance.ofRoster verdict
  cases roster.outcomes? with
  | none => rfl
  | some outcomes =>
    dsimp only
    cases lastFailure? outcomes <;> rfl

theorem continuePhase_ensures {roster : Roster φ} (h : d.Kept outcomes roster m.wakeUps) :
    (continuePhase id phase roster).Ensures d (fun advance m' => m.Noted id m' ∧
      (advance = .over (verdict outcomes) ∨ ∃ roster', advance = .waiting phase roster' ∧
        roster'.outcomes? = none ∧ d.Kept outcomes roster' m'.wakeUps ∧
          (roster.outcomes? = none → roster.Ready m.wakeUps →
            TransGen d.MovesIn roster'.calls roster.calls))) m := by
  have hpoll := (pollRoster_ensures id phase h).and
    (pollRoster_within id phase roster).noted
  refine .bind (hpoll.mono fun roster' m' h' => .pure ?_)
  obtain ⟨⟨hkept, hmoves⟩, hnoted⟩ := h'
  refine ⟨hnoted, ?_⟩
  rw [Advance.ofRoster_eq]
  cases ho : roster'.outcomes? with
  | none => exact .inr ⟨roster', rfl, ho, hnoted.wakeUps ▸ hkept, hmoves⟩
  | some noted => exact .inl (by rw [hkept.owes.outcomes_eq ho])

/-- **A phase** comes to what its callbacks do. -/
theorem startPhase_ensures (ht : m.targetName = d.target.describe) (t : Transition) (phase : Phase) :
    (startPhase id t phase).Ensures d (fun advance m' => m.Noted id m' ∧
      (advance = .over (d.phase m.definition t.record t.args phase) ∨
        ∃ outcomes roster, advance = .waiting phase roster ∧ roster.outcomes? = none ∧
          d.Kept outcomes roster m'.wakeUps ∧
            verdict outcomes = d.phase m.definition t.record t.args phase)) m := by
  have hfind := findAll_ensures ht t.record phase
    (m.definition.listed t.record phase)
  refine .bind (.bind (.look (hfind.mono fun found m h => ?_)))
  obtain ⟨rfl, hfound⟩ := h
  unfold Driver.phase
  rw [← hfound]
  cases found with
  | error missing => exact .pure ⟨.refl id m, .inl rfl⟩
  | ok callbacks =>
    have hbegin : m.Noted id (m.note id .begin) := (PhaseNotes.notes ⟨.begin, rfl, rfl⟩).noted m
    have hcalls := callAll_ensures (d := d) (m := m.note id .begin) (t.context phase) callbacks
    refine .bind (.make (.bind (hcalls.mono fun calls m₂ h₂ => ?_)))
    obtain ⟨rfl, howes, hnone⟩ := h₂
    have hkept : d.Kept (callbacks.map fun callback => d.outcome callback.2 (t.context phase))
        (.start calls) (m.note id .begin).wakeUps := ⟨howes, fun _ => .start hnone _⟩
    refine (continuePhase_ensures hkept).mono fun advance m' h' => ⟨hbegin.trans h'.1, ?_⟩
    have hverdict : verdict (callbacks.map fun callback => d.outcome callback.2 (t.context phase)) =
        verdict ((callbacks.map Prod.snd).map fun callback =>
          d.outcome callback ((Transition.fresh t.record t.args).context phase)) := by
      rw [List.map_map]
      rfl
    rcases h'.2 with hover | ⟨roster', hwaiting, hunsettled, hkept', -⟩
    · exact .inl (hover.trans (congrArg _ hverdict))
    · exact .inr ⟨_, roster', hwaiting, hunsettled, hkept', hverdict⟩

/-! ## Whole transitions -/

/-- The phases after the first of some that are performed. -/
theorem Phase.later_eq {rest : List Phase} (h : (phase :: rest) <:+ Phase.all) : phase.later = rest := by
  simp only [Phase.all, List.suffix_cons_iff, List.cons.injEq, List.suffix_nil] at h
  rcases h with ⟨rfl, rfl⟩ | ⟨rfl, rfl⟩ | ⟨rfl, rfl⟩ | ⟨rfl, rfl⟩ | ⟨rfl, rfl⟩ | ⟨rfl, rfl⟩ | h
  all_goals first | rfl | exact nomatch h

theorem Phase.later_lt {phase' : Phase} (h : phase' ∈ phase.later) :
    phase'.later.length < phase.later.length := by
  revert h
  cases phase <;> cases phase' <;> decide

theorem Phase.length_later_lt (phase : Phase) : phase.later.length < Phase.all.length := by
  cases phase <;> decide

/-- A phase that waits for calls, and the result that its transition will come to. -/
structure Driver.Awaits (d : Driver κ φ) (definition : Definition κ) (record : Record) (args : List Json)
    (result : Except Rejection Unit) (wakeUps : Nat) (phase : Phase) (roster : Roster φ) : Prop where
  unsettled : roster.outcomes? = none
  comes : ∃ outcomes, d.Kept outcomes roster wakeUps ∧
    (do verdict outcomes; d.perform definition record args phase.later) = result

/-- **Phases** come to what their callbacks do, or wait for it. -/
theorem startPhases_ensures (id : TransitionId) (t : Transition) {phases : List Phase}
    (hp : phases <:+ Phase.all) :
    ∀ {m : Machine κ φ}, m.targetName = d.target.describe →
      (startPhases id t phases).Ensures d (fun advance m' => m.Noted id m' ∧
        (advance = .over (d.perform m.definition t.record t.args phases) ∨
          ∃ phase roster, advance = .waiting phase roster ∧ phase ∈ phases ∧
            d.Awaits m.definition t.record t.args
              (d.perform m.definition t.record t.args phases) m'.wakeUps phase roster)) m := by
  induction phases with
  | nil =>
    intro m _
    exact .bind (.make (.pure ⟨m.noted_resolve id, .inl rfl⟩))
  | cons phase rest ih =>
    intro m ht
    have hlater := Phase.later_eq hp
    refine .bind ((startPhase_ensures ht t phase).mono fun advance m₁ h₁ => ?_)
    obtain ⟨hnoted, rfl | ⟨outcomes, roster, rfl, hunsettled, hkept, hverdict⟩⟩ := h₁
    · unfold Driver.perform
      cases d.phase m.definition t.record t.args phase with
      | error rejection =>
        exact .bind (.make (.pure ⟨hnoted.trans (m₁.noted_reject id rejection), .inl rfl⟩))
      | ok _ =>
        have hrest := ih ((List.suffix_cons phase rest).trans hp) (hnoted.targetName.trans ht)
        rw [hnoted.definition] at hrest
        refine hrest.mono fun advance m₂ h₂ => ⟨hnoted.trans h₂.1, ?_⟩
        rcases h₂.2 with hover | ⟨later, roster, hwaiting, hmem, hawaits⟩
        · exact .inl hover
        · exact .inr ⟨later, roster, hwaiting, List.mem_cons_of_mem phase hmem, hawaits⟩
    · have hcomes : (do verdict outcomes; d.perform m.definition t.record t.args phase.later) =
          d.perform m.definition t.record t.args (phase :: rest) := by
        rw [hverdict, hlater]
        rfl
      exact .pure ⟨hnoted, .inr ⟨phase, roster, rfl, List.mem_cons_self, hunsettled, outcomes, hkept,
        hcomes⟩⟩

theorem continuePerform_ensures (t : Transition) {roster : Roster φ} {result : Except Rejection Unit}
    (ht : m.targetName = d.target.describe)
    (h : d.Awaits m.definition t.record t.args result m.wakeUps phase roster) :
    (continuePerform id t phase roster).Ensures d (fun advance m' => m.Noted id m' ∧
      (advance = .over result ∨ ∃ phase' roster', advance = .waiting phase' roster' ∧
        d.Awaits m.definition t.record t.args result m'.wakeUps phase' roster' ∧
          (phase' ∈ phase.later ∨ phase' = phase ∧ (roster.Ready m.wakeUps →
            TransGen d.MovesIn roster'.calls roster.calls)))) m := by
  obtain ⟨hunsettled, outcomes, hkept, rfl⟩ := h
  refine .bind ((continuePhase_ensures hkept).mono fun advance m₁ h₁ => ?_)
  obtain ⟨hnoted, rfl | ⟨roster', rfl, hunsettled', hkept', hmoves⟩⟩ := h₁
  · cases verdict outcomes with
    | error rejection =>
      exact .bind (.make (.pure ⟨hnoted.trans (m₁.noted_reject id rejection), .inl rfl⟩))
    | ok _ =>
      have hsuffix : phase.later <:+ Phase.all := by cases phase <;> decide
      have hrest := startPhases_ensures id t hsuffix (hnoted.targetName.trans ht)
      rw [hnoted.definition] at hrest
      refine hrest.mono fun advance m₂ h₂ => ⟨hnoted.trans h₂.1, ?_⟩
      rcases h₂.2 with hover | ⟨later, roster', hwaiting, hmem, hawaits⟩
      · exact .inl hover
      · exact .inr ⟨later, roster', hwaiting, hawaits, .inl hmem⟩
  · exact .pure ⟨hnoted, .inr ⟨phase, roster', rfl, ⟨hunsettled', outcomes, hkept', rfl⟩,
      .inr ⟨rfl, hmoves hunsettled⟩⟩⟩

/-! ## Stages -/

namespace Stage

/-- How many phases are still to come. -/
def left : Stage φ → Nat
  | waiting phase _ => phase.later.length
  | _ => Phase.all.length

theorem left_le (stage : Stage φ) : stage.left ≤ Phase.all.length := by
  cases stage with
  | waiting phase roster => exact Nat.le_of_lt phase.length_later_lt
  | _ => exact Nat.le_refl _

def calls : Stage φ → List (Call φ)
  | waiting _ roster => roster.calls
  | _ => []

/-- Whether a poll of a future that stands so brings it nearer to its end. -/
def Ready (wakeUps : Nat) : Stage φ → Prop
  | waiting _ roster => roster.Ready wakeUps
  | _ => True

end Stage

/-- Whether a stage is nearer to the end of a transition: a later phase, or turns of the calls of the
same. -/
def Driver.Nearer (d : Driver κ φ) (after before : Stage φ) : Prop :=
  after.left < before.left ∨ after.left = before.left ∧ TransGen d.MovesIn after.calls before.calls

/-- A stage from which the phases of a record come to a result. -/
inductive Driver.Leads (d : Driver κ φ) (definition : Definition κ) (record : Record) (args : List Json)
    (result : Except Rejection Unit) (wakeUps : Nat) : Stage φ → Prop where
  | unpolled :
      d.perform definition record args Phase.all = result → Leads d definition record args result wakeUps .unpolled
  | waiting {phase : Phase} {roster : Roster φ} :
      d.Awaits definition record args result wakeUps phase roster →
      Leads d definition record args result wakeUps (.waiting phase roster)

theorem Driver.Leads.idle {definition : Definition κ} {record : Record} {args : List Json}
    {result : Except Rejection Unit} {wakeUps : Nat} {stage : Stage φ}
    (h : d.Leads definition record args result wakeUps stage) : stage.isBusy = false := by
  cases h <;> rfl

namespace Driver.Leads

variable {definition : Definition κ} {record : Record} {args : List Json} {result : Except Rejection Unit}
  {wakeUps : Nat} {stage : Stage φ}

/-- Waking the machine does not change what a stage leads to. -/
theorem mono (h : d.Leads definition record args result wakeUps stage) (wakes : Nat) :
    d.Leads definition record args result (wakeUps + wakes) stage := by
  cases h with
  | unpolled hresult => exact .unpolled hresult
  | waiting hawaits =>
    obtain ⟨hunsettled, outcomes, hkept, hresult⟩ := hawaits
    exact .waiting ⟨hunsettled, outcomes, ⟨hkept.owes, hkept.fit.mono wakes⟩, hresult⟩

/-- A future that is due, or whose machine was woken, is ready for the next poll. -/
theorem ready {f : FutureId} {purpose : Purpose} (h : d.Leads definition record args result m.wakeUps stage)
    (hf : m.future? f = some ⟨id, purpose, stage⟩) {wakes : Nat} (hwakes : 0 < wakes ∨ m.Due f) :
    stage.Ready (m.wakeUps + wakes) := by
  cases h with
  | unpolled _ => trivial
  | @waiting phase roster hawaits =>
    obtain ⟨hunsettled, outcomes, hkept, -⟩ := hawaits
    refine hkept.fit.ready hunsettled (hwakes.imp_right ?_)
    rintro ⟨x, phase', roster', hx, hstage, hqueue⟩
    cases hx.symm.trans hf
    cases hstage
    exact hqueue

/-- The calls of a stage cannot have turns forever. -/
theorem acc (h : d.Leads definition record args result wakeUps stage) : Acc (TransGen d.MovesIn) stage.calls := by
  cases h with
  | unpolled _ =>
    have hnone : d.Owes [] [] := .nil
    exact hnone.acc
  | waiting hawaits =>
    obtain ⟨-, outcomes, hkept, -⟩ := hawaits
    exact hkept.owes.acc

end Driver.Leads

/-- **Performing a transition** comes to the result that its stage leads to, or to a nearer stage. -/
theorem advance_ensures (t : Transition) {stage : Stage φ} {result : Except Rejection Unit}
    (ht : m.targetName = d.target.describe)
    (h : d.Leads m.definition t.record t.args result m.wakeUps stage) :
    (advance id t stage).Ensures d (fun advance m' => m.Noted id m' ∧
      (advance = .over result ∨ ∃ phase roster, advance = .waiting phase roster ∧
        d.Awaits m.definition t.record t.args result m'.wakeUps phase roster ∧
          (stage.Ready m.wakeUps → d.Nearer (.waiting phase roster) stage))) m := by
  cases h with
  | unpolled hresult =>
    subst hresult
    refine (startPhases_ensures id t List.suffix_rfl ht).mono fun advance m' h' => ⟨h'.1, ?_⟩
    rcases h'.2 with hover | ⟨phase, roster, hwaiting, -, hawaits⟩
    · exact .inl hover
    · exact .inr ⟨phase, roster, hwaiting, hawaits, fun _ => .inl phase.length_later_lt⟩
  | waiting hawaits =>
    refine (continuePerform_ensures t ht hawaits).mono fun advance m' h' => ⟨h'.1, ?_⟩
    rcases h'.2 with hover | ⟨phase, roster, hwaiting, hawaits', hlater | ⟨rfl, hmoves⟩⟩
    · exact .inl hover
    · exact .inr ⟨phase, roster, hwaiting, hawaits', fun _ => .inl (Phase.later_lt hlater)⟩
    · exact .inr ⟨phase, roster, hwaiting, hawaits', fun hr => .inr ⟨rfl, hmoves hr⟩⟩

end StateEngine
