import Mathlib.Data.List.Forall2
import Mathlib.Logic.Relation
import StateEngine.Proofs.Driving

/-!
# Calls settle

The calls of a phase are owed outcomes. A turn of a call keeps the outcome that it comes to, and either
notes it or brings the call nearer to it, in the order that `Settles` is founded on. The turns of several
calls are founded alike, so that a phase cannot wait forever, whatever the order of the turns.

* `Driver.Comes`, `Driver.Moves`: the outcome that a call comes to, and a turn of a call.
* `Driver.Owes.acc`: **calls that are owed outcomes cannot have turns forever.**
* `pollRoster_ensures`: a poll of a phase keeps what is owed, and some call has a turn.
-/

namespace StateEngine

open Program Relation

variable {κ φ α : Type} {d : Driver κ φ} {m m' m'' : Machine κ φ} {id : TransitionId}

/-! ## What marks leave alone -/

/-- What the marks in the book of a transition leave alone, unless they abort it. -/
structure Machine.Noted (id : TransitionId) (m m' : Machine κ φ) : Prop where
  eq : m' = { m with transitions := m'.transitions }
  length_eq : m'.transitions.length = m.transitions.length
  book : ∀ t, m.transition? id = some t → ∃ t', m'.transition? id = some t' ∧
    t'.record = t.record ∧ t'.args = t.args ∧ t'.isAborted = t.isAborted

namespace Machine.Noted

theorem refl (id : TransitionId) (m : Machine κ φ) : m.Noted id m :=
  ⟨rfl, rfl, fun t ht => ⟨t, ht, rfl, rfl, rfl⟩⟩

theorem trans (h : m.Noted id m') (h' : m'.Noted id m'') : m.Noted id m'' := by
  refine ⟨by rw [h'.eq, h.eq], h'.length_eq.trans h.length_eq, fun t ht => ?_⟩
  obtain ⟨t', ht', hr, ha, hb⟩ := h.book t ht
  obtain ⟨t'', ht'', hr', ha', hb'⟩ := h'.book t' ht'
  exact ⟨t'', ht'', hr'.trans hr, ha'.trans ha, hb'.trans hb⟩

theorem definition (h : m.Noted id m') : m'.definition = m.definition := by rw [h.eq]

theorem targetName (h : m.Noted id m') : m'.targetName = m.targetName := by rw [h.eq]

theorem wakeUps (h : m.Noted id m') : m'.wakeUps = m.wakeUps := by rw [h.eq]

end Machine.Noted

/-- Only an abort makes a transition count as aborted. -/
theorem Transition.isAborted_mark_eq (t : Transition) {mark : Mark} (h : mark ≠ .abort) :
    (t.mark mark).isAborted = t.isAborted := by
  cases mark with
  | abort => exact absurd rfl h
  | settle phase id outcome => cases outcome <;> rfl
  | _ =>
    cases hs : t.progress.status <;>
      simp [isAborted, Transition.mark, Progress.mark, Progress.begin, Progress.resolve,
        Progress.reject, hs]

theorem Notes.noted {c : Change φ} (h : Notes id c) (m : Machine κ φ) : m.Noted id (c.apply m) := by
  obtain ⟨mark, hm, rfl⟩ := h
  refine ⟨rfl, m.length_note id mark, fun t ht => ⟨t.mark mark, ?_, rfl, rfl, t.isAborted_mark_eq hm⟩⟩
  rw [Change.apply, Machine.transition_note, ht]
  simp

/-- What a transition ends with is noted in its book alone. -/
theorem Machine.noted_resolve (id : TransitionId) (m : Machine κ φ) : m.Noted id (m.note id .resolve) :=
  Notes.noted ⟨.resolve, (nomatch ·), rfl⟩ m

theorem Machine.noted_reject (id : TransitionId) (rejection : Rejection) (m : Machine κ φ) :
    m.Noted id (m.note id (.reject rejection)) :=
  Notes.noted ⟨.reject rejection, (nomatch ·), rfl⟩ m

/-- An account of all hosts is one of a driver, and keeps what its changes keep. -/
theorem Program.Within.ensures {P : Change φ → Prop} {I : Machine κ φ → Prop} {post : α → Prop}
    (hI : ∀ m c, I m → P c → I (c.apply m)) {p : Program κ φ α} :
    ∀ {m : Machine κ φ}, p.Within P post → I m → p.Ensures d (fun a m' => post a ∧ I m') m := by
  induction p with
  | done a => intro m h hm; exact ⟨h, hm⟩
  | look next ih => intro m h hm; exact ih m (h m) hm
  | change c next ih => intro m h hm; exact ih h.2 (hI m c hm h.1)
  | ask request resume ih => intro m h hm reply _; exact ih reply (h.2 reply) hm

/-- A program that only makes notes leaves the rest of the machine alone. -/
theorem Program.Within.noted {post : α → Prop} {p : Program κ φ α} (h : p.Within (PhaseNotes id) post) :
    p.Ensures d (fun _ m' => m.Noted id m') m := by
  have hp := h.ensures (d := d) (I := m.Noted id)
    (fun m' c hm hc => hm.trans (hc.notes.noted m')) (.refl id m)
  exact hp.mono fun _ _ h => h.2

theorem Program.Ensures.and {post post' : α → Machine κ φ → Prop} {p : Program κ φ α} :
    ∀ {m : Machine κ φ}, p.Ensures d post m → p.Ensures d post' m →
      p.Ensures d (fun a m' => post a m' ∧ post' a m') m := by
  induction p with
  | done a => intro m h h'; exact ⟨h, h'⟩
  | look next ih => intro m h h'; exact ih m h h'
  | change c next ih => intro m h h'; exact ih h h'
  | ask request resume ih => intro m h h' reply hr; exact ih reply (h reply hr) (h' reply hr)

/-! ## A call and its turns -/

namespace Driver

/-- The outcome that a call comes to. -/
def Comes (d : Driver κ φ) (call : Call φ) (outcome : Outcome) : Prop :=
  match call.standing with
  | .due settlement => Settles d.polls outcome settlement
  | .asleep computation => Settles d.polls outcome (.pending computation)
  | .noted noted => noted = outcome

/-- **A turn of a call** without an outcome: the outcome is noted, or its computation has gone on. -/
def Moves (d : Driver κ φ) (after before : Call φ) : Prop :=
  before.outcome? = none ∧ (after.outcome?.isSome ∨
    ∃ computation next, before.pending? = some computation ∧ after.pending? = some next ∧
      (d.polls computation (.yielding next) ∨ d.polls computation (.sleeping next)))

variable {call call' : Call φ} {outcome : Outcome} {calls : List (Call φ)} {outcomes : List Outcome}

theorem Comes.outcome_eq {noted : Outcome} (h : d.Comes call outcome) (hc : call.outcome? = some noted) :
    noted = outcome := by
  unfold Comes at h
  unfold Call.outcome? at hc
  match hs : call.standing with
  | .due settlement => rw [hs] at hc; exact nomatch hc
  | .asleep computation => rw [hs] at hc; exact nomatch hc
  | .noted other =>
    rw [hs] at h hc
    cases hc
    exact h

/-- A call that has its outcome has no more turns. -/
theorem acc_noted (h : call.outcome?.isSome) : Acc d.Moves call := by
  refine ⟨call, fun after hm => ?_⟩
  rw [hm.1] at h
  exact nomatch h

theorem acc_pending {settlement : Settlement φ} (h : Settles d.polls outcome settlement) :
    ∀ computation, settlement = .pending computation →
      ∀ call : Call φ, call.pending? = some computation → Acc d.Moves call := by
  -- a turn either notes the outcome, or leaves the call with what the poll answered
  induction h with
  | value _ => exact fun _ h => nomatch h
  | error _ => exact fun _ h => nomatch h
  | pending _ _ _ hyield hsleep =>
    rintro computation ⟨⟩ call hc
    refine ⟨call, fun after hm => ?_⟩
    rcases hm.2 with hdone | ⟨before, next, hb, ha, hpoll⟩
    · exact acc_noted hdone
    · cases hc.symm.trans hb
      rcases hpoll with hpoll | hpoll
      · exact hyield next hpoll next rfl after ha
      · exact hsleep next hpoll next rfl after ha

/-- **A call cannot have turns forever.** -/
theorem Comes.acc (h : d.Comes call outcome) : Acc d.Moves call := by
  cases hp : call.pending? with
  | some computation =>
    have hs : Settles d.polls outcome (.pending computation) := by
      unfold Comes at h
      unfold Call.pending? at hp
      split at hp <;> simp_all
    exact acc_pending hs computation rfl call hp
  | none =>
    refine ⟨call, fun after hm => ?_⟩
    rcases hm.2 with hdone | ⟨before, next, hb, -⟩
    · exact acc_noted hdone
    · rw [hp] at hb
      exact nomatch hb

/-! ## The turns of several calls -/

/-- A turn of one of several calls. -/
inductive MovesIn (d : Driver κ φ) : List (Call φ) → List (Call φ) → Prop where
  | head {call call' : Call φ} {rest : List (Call φ)} :
      d.Moves call' call → MovesIn d (call' :: rest) (call :: rest)
  | tail {call : Call φ} {rest rest' : List (Call φ)} :
      MovesIn d rest' rest → MovesIn d (call :: rest') (call :: rest)

/-- Whether calls come to outcomes, one by one. -/
def Owes (d : Driver κ φ) (calls : List (Call φ)) (outcomes : List Outcome) : Prop :=
  List.Forall₂ d.Comes calls outcomes

theorem acc_cons (hcall : Acc d.Moves call) :
    ∀ {rest : List (Call φ)}, Acc d.MovesIn rest → Acc d.MovesIn (call :: rest) := by
  -- each turn is one of the first call, or one of the others
  induction hcall with
  | intro call _ ihcall =>
    intro rest hrest
    induction hrest with
    | intro rest hacc ihrest =>
      refine ⟨_, fun after hm => ?_⟩
      cases hm with
      | head hm => exact ihcall _ hm ⟨rest, hacc⟩
      | tail hm => exact ihrest _ hm

/-- **Calls that are owed outcomes cannot have turns forever**, in whatever order. -/
theorem Owes.acc (h : d.Owes calls outcomes) : Acc (TransGen d.MovesIn) calls := by
  refine Acc.transGen ?_
  unfold Owes at h
  induction h with
  | nil => exact ⟨_, fun after hm => nomatch hm⟩
  | cons hcall _ ih => exact acc_cons hcall.acc ih

theorem MovesIn.set {position : Nat} (hp : calls[position]? = some call) (hm : d.Moves call' call) :
    d.MovesIn (calls.set position call') calls := by
  induction calls generalizing position with
  | nil => exact nomatch hp
  | cons first rest ih =>
    cases position with
    | zero =>
      cases hp
      exact .head hm
    | succ position => exact .tail (ih hp)

/-- A call comes to its outcome, and so does another one in its place that comes to it. -/
theorem Owes.at (h : d.Owes calls outcomes) {position : Nat} (hp : calls[position]? = some call) :
    ∃ outcome, d.Comes call outcome ∧
      ∀ call', d.Comes call' outcome → d.Owes (calls.set position call') outcomes := by
  unfold Owes at h ⊢
  induction h generalizing position with
  | nil => exact nomatch hp
  | @cons first outcome rest others hfirst hrest ih =>
    cases position with
    | zero =>
      cases hp
      exact ⟨outcome, hfirst, fun call' hc => .cons hc hrest⟩
    | succ position =>
      obtain ⟨found, hcomes, hset⟩ := ih hp
      exact ⟨found, hcomes, fun call' hc => .cons hfirst (hset call' hc)⟩

/-- Outcomes that were all noted are those that were owed. -/
theorem Owes.outcomes_eq (h : d.Owes calls outcomes) {noted : List Outcome}
    (hn : calls.mapM Call.outcome? = some noted) : noted = outcomes := by
  unfold Owes at h
  induction h generalizing noted with
  | nil =>
    cases hn
    rfl
  | @cons first outcome rest others hfirst _ ih =>
    rw [List.mapM_cons] at hn
    cases hf : first.outcome? with
    | none => rw [hf] at hn; exact nomatch hn
    | some found =>
      cases hr : rest.mapM Call.outcome? with
      | none => rw [hf, hr] at hn; exact nomatch hn
      | some founds =>
        rw [hf, hr] at hn
        cases hn
        rw [hfirst.outcome_eq hf, ih hr]

end Driver

/-! ## Polling calls -/

variable {call : Call φ} {outcome : Outcome} {calls : List (Call φ)} {outcomes : List Outcome}
  {phase : Phase}

theorem noteOutcome_ensures (callId : String) (hc : call.outcome? = none) :
    (noteOutcome id phase callId outcome).Ensures d
      (fun call' _ => d.Comes call' outcome ∧ d.Moves call' call) m :=
  .bind (.make (.pure ⟨rfl, hc, .inl rfl⟩))

theorem pollPending_ensures (callId : String) {computation : φ} (hc : call.outcome? = none)
    (hp : call.pending? = some computation) (h : Settles d.polls outcome (.pending computation)) :
    (pollPending id phase callId computation).Ensures d
      (fun call' _ => d.Comes call' outcome ∧ d.Moves call' call) m := by
  cases h with
  | pending hyield hsleep hsettled =>
    refine .bind (.ask fun reply hr => ?_)
    match reply with
    | .yielding next => exact .pure ⟨hyield next hr, hc, .inr ⟨computation, next, hp, rfl, .inl hr⟩⟩
    | .sleeping next => exact .pure ⟨hsleep next hr, hc, .inr ⟨computation, next, hp, rfl, .inr hr⟩⟩
    | .settled settled =>
      cases hsettled settled hr
      exact noteOutcome_ensures callId hc

/-- **A poll of a call** is a turn of it, unless it has its outcome. -/
theorem pollCall_ensures (id : TransitionId) (phase : Phase) (h : d.Comes call outcome) :
    (pollCall id phase call).Ensures d (fun call' _ => d.Comes call' outcome ∧
      (call' = call ∧ call.outcome?.isSome ∨ d.Moves call' call)) m := by
  have hturn : ∀ (call' : Call φ) (_ : Machine κ φ), d.Comes call' outcome ∧ d.Moves call' call →
      d.Comes call' outcome ∧ (call' = call ∧ call.outcome?.isSome ∨ d.Moves call' call) :=
    fun _ _ ⟨hc, hm⟩ => ⟨hc, .inr hm⟩
  obtain ⟨callId, standing⟩ := call
  unfold pollCall
  match standing with
  | .noted noted => exact .pure ⟨h, .inl ⟨rfl, rfl⟩⟩
  | .due (.value value) =>
    cases h with
    | value ho =>
      subst ho
      exact (noteOutcome_ensures callId rfl).mono hturn
  | .due (.error reason) =>
    cases h with
    | error ho =>
      subst ho
      exact (noteOutcome_ensures callId rfl).mono hturn
  | .due (.pending computation) => exact (pollPending_ensures callId rfl rfl h).mono hturn
  | .asleep computation => exact (pollPending_ensures callId rfl rfl h).mono hturn

/-- **A poll of all calls** is turns of some, unless all have their outcomes. -/
theorem pollAll_ensures (h : d.Owes calls outcomes) :
    (pollAll id phase calls).Ensures d (fun calls' _ => d.Owes calls' outcomes ∧
      ((calls' = calls ∧ ∀ call ∈ calls, call.outcome?.isSome) ∨
        TransGen d.MovesIn calls' calls)) m := by
  unfold Driver.Owes at h ⊢
  induction h generalizing m with
  | nil => exact .pure ⟨.nil, .inl ⟨rfl, fun _ h => nomatch h⟩⟩
  | @cons call outcome rest others hcall _ ih =>
    refine .bind ((pollCall_ensures id phase hcall).mono fun call' m₁ h₁ => ?_)
    refine .bind (ih.mono fun rest' m₂ h₂ => .pure ?_)
    obtain ⟨hcomes, hcall⟩ := h₁
    obtain ⟨howes, hrest⟩ := h₂
    have htail : TransGen d.MovesIn rest' rest → TransGen d.MovesIn (call' :: rest') (call' :: rest) :=
      TransGen.lift (call' :: ·) (fun _ _ hm => Driver.MovesIn.tail hm) _ _
    refine ⟨.cons hcomes howes, ?_⟩
    rcases hcall with ⟨rfl, hnoted⟩ | hmove
    · rcases hrest with ⟨rfl, hall⟩ | hrest
      · exact .inl ⟨rfl, List.forall_mem_cons.2 ⟨hnoted, hall⟩⟩
      · exact .inr (htail hrest)
    · have hhead : TransGen d.MovesIn (call' :: rest) (call :: rest) := .single (.head hmove)
      rcases hrest with ⟨rfl, -⟩ | hrest
      · exact .inr hhead
      · exact .inr ((htail hrest).trans hhead)

/-! ## Crowds -/

namespace Roster

variable {roster : Roster φ} {wakeUps position : Nat}

theorem Fair.start {calls : List (Call φ)} (h : ∀ call ∈ calls, call.outcome? = none) (wakeUps : Nat) :
    (Roster.start calls).Fair wakeUps := by
  refine ⟨?_, fun i => ?_, Nat.zero_le _⟩
  · simpa [Roster.start] using List.nodup_range
  · simp only [Roster.start, List.append_nil, List.mem_range]
    constructor
    · intro hi
      exact ⟨calls[i], List.getElem?_eq_getElem hi, h _ (List.getElem_mem hi)⟩
    · rintro ⟨call, hi, -⟩
      exact (List.getElem?_eq_some_iff.1 hi).1

theorem calls_heed (roster : Roster φ) (wakeUps : Nat) :
    (roster.heed wakeUps).calls = roster.calls := by
  unfold heed
  split <;> rfl

theorem Fair.heed (h : roster.Fair wakeUps) (heeded : Nat) : (roster.heed heeded).Fair heeded := by
  unfold Roster.heed
  split
  · rename_i hheeded
    exact ⟨h.nodup, h.mem, Nat.le_of_eq hheeded⟩
  · refine ⟨?_, fun i => ?_, Nat.le_refl _⟩
    · rw [List.append_nil]
      exact h.nodup
    · rw [List.append_nil]
      exact h.mem i

/-- The call at the head of the queue has no outcome yet, and somebody is there if the queue is not
empty. -/
theorem Fair.next (h : roster.Fair wakeUps) :
    (roster.queue = [] ∧ roster.next? = none) ∨
      ∃ position queue call, roster.queue = position :: queue ∧
        roster.calls[position]? = some call ∧ call.outcome? = none ∧
        roster.next? = some (position, call, { roster with queue }) := by
  unfold next?
  cases hq : roster.queue with
  | nil => exact .inl ⟨rfl, rfl⟩
  | cons position queue =>
    obtain ⟨call, hcall, hnone⟩ := (h.mem position).1 (by simp [hq])
    exact .inr ⟨position, queue, call, rfl, hcall, hnone, by simp [hcall]⟩

/-- A call that had its turn is in the queues again unless it has its outcome now. -/
theorem queues_record (roster : Roster φ) (position : Nat) (call : Call φ) :
    ((roster.record position call).queue ++ (roster.record position call).sleepers).Perm
      (if call.outcome? = none then position :: (roster.queue ++ roster.sleepers)
        else roster.queue ++ roster.sleepers) := by
  obtain ⟨callId, standing⟩ := call
  unfold record Call.outcome?
  cases standing with
  | due settlement =>
    simp only [if_pos, List.append_assoc, List.singleton_append]
    exact List.perm_middle
  | asleep computation =>
    simp only [if_pos, ← List.append_assoc]
    exact List.perm_append_singleton position _
  | noted outcome => simp

theorem calls_record (roster : Roster φ) (position : Nat) (call : Call φ) :
    (roster.record position call).calls = roster.calls.set position call := by
  unfold record
  cases call.standing <;> rfl

theorem heeded_record (roster : Roster φ) (position : Nat) (call : Call φ) :
    (roster.record position call).heeded = roster.heeded := by
  unfold record
  cases call.standing <;> rfl

/-- **A turn keeps a crowd fair.** -/
theorem Fair.record {queue : List Nat} {call : Call φ} (h : roster.Fair wakeUps)
    (hq : roster.queue = position :: queue) (hp : position < roster.calls.length) :
    (({ roster with queue } : Roster φ).record position call).Fair wakeUps := by
  have hperm := queues_record { roster with queue } position call
  have hnodup : (position :: (queue ++ roster.sleepers)).Nodup := by
    have hold := h.nodup
    rwa [hq] at hold
  refine ⟨?_, fun i => ?_, ?_⟩
  · rw [hperm.nodup_iff]
    split
    · exact hnodup
    · exact hnodup.of_cons
  · -- the position itself is queued again if it has to be, and the others are as they were
    have hmem := h.mem i
    have hnot := (List.nodup_cons.1 hnodup).1
    rw [hperm.mem_iff, calls_record]
    simp only [hq, List.cons_append, List.mem_cons] at hmem
    by_cases hi : i = position
    · subst hi
      rw [List.getElem?_set_self hp]
      split
      · rename_i hnone
        simp [hnone]
      · rename_i hsome
        simp [hsome, hnot]
    · rw [List.getElem?_set_ne (Ne.symm hi), ← hmem]
      split <;> simp [hi]
  · rw [heeded_record]
    exact h.heeded

/-- Whether a roster is fair, if it is a crowd. -/
def Fit (roster : Roster φ) (wakeUps : Nat) : Prop := roster.isCrowd = true → roster.Fair wakeUps

/-- Whether a poll of a roster gives some call a turn. -/
def Ready (roster : Roster φ) (wakeUps : Nat) : Prop :=
  roster.isCrowd = true → (roster.heed wakeUps).queue ≠ []

theorem exists_of_outcomes (h : roster.outcomes? = none) :
    ∃ call ∈ roster.calls, call.outcome? = none := by
  unfold outcomes? at h
  generalize roster.calls = calls at h ⊢
  induction calls with
  | nil => exact nomatch h
  | cons first rest ih =>
    cases hf : first.outcome? with
    | none => exact ⟨first, List.mem_cons_self, hf⟩
    | some outcome =>
      rw [List.mapM_cons, hf] at h
      cases hr : rest.mapM Call.outcome? with
      | none =>
        obtain ⟨call, hcall, hnone⟩ := ih hr
        exact ⟨call, List.mem_cons_of_mem first hcall, hnone⟩
      | some outcomes =>
        rw [hr] at h
        exact nomatch h

/-- **A roster that waits is ready again** once the machine was woken, or if a call is due. -/
theorem Fit.ready (h : roster.Fit wakeUps) (hw : roster.outcomes? = none) {wakes : Nat}
    (hwake : 0 < wakes ∨ roster.queue ≠ []) : roster.Ready (wakeUps + wakes) := by
  intro hcrowd
  have hfair := h hcrowd
  unfold heed
  split
  · rename_i hheeded
    rcases hwake with hwake | hqueue
    · have := hfair.heeded
      omega
    · exact hqueue
  · -- all that have no outcome queue now, and there is one
    obtain ⟨call, hcall, hnone⟩ := exists_of_outcomes hw
    obtain ⟨i, hi⟩ := List.getElem?_of_mem hcall
    have hmem := (hfair.mem i).2 ⟨call, hi, hnone⟩
    exact List.ne_nil_of_mem hmem

theorem Fit.mono (h : roster.Fit wakeUps) (wakes : Nat) : roster.Fit (wakeUps + wakes) := by
  intro hcrowd
  obtain ⟨hnodup, hmem, hheeded⟩ := h hcrowd
  exact ⟨hnodup, hmem, by omega⟩

end Roster

/-- One turn of a crowd, of the call at the head of its queue. -/
theorem turn_ensures {roster : Roster φ} {position : Nat} {queue : List Nat}
    (howes : d.Owes roster.calls outcomes) (hfair : roster.Fair m.wakeUps)
    (hqueue : roster.queue = position :: queue) (hcall : roster.calls[position]? = some call)
    (hnone : call.outcome? = none) :
    (pollCall id phase call).Ensures d (fun call' m' =>
      let roster' := ({ roster with queue } : Roster φ).record position call'
      d.Owes roster'.calls outcomes ∧ roster'.Fair m'.wakeUps ∧ d.MovesIn roster'.calls roster.calls ∧
        m'.wakeUps = m.wakeUps) m := by
  obtain ⟨outcome, hcomes, hset⟩ := howes.at hcall
  have hpoll := (pollCall_ensures (m := m) id phase hcomes).and
    (pollCall_within id phase call).noted
  refine hpoll.mono fun call' m' h => ?_
  obtain ⟨⟨hcomes', hturn⟩, hnoted⟩ := h
  have hmove : d.Moves call' call := by
    rcases hturn with ⟨-, hsome⟩ | hmove
    · rw [hnone] at hsome
      exact nomatch hsome
    · exact hmove
  refine ⟨?_, ?_, ?_, hnoted.wakeUps⟩
  · rw [Roster.calls_record]
    exact hset call' hcomes'
  · rw [hnoted.wakeUps]
    exact hfair.record hqueue (List.getElem?_eq_some_iff.1 hcall).1
  · rw [Roster.calls_record]
    exact .set hcall hmove

/-- What turns of a crowd keep: it is fair, and its calls come to the same outcomes. -/
structure Driver.Turned (d : Driver κ φ) (outcomes : List Outcome) (wakeUps : Nat)
    (before after : Roster φ) : Prop where
  owes : d.Owes after.calls outcomes
  fair : after.Fair wakeUps
  moves : ReflTransGen d.MovesIn after.calls before.calls

/-- **The turns of a crowd** keep it fair and keep what is owed, and unless nobody queues there is one. -/
theorem pollTurns_ensures (left turns yields : Nat) {roster : Roster φ} :
    ∀ {m : Machine κ φ}, d.Owes roster.calls outcomes → roster.Fair m.wakeUps →
      (pollTurns id phase left turns yields roster).Ensures d (fun roster' _ =>
        d.Turned outcomes m.wakeUps roster roster' ∧
          (0 < left → 0 < turns → 0 < yields → (roster.heed m.wakeUps).queue ≠ [] →
            TransGen d.MovesIn roster'.calls roster.calls)) m := by
  induction left, turns, yields, roster using pollTurns.induct with
  | case1 turns yields roster =>
    intro m howes hfair
    rw [pollTurns]
    exact .pure ⟨⟨howes, hfair, .refl⟩, fun h => absurd h (Nat.lt_irrefl 0)⟩
  | case2 left yields roster h =>
    intro m howes hfair
    rw [pollTurns]
    · exact .pure ⟨⟨howes, hfair, .refl⟩, fun _ h => absurd h (Nat.lt_irrefl 0)⟩
    · exact h
  | case3 left turns roster h h' =>
    intro m howes hfair
    rw [pollTurns]
    · exact .pure ⟨⟨howes, hfair, .refl⟩, fun _ _ h => absurd h (Nat.lt_irrefl 0)⟩
    · exact h
    · exact h'
  | case4 roster left turns yields ih1 ih2 ih3 =>
    intro m howes hfair
    rw [pollTurns]
    refine .bind (.look ?_)
    have hheeded := hfair.heed m.wakeUps
    have hcalls := roster.calls_heed m.wakeUps
    generalize roster.heed m.wakeUps = heeded at hheeded hcalls ⊢
    rcases hheeded.next with ⟨hqueue, hnext⟩ | ⟨position, queue, call, hqueue, hcall, hnone, hnext⟩
    · rw [hnext]
      exact .pure ⟨⟨howes, hfair, .refl⟩, fun _ _ _ h => absurd hqueue h⟩
    · rw [hnext]
      rw [← hcalls] at howes ⊢
      refine .bind ((turn_ensures howes hheeded hqueue hcall hnone).mono fun call' m₁ h₁ => ?_)
      obtain ⟨howes', hfair', hmove, hwakeUps⟩ := h₁
      rw [← hwakeUps]
      -- however the turns go on, they go on from the calls after this one
      have hrest : ∀ {roster' : Roster φ} {P Q₁ Q₂ Q₃ Q₄ : Prop}, d.Turned outcomes m₁.wakeUps
          (({ heeded with queue } : Roster φ).record position call') roster' ∧ P →
          d.Turned outcomes m₁.wakeUps roster roster' ∧
            (Q₁ → Q₂ → Q₃ → Q₄ → TransGen d.MovesIn roster'.calls heeded.calls) := by
        rintro roster' P Q₁ Q₂ Q₃ Q₄ ⟨⟨howes₂, hfair₂, hmoves⟩, -⟩
        have htrans := TransGen.trans_right hmoves (.single hmove)
        exact ⟨⟨howes₂, hfair₂, hcalls ▸ htrans.to_reflTransGen⟩, fun _ _ _ _ => htrans⟩
      cases hs : call'.standing with
      | noted outcome =>
        exact (ih1 position { heeded with queue } call' howes' hfair').mono fun _ _ => hrest
      | due settlement =>
        exact (ih2 position { heeded with queue } call' howes' hfair').mono fun _ _ => hrest
      | asleep computation =>
        exact (ih3 position { heeded with queue } call' howes' hfair').mono fun _ _ => hrest

/-- What a poll of a phase keeps: its calls come to the same outcomes, and a crowd is fair. -/
structure Driver.Kept (d : Driver κ φ) (outcomes : List Outcome) (roster : Roster φ) (wakeUps : Nat) :
    Prop where
  owes : d.Owes roster.calls outcomes
  fit : roster.Fit wakeUps

theorem Driver.Owes.isCrowd_eq {roster roster' : Roster φ} (h : d.Owes roster.calls outcomes)
    (h' : d.Owes roster'.calls outcomes) : roster'.isCrowd = roster.isCrowd := by
  have hlength := h.length_eq
  have hlength' := h'.length_eq
  unfold Roster.isCrowd
  rw [hlength, hlength']

/-- **A poll of a phase** keeps what its calls are owed, and brings them nearer to it. -/
theorem pollRoster_ensures (id : TransitionId) (phase : Phase) {roster : Roster φ}
    (h : d.Kept outcomes roster m.wakeUps) :
    (pollRoster id phase roster).Ensures d (fun roster' _ => d.Kept outcomes roster' m.wakeUps ∧
      (roster.outcomes? = none → roster.Ready m.wakeUps →
        TransGen d.MovesIn roster'.calls roster.calls)) m := by
  unfold pollRoster
  split
  · rename_i hcrowd
    refine (pollTurns_ensures _ _ _ h.owes (h.fit hcrowd)).mono fun roster' _ h' => ?_
    refine ⟨⟨h'.1.owes, fun _ => h'.1.fair⟩, fun hw hready => ?_⟩
    have hunsettled : 0 < roster.unsettled := by
      obtain ⟨call, hcall, hnone⟩ := Roster.exists_of_outcomes hw
      exact List.countP_pos_iff.2 ⟨call, hcall, by simp [hnone]⟩
    exact h'.2 hunsettled hunsettled (by decide) (hready hcrowd)
  · rename_i hcrowd
    refine .bind ((pollAll_ensures h.owes).mono fun calls' _ h' => .pure ?_)
    obtain ⟨howes, hmoves⟩ := h'
    have hsame : ({ roster with calls := calls' } : Roster φ).isCrowd = roster.isCrowd :=
      h.owes.isCrowd_eq howes
    refine ⟨⟨howes, fun h' => absurd (hsame ▸ h') hcrowd⟩, fun hw _ => ?_⟩
    rcases hmoves with ⟨-, hall⟩ | hmoves
    · obtain ⟨call, hcall, hnone⟩ := Roster.exists_of_outcomes hw
      have hsome := hall call hcall
      rw [hnone] at hsome
      exact nomatch hsome
    · exact hmoves

end StateEngine
