import StateEngine.Machine.Performance
import StateEngine.Proofs.Advancing
import StateEngine.Proofs.Hooks

/-!
# The order of callbacks

A transition is performed in one order, however the polls are spread and whatever the host answers. Each
function of a phase does one part of what the order says: callbacks are found, called, and visited until
they have settled. A poll that finds a phase waiting adds to what was done for the phase before.

* `startPhases_does`: what is done for phases that are started.
* `Conducted.again`: what another poll adds to a phase that waits.
* `performance_conducted`: **the order in which a transition of a compiled definition is performed**.
-/

namespace StateEngine

open Program

section

variable {κ φ α β : Type} {M : Machine κ φ → Prop} {acts : List (Act κ φ)}

/-! ## Steps of programs -/

namespace Program.Does

/-- **What a program does that goes on with another one** is what the first does, and then the other. -/
theorem bind_inv {p : Program κ φ α} {f : α → Program κ φ β} {b : β} (h : (p >>= f).Does M acts b) :
    ∃ before after a, acts = before ++ after ∧ p.Does M before a ∧ (f a).Does M after b := by
  change (p.bind f).Does M acts b at h
  induction p generalizing acts with
  | done a => exact ⟨[], acts, a, rfl, .done a, h⟩
  | look next ih =>
    cases h with
    | look hm h =>
      obtain ⟨before, after, a, rfl, hp, hf⟩ := ih _ h
      exact ⟨before, after, a, rfl, .look hm hp, hf⟩
  | change c next ih =>
    cases h with
    | change h =>
      obtain ⟨before, after, a, rfl, hp, hf⟩ := ih h
      exact ⟨.made c :: before, after, a, rfl, .change hp, hf⟩
  | ask request resume ih =>
    cases h with
    | ask h =>
      obtain ⟨before, after, a, rfl, hp, hf⟩ := ih _ h
      exact ⟨.asked request _ :: before, after, a, rfl, .ask hp, hf⟩

theorem pure_inv {a b : α} (h : (pure a : Program κ φ α).Does M acts b) : acts = [] ∧ b = a := by
  cases h
  exact ⟨rfl, rfl⟩

theorem look_inv {f : Machine κ φ → Program κ φ β} {b : β} (h : (StateEngine.look >>= f).Does M acts b) :
    ∃ m, M m ∧ (f m).Does M acts b := by
  cases h with
  | look hm h => exact ⟨_, hm, h⟩

theorem make_inv {c : Change φ} {f : Unit → Program κ φ β} {b : β}
    (h : (StateEngine.make c >>= f).Does M acts b) :
    ∃ more, acts = .made c :: more ∧ (f ()).Does M more b := by
  cases h with
  | change h => exact ⟨_, rfl, h⟩

theorem ask_inv {request : Request κ φ} {f : request.Reply → Program κ φ β} {b : β}
    (h : (StateEngine.ask request >>= f).Does M acts b) :
    ∃ reply more, acts = .asked request reply :: more ∧ (f reply).Does M more b := by
  cases h with
  | ask h => exact ⟨_, _, rfl, h⟩

end Program.Does

/-! ## Finding callbacks -/

variable {d : Definition κ} {target : String} {id : TransitionId} {t : Transition} {phase : Phase}
  {record : Record} {listed : List (Listed κ)}

/-- The callback of a name is there, or is missing. -/
theorem findNamed_does {name : String} {missing : String → MissingCallback}
    {found : Except MissingCallback κ}
    (h : (findNamed name missing : Program κ φ _).Does (Machine.Serves d target) acts found) :
    (∃ callback, acts = [.asked (.callback name) (some callback)] ∧ found = .ok callback) ∨
      acts = [.asked (.callback name) none] ∧ found = .error (missing target) := by
  obtain ⟨reply, more, rfl, hreply⟩ := h.ask_inv
  cases reply with
  | some callback =>
    obtain ⟨rfl, rfl⟩ := hreply.pure_inv
    exact .inl ⟨callback, rfl, rfl⟩
  | none =>
    obtain ⟨m, hm, hlook⟩ := hreply.look_inv
    obtain ⟨rfl, rfl⟩ := hlook.pure_inv
    exact .inr ⟨rfl, by rw [hm.target]⟩

/-- A listed callback is found, and inline ones are what they are, or it is missing. -/
theorem find_does {x : Listed κ} {found : Except MissingCallback κ}
    (h : (find record phase x : Program κ φ _).Does (Machine.Serves d target) acts found) :
    (∃ occurrence : Occurrence κ, Finds [x] [occurrence] ∧ acts = occurrence.lookups ∧
        found = .ok occurrence.callback) ∨
      ∃ name error, x.name? = some name ∧ x.missing? target record phase = some error ∧
        acts = [.asked (.callback name) none] ∧ found = .error error := by
  have hsingle : ∀ callback, (∀ own, x.inline? = some own → callback = own) →
      Finds [x] [⟨x, callback⟩] := by
    intro callback hown
    refine ⟨rfl, fun occurrence ho => ?_⟩
    rw [List.mem_singleton.1 ho]
    exact hown
  cases x with
  | inlineHook stateIndex position callback =>
    obtain ⟨rfl, rfl⟩ := h.pure_inv
    exact .inl ⟨_, hsingle callback fun own hown => Option.some.inj hown, rfl, rfl⟩
  | stateHook state name =>
    rw [find] at h
    rcases findNamed_does h with ⟨callback, rfl, rfl⟩ | ⟨rfl, rfl⟩
    · exact .inl ⟨_, hsingle callback (fun own hown => nomatch hown), rfl, rfl⟩
    · exact .inr ⟨name, _, rfl, rfl, rfl, rfl⟩
  | transition name =>
    rw [find] at h
    rcases findNamed_does h with ⟨callback, rfl, rfl⟩ | ⟨rfl, rfl⟩
    · exact .inl ⟨_, hsingle callback (fun own hown => nomatch hown), rfl, rfl⟩
    · exact .inr ⟨name, _, rfl, rfl, rfl, rfl⟩

theorem Finds.nil : Finds ([] : List (Listed κ)) [] :=
  ⟨rfl, fun _ ho => absurd ho List.not_mem_nil⟩

theorem Finds.cons {x : Listed κ} {occurrence : Occurrence κ} {occurrences : List (Occurrence κ)}
    (hx : Finds [x] [occurrence]) (h : Finds listed occurrences) :
    Finds (x :: listed) (occurrence :: occurrences) := by
  refine ⟨congrArg₂ List.cons (List.head_eq_of_cons_eq hx.all) h.all, fun other hother => ?_⟩
  rcases List.mem_cons.1 hother with rfl | hother
  · exact hx.inline _ List.mem_cons_self
  · exact h.inline other hother

theorem Misses.cons {x : Listed κ} {occurrence : Occurrence κ} {error : MissingCallback}
    (hx : Finds [x] [occurrence]) (h : Misses target record phase listed acts error) :
    Misses target record phase (x :: listed) (occurrence.lookups ++ acts) error := by
  obtain @⟨before, missing, after, name, error, hl, hfinds, hname, hmissing⟩ := h
  have hhead : occurrence.listed = x := List.head_eq_of_cons_eq hx.all
  have hl' : x :: listed = (occurrence :: before).map Occurrence.listed ++ missing :: after := by
    rw [hl, List.map_cons, hhead, List.cons_append]
  have hfinds' : Finds ((occurrence :: before).map Occurrence.listed) (occurrence :: before) := by
    rw [List.map_cons, hhead]
    exact hx.cons hfinds
  rw [← List.append_assoc, ← List.flatMap_cons]
  exact .intro hl' hfinds' hname hmissing

/-- **Finding the callbacks of a phase**: all of them are there, or the first that is not is missing. -/
theorem findAll_does {found : Except MissingCallback (List (String × κ))}
    (h : (findAll record phase listed : Program κ φ _).Does (Machine.Serves d target) acts found) :
    (∃ occurrences, Finds listed occurrences ∧ acts = occurrences.flatMap Occurrence.lookups ∧
        found = .ok (occurrences.map fun o => (o.listed.id, o.callback))) ∨
      ∃ error, Misses target record phase listed acts error ∧ found = .error error := by
  induction listed generalizing acts found with
  | nil =>
    obtain ⟨rfl, rfl⟩ := h.pure_inv
    exact .inl ⟨[], .nil, rfl, rfl⟩
  | cons x rest ih =>
    obtain ⟨before, after, first, rfl, hx, hafter⟩ := h.bind_inv
    rcases find_does hx with ⟨occurrence, hfinds, rfl, rfl⟩ | ⟨name, error, hname, hmissing, rfl, rfl⟩
    · obtain ⟨middle, last, others, rfl, hrest, hlast⟩ := hafter.bind_inv
      have hlisted : occurrence.listed = x := List.head_eq_of_cons_eq hfinds.all
      rcases ih hrest with ⟨occurrences, hall, rfl, rfl⟩ | ⟨error, hmisses, rfl⟩
      · obtain ⟨rfl, rfl⟩ := hlast.pure_inv
        refine .inl ⟨occurrence :: occurrences, hfinds.cons hall, ?_, ?_⟩
        · rw [List.flatMap_cons, List.append_nil]
        · rw [List.map_cons, hlisted]
      · obtain ⟨rfl, rfl⟩ := hlast.pure_inv
        rw [List.append_nil]
        exact .inr ⟨error, hmisses.cons hfinds, rfl⟩
    · obtain ⟨rfl, rfl⟩ := hafter.pure_inv
      have hl : x :: rest = ([] : List (Occurrence κ)).map Occurrence.listed ++ x :: rest := rfl
      rw [List.append_nil]
      exact .inr ⟨error, .intro hl .nil hname hmissing, rfl⟩

/-! ## Calls and their visits -/

/-- **Calling callbacks**: each occurrence is called once, in order. -/
theorem callAll_does {context : Context} {occurrences : List (Occurrence κ)} {calls : List (Call φ)}
    (h : (callAll context (occurrences.map fun o => (o.listed.id, o.callback))).Does M acts calls) :
    ∃ invoked : List (Occurrence κ × Settlement φ), invoked.map (·.1) = occurrences ∧
      acts = invoked.map (fun (o, settlement) => .asked (.call o.callback context) settlement) ∧
        calls = invoked.map fun (o, settlement) => ⟨o.listed.id, .due settlement⟩ := by
  induction occurrences generalizing acts calls with
  | nil =>
    obtain ⟨rfl, rfl⟩ := h.pure_inv
    exact ⟨[], rfl, rfl, rfl⟩
  | cons first rest ih =>
    obtain ⟨settlement, more, rfl, hmore⟩ := h.ask_inv
    obtain ⟨before, after, others, rfl, hrest, hlast⟩ := hmore.bind_inv
    obtain ⟨rfl, rfl⟩ := hlast.pure_inv
    obtain ⟨invoked, rfl, rfl, rfl⟩ := ih hrest
    exact ⟨(first, settlement) :: invoked, rfl, by rw [List.append_nil, List.map_cons], rfl⟩

variable {calls calls' calls'' : List (Call φ)} {call call' : Call φ} {more : List (Act κ φ)}

namespace Visits

theorem trans (h : Visits id phase calls acts calls') (h' : Visits id phase calls' more calls'') :
    Visits id phase calls (acts ++ more) calls'' := by
  induction h with
  | none calls => exact h'
  | visit hc hv _ ih =>
    rw [List.append_assoc]
    exact .visit hc hv (ih h')

/-- A visit of one of the calls. -/
theorem single {position : Nat} (hc : calls[position]? = some call)
    (hv : Visit id phase call acts call') : Visits id phase calls acts (calls.set position call') := by
  have h := Visits.visit hc hv (.none _)
  rwa [List.append_nil] at h

theorem cons (first : Call φ) (h : Visits id phase calls acts calls') :
    Visits id phase (first :: calls) acts (first :: calls') := by
  induction h with
  | none calls => exact .none _
  | @visit calls calls' position call call' acts more hc hv _ ih =>
    have hc' : (first :: calls)[position + 1]? = some call := hc
    exact .visit hc' hv ih

end Visits

theorem noteOutcome_does {callId : String} {outcome : Outcome}
    (h : (noteOutcome id phase callId outcome : Program κ φ _).Does M acts call) :
    acts = [.made (.note id (.settle phase callId outcome))] ∧ call = ⟨callId, .noted outcome⟩ := by
  obtain ⟨more, rfl, hmore⟩ := h.make_inv
  obtain ⟨rfl, rfl⟩ := hmore.pure_inv
  exact ⟨rfl, rfl⟩

theorem pollPending_does {computation : φ} (hp : call.pending? = some computation)
    (h : (pollPending id phase call.id computation : Program κ φ _).Does M acts call') :
    Visit id phase call acts call' := by
  obtain ⟨reply, more, rfl, hmore⟩ := h.ask_inv
  cases reply with
  | yielding next =>
    obtain ⟨rfl, rfl⟩ := hmore.pure_inv
    exact .yields next hp
  | sleeping next =>
    obtain ⟨rfl, rfl⟩ := hmore.pure_inv
    exact .sleeps next hp
  | settled outcome =>
    obtain ⟨rfl, rfl⟩ := noteOutcome_does hmore
    exact .settles outcome hp

/-- **Polling a call** is a visit of it, unless its outcome is noted already. -/
theorem pollCall_does (h : (pollCall id phase call : Program κ φ _).Does M acts call') :
    (∃ outcome, call.standing = .noted outcome) ∧ acts = [] ∧ call' = call ∨
      Visit id phase call acts call' := by
  obtain ⟨callId, standing⟩ := call
  match standing with
  | .noted outcome => exact .inl ⟨⟨outcome, rfl⟩, h.pure_inv⟩
  | .due (.value value) =>
    obtain ⟨rfl, rfl⟩ := noteOutcome_does h
    exact .inr (.notes callId (.ok value))
  | .due (.error reason) =>
    obtain ⟨rfl, rfl⟩ := noteOutcome_does h
    exact .inr (.notes callId (.error reason))
  | .due (.pending computation) => exact .inr (pollPending_does rfl h)
  | .asleep computation => exact .inr (pollPending_does rfl h)

/-- Polling the call at a position visits no other. -/
theorem pollCall_visits {position : Nat} (hc : calls[position]? = some call)
    (h : (pollCall id phase call : Program κ φ _).Does M acts call') :
    Visits id phase calls acts (calls.set position call') := by
  rcases pollCall_does h with ⟨-, rfl, rfl⟩ | hv
  · obtain ⟨hlt, rfl⟩ := List.getElem?_eq_some_iff.1 hc
    rw [List.set_getElem_self]
    exact .none calls
  · exact .single hc hv

/-- **Polling all calls** is a sweep. -/
theorem pollAll_does (h : (pollAll id phase calls : Program κ φ _).Does M acts calls') :
    Sweep id phase calls acts calls' := by
  induction calls generalizing acts calls' with
  | nil =>
    obtain ⟨rfl, rfl⟩ := h.pure_inv
    exact .nil
  | cons call rest ih =>
    obtain ⟨before, after, polled, rfl, hcall, hafter⟩ := h.bind_inv
    obtain ⟨middle, last, others, rfl, hrest, hlast⟩ := hafter.bind_inv
    obtain ⟨rfl, rfl⟩ := hlast.pure_inv
    rw [List.append_nil]
    rcases pollCall_does hcall with ⟨⟨outcome, hnoted⟩, rfl, rfl⟩ | hvisit
    · exact .skip hnoted (ih hrest)
    · exact .visit hvisit (ih hrest)

/-- A sweep visits calls in their order. -/
theorem Sweep.visits (h : Sweep id phase calls acts calls') : Visits id phase calls acts calls' := by
  induction h with
  | nil => exact .none []
  | skip _ _ ih => exact ih.cons _
  | @visit call call' rest rest' acts more hvisit _ ih =>
    have hc : (call :: rest)[0]? = some call := rfl
    exact .visit hc hvisit (ih.cons call')

theorem Round.visits (h : Round id phase calls acts calls') : Visits id phase calls acts calls' := by
  cases h with
  | sweep _ hsweep => exact hsweep.visits
  | turns _ hvisits _ => exact hvisits

theorem Attended.visits (h : Attended id phase calls acts calls') : Visits id phase calls acts calls' := by
  induction h with
  | once hround => exact hround.visits
  | again _ hround ih => exact ih.trans hround.visits

theorem Visits.length_eq (h : Visits id phase calls acts calls') : calls'.length = calls.length := by
  induction h with
  | none calls => rfl
  | visit _ _ _ ih => rw [ih, List.length_set]

/-- Something is done in a visit. -/
theorem Visit.ne_nil (h : Visit id phase call acts call') : acts ≠ [] := by
  cases h <;> exact List.cons_ne_nil _ _

/-- The call whose turn it is stands at its position, and no call changes before it is polled. -/
theorem Roster.next_eq_some {roster roster' : Roster φ} {position : Nat}
    (h : roster.next? = some (position, call, roster')) :
    roster.calls[position]? = some call ∧ roster'.calls = roster.calls := by
  unfold next? at h
  split at h
  · exact nomatch h
  · obtain ⟨found, hfound, heq⟩ := Option.map_eq_some_iff.1 h
    cases heq
    exact ⟨hfound, rfl⟩

/-- The call whose turn it is leaves the queue. -/
theorem Roster.queue_of_next {roster roster' : Roster φ} {position : Nat}
    (h : roster.next? = some (position, call, roster')) :
    ∃ queue, roster.queue = position :: queue ∧ roster' = { roster with queue } := by
  unfold next? at h
  split at h
  · exact nomatch h
  · rename_i first queue hqueue
    obtain ⟨found, -, heq⟩ := Option.map_eq_some_iff.1 h
    cases heq
    exact ⟨queue, hqueue, rfl⟩

/-! ## Turns -/

namespace Roster.KeepsTurns

variable {roster : Roster φ}

/-- Calls that were just made are all due, and all of them queue. -/
theorem start {calls : List (Call φ)} (h : ∀ call ∈ calls, call.outcome? = none) :
    (Roster.start calls).KeepsTurns := by
  refine ⟨⟨0, Fair.start h 0⟩, fun position call settlement hc _ => ?_⟩
  exact List.mem_range.2 (List.getElem?_eq_some_iff.1 hc).1

/-- Whoever queues still does so when the machine is heeded. -/
theorem heed (h : roster.KeepsTurns) (wakeUps : Nat) : (roster.heed wakeUps).KeepsTurns := by
  obtain ⟨wakes, hfair⟩ := h.fair
  refine ⟨⟨wakeUps, hfair.heed wakeUps⟩, fun position call settlement hc hdue => ?_⟩
  rw [calls_heed] at hc
  have hqueue := h.due position call settlement hc hdue
  unfold Roster.heed
  split
  · exact hqueue
  · exact List.mem_append_left _ hqueue

/-- **A turn keeps the turns of all calls**: the one that had its turn queues again if it is due. -/
theorem turn {position : Nat} {queue : List Nat} (h : roster.KeepsTurns)
    (hq : roster.queue = position :: queue) (hp : position < roster.calls.length) (call : Call φ) :
    (({ roster with queue } : Roster φ).record position call).KeepsTurns := by
  obtain ⟨wakes, hfair⟩ := h.fair
  refine ⟨⟨wakes, hfair.record hq hp⟩, fun other call' settlement hc hdue => ?_⟩
  rw [calls_record] at hc
  by_cases hother : other = position
  · subst hother
    rw [List.getElem?_set_self hp] at hc
    cases hc
    simp [Roster.record, hdue]
  · rw [List.getElem?_set_ne (Ne.symm hother)] at hc
    have hqueue : other ∈ queue := by
      have hold := h.due other call' settlement hc hdue
      rw [hq] at hold
      exact (List.mem_cons.1 hold).resolve_left hother
    unfold Roster.record
    cases call.standing with
    | due _ => exact List.mem_append_left _ hqueue
    | asleep _ => exact hqueue
    | noted _ => exact hqueue

end Roster.KeepsTurns

/-- **The turns of a crowd** visit its calls in the order of its queue, and the calls keep their turns. -/
theorem pollTurns_does {left turns yields : Nat} {roster roster' : Roster φ}
    (h : (pollTurns id phase left turns yields roster : Program κ φ _).Does M acts roster') :
    Visits id phase roster.calls acts roster'.calls ∧ (roster.KeepsTurns → roster'.KeepsTurns) := by
  induction left, turns, yields, roster using pollTurns.induct generalizing acts roster' with
  | case1 turns yields roster =>
    rw [pollTurns] at h
    obtain ⟨rfl, rfl⟩ := h.pure_inv
    exact ⟨.none _, fun hk => hk⟩
  | case2 left yields roster hleft =>
    rw [pollTurns] at h
    · obtain ⟨rfl, rfl⟩ := h.pure_inv
      exact ⟨.none _, fun hk => hk⟩
    · exact hleft
  | case3 left turns roster hleft hturns =>
    rw [pollTurns] at h
    · obtain ⟨rfl, rfl⟩ := h.pure_inv
      exact ⟨.none _, fun hk => hk⟩
    · exact hleft
    · exact hturns
  | case4 roster left turns yields ih1 ih2 ih3 =>
    rw [pollTurns] at h
    obtain ⟨m, -, hlook⟩ := h.look_inv
    cases hn : (roster.heed m.wakeUps).next? with
    | none =>
      rw [hn] at hlook
      obtain ⟨rfl, rfl⟩ := hlook.pure_inv
      exact ⟨.none _, fun hk => hk⟩
    | some found =>
      obtain ⟨position, call, queued⟩ := found
      rw [hn] at hlook
      obtain ⟨before, after, polled, rfl, hcall, hafter⟩ := hlook.bind_inv
      obtain ⟨hc, hcalls⟩ := Roster.next_eq_some hn
      rw [roster.calls_heed] at hc hcalls
      have hrest : Visits id phase (queued.record position polled).calls after roster'.calls ∧
          ((queued.record position polled).KeepsTurns → roster'.KeepsTurns) := by
        cases hs : polled.standing with
        | noted outcome => rw [hs] at hafter; exact ih1 _ _ _ hafter
        | due settlement => rw [hs] at hafter; exact ih2 _ _ _ hafter
        | asleep computation => rw [hs] at hafter; exact ih3 _ _ _ hafter
      rw [Roster.calls_record, hcalls] at hrest
      refine ⟨(pollCall_visits hc hcall).trans hrest.1, fun hk => hrest.2 ?_⟩
      obtain ⟨queue, hqueue, rfl⟩ := Roster.queue_of_next hn
      have hlt := (List.getElem?_eq_some_iff.1 hc).1
      rw [← roster.calls_heed m.wakeUps] at hlt
      exact (hk.heed m.wakeUps).turn hqueue hlt polled

/-- If a call is due, the one whose turn it is has it. -/
theorem Call.outcome_eq_some {call : Call φ} {outcome : Outcome} :
    call.outcome? = some outcome ↔ call.standing = .noted outcome := by
  unfold outcome?
  cases call.standing with
  | noted noted => exact ⟨fun h => congrArg Standing.noted (Option.some.inj h), fun h => by cases h; rfl⟩
  | _ => exact iff_of_false (fun h => nomatch h) fun h => nomatch h

theorem pollTurns_ne_nil {left turns yields : Nat} {roster roster' : Roster φ}
    (h : (pollTurns id phase (left + 1) (turns + 1) (yields + 1) roster : Program κ φ _).Does M acts roster')
    (hk : roster.KeepsTurns)
    (hdue : ∃ call ∈ roster.calls, ∃ settlement, call.standing = .due settlement) : acts ≠ [] := by
  rw [pollTurns] at h
  obtain ⟨m, -, hlook⟩ := h.look_inv
  obtain ⟨wakes, hfair⟩ := (hk.heed m.wakeUps).fair
  obtain ⟨call, hcall, settlement, hs⟩ := hdue
  obtain ⟨position, hposition⟩ := List.getElem?_of_mem hcall
  rw [← roster.calls_heed m.wakeUps] at hposition
  have hqueue := (hk.heed m.wakeUps).due position call settlement hposition hs
  rcases hfair.next with ⟨hnil, -⟩ | ⟨first, queue, call', -, -, hnone, hnext⟩
  · exact absurd (hnil ▸ hqueue) List.not_mem_nil
  · rw [hnext] at hlook
    obtain ⟨before, after, polled, rfl, hpoll, -⟩ := hlook.bind_inv
    rcases pollCall_does hpoll with ⟨⟨outcome, hnoted⟩, -, -⟩ | hvisit
    · exact absurd ((Call.outcome_eq_some.2 hnoted).symm.trans hnone) (Option.some_ne_none outcome)
    · exact List.append_ne_nil_of_left_ne_nil hvisit.ne_nil after

theorem Roster.isCrowd_iff {roster : Roster φ} : roster.isCrowd = true ↔ 30 < roster.calls.length :=
  decide_eq_true_iff

/-- **A poll of a phase** is a round of its calls, and a crowd keeps its turns. -/
theorem pollRoster_does {roster roster' : Roster φ}
    (hk : 30 < roster.calls.length → roster.KeepsTurns)
    (h : (pollRoster id phase roster : Program κ φ _).Does M acts roster') :
    Round id phase roster.calls acts roster'.calls ∧ (30 < roster'.calls.length → roster'.KeepsTurns) := by
  unfold pollRoster at h
  split at h
  · rename_i hcrowd
    have hmany := Roster.isCrowd_iff.1 hcrowd
    obtain ⟨hvisits, hkeeps⟩ := pollTurns_does h
    refine ⟨.turns hmany hvisits fun hdue => ?_, fun _ => hkeeps (hk hmany)⟩
    have hunsettled : 0 < roster.unsettled := by
      obtain ⟨call, hcall, settlement, hs⟩ := hdue
      exact List.countP_pos_iff.2 ⟨call, hcall, by rw [Call.outcome?, hs]; rfl⟩
    obtain ⟨left, hleft⟩ := Nat.exists_eq_succ_of_ne_zero (Nat.ne_of_gt hunsettled)
    rw [hleft] at h
    exact pollTurns_ne_nil h (hk hmany) hdue
  · rename_i hcrowd
    have hfew : roster.calls.length ≤ 30 := Nat.le_of_not_lt fun hlt => hcrowd (Roster.isCrowd_iff.2 hlt)
    obtain ⟨before, after, polled, rfl, hcalls, hafter⟩ := h.bind_inv
    obtain ⟨rfl, rfl⟩ := hafter.pure_inv
    rw [List.append_nil]
    have hsweep := pollAll_does hcalls
    refine ⟨.sweep hfew hsweep, fun hmany => absurd hmany (Nat.not_lt.2 ?_)⟩
    exact hsweep.visits.length_eq ▸ hfew

/-! ## Phases -/

variable {roster : Roster φ} {advance : Advance φ} {phases : List Phase}

theorem continuePhase_does (hk : 30 < roster.calls.length → roster.KeepsTurns)
    (h : (continuePhase id phase roster : Program κ φ _).Does M acts advance) :
    ∃ roster', Round id phase roster.calls acts roster'.calls ∧
      (30 < roster'.calls.length → roster'.KeepsTurns) ∧ advance = .ofRoster phase roster' := by
  obtain ⟨before, after, roster', rfl, hpoll, hafter⟩ := h.bind_inv
  obtain ⟨rfl, rfl⟩ := hafter.pure_inv
  obtain ⟨hround, hkeeps⟩ := pollRoster_does hk hpoll
  rw [List.append_nil]
  exact ⟨roster', hround, hkeeps, rfl⟩

/-- A phase that is started lacks a callback, or all of its callbacks are called, and then it is continued. -/
theorem startPhase_cases
    (h : (startPhase id t phase : Program κ φ _).Does (Machine.Serves d target) acts advance) :
    (∃ error, Misses target t.record phase (d.listed t.record phase) acts error ∧
        advance = .over (.error (.missing error))) ∨
      ∃ (invoked : List (Occurrence κ × Settlement φ)) (visits : List (Act κ φ)),
        Finds (d.listed t.record phase) (invoked.map (·.1)) ∧
          (continuePhase id phase (.start (invoked.map fun (occurrence, settlement) =>
            ⟨occurrence.listed.id, .due settlement⟩))).Does (Machine.Serves d target) visits advance ∧
            acts = invoked.flatMap (·.1.lookups) ++ .made (.note id .begin) ::
              (invoked.map (fun (occurrence, settlement) =>
                  .asked (.call occurrence.callback (t.context phase)) settlement) ++ visits) := by
  obtain ⟨lookups, after, found, rfl, hfind, hafter⟩ := h.bind_inv
  obtain ⟨m, hm, hfindAll⟩ := hfind.look_inv
  rw [hm.definition] at hfindAll
  rcases findAll_does hfindAll with ⟨occurrences, hfinds, rfl, rfl⟩ | ⟨error, hmisses, rfl⟩
  · obtain ⟨more, rfl, hbegun⟩ := hafter.make_inv
    obtain ⟨called, polled, calls, rfl, hcalls, hphase⟩ := hbegun.bind_inv
    obtain ⟨invoked, rfl, rfl, rfl⟩ := callAll_does hcalls
    refine .inr ⟨invoked, polled, hfinds, hphase, ?_⟩
    rw [List.flatMap_map]
  · obtain ⟨rfl, rfl⟩ := hafter.pure_inv
    rw [List.append_nil]
    exact .inl ⟨error, hmisses, rfl⟩

/-- **A phase that is started** lacks a callback, or all of its callbacks are called. -/
theorem startPhase_does
    (h : (startPhase id t phase : Program κ φ _).Does (Machine.Serves d target) acts advance) :
    (∃ error, Misses target t.record phase (d.listed t.record phase) acts error ∧
        advance = .over (.error (.missing error))) ∨
      ∃ roster : Roster φ, Ran id (t.context phase) (d.listed t.record phase) acts roster.calls ∧
        (30 < roster.calls.length → roster.KeepsTurns) ∧ advance = .ofRoster phase roster := by
  rcases startPhase_cases h with hmisses | ⟨invoked, visits, hfinds, hphase, rfl⟩
  · exact .inl hmisses
  · have hnone : ∀ call ∈ (invoked.map fun (occurrence, settlement) =>
        (⟨occurrence.listed.id, .due settlement⟩ : Call φ)), call.outcome? = none := by
      intro call hcall
      obtain ⟨_, -, rfl⟩ := List.mem_map.1 hcall
      rfl
    obtain ⟨roster, hround, hkeeps, rfl⟩ := continuePhase_does (fun _ => .start hnone) hphase
    exact .inr ⟨roster, .intro hfinds (.once hround), hkeeps, rfl⟩

/-- Another poll of a phase whose callbacks are called is another round of its calls. -/
theorem Ran.round {context : Context} (h : Ran id context listed acts calls)
    (hr : Round id context.phase calls more calls') : Ran id context listed (acts ++ more) calls' := by
  obtain ⟨hfinds, hattended⟩ := h
  simp only [List.append_assoc, List.cons_append]
  exact .intro hfinds (hattended.again hr)

theorem outcomes_of_mapM {outcomes : List Outcome} (h : calls.mapM Call.outcome? = some outcomes) :
    calls.map Call.outcome? = outcomes.map some := by
  induction calls generalizing outcomes with
  | nil =>
    cases h
    rfl
  | cons call rest ih =>
    rw [List.mapM_cons] at h
    obtain ⟨outcome, hcall, h⟩ := Option.bind_eq_some_iff.1 h
    obtain ⟨others, hrest, h⟩ := Option.bind_eq_some_iff.1 h
    cases h
    rw [List.map_cons, List.map_cons, hcall, ih hrest]

theorem ok_of_lastFailure {outcomes : List Outcome} (h : lastFailure? outcomes = none) :
    ∀ outcome ∈ outcomes, ∃ value, outcome = .ok value := by
  intro outcome ho
  have hnone := List.filterMap_eq_nil_iff.1 (List.getLast?_eq_none_iff.1 h) outcome ho
  cases outcome with
  | ok value => exact ⟨value, rfl⟩
  | error reason => exact nomatch hnone

/-- **How a phase ends** that ran: its calls have not all settled, or all succeeded, or one failed. -/
theorem Advance.ofRoster_cases (phase : Phase) (roster : Roster φ) :
    ((∃ call ∈ roster.calls, call.outcome? = none) ∧
        Advance.ofRoster phase roster = .waiting phase roster) ∨
      ((∀ call ∈ roster.calls, ∃ value, call.outcome? = some (.ok value)) ∧
        Advance.ofRoster phase roster = .over (.ok ())) ∨
      ∃ outcomes reason, roster.calls.map Call.outcome? = outcomes.map some ∧
        lastFailure? outcomes = some reason ∧
          Advance.ofRoster phase roster = .over (.error (.callback reason)) := by
  unfold ofRoster
  cases ho : roster.outcomes? with
  | none => exact .inl ⟨Roster.exists_of_outcomes ho, rfl⟩
  | some outcomes =>
    have hall := outcomes_of_mapM ho
    dsimp only
    cases hf : lastFailure? outcomes with
    | some reason => exact .inr (.inr ⟨outcomes, reason, hall, hf, rfl⟩)
    | none =>
      refine .inr (.inl ⟨fun call hcall => ?_, rfl⟩)
      have hmem : call.outcome? ∈ outcomes.map some := hall ▸ List.mem_map_of_mem hcall
      obtain ⟨outcome, hout, heq⟩ := List.mem_map.1 hmem
      obtain ⟨value, rfl⟩ := ok_of_lastFailure hf outcome hout
      exact ⟨value, heq.symm⟩

/-- Calls that all succeeded have their outcomes. -/
theorem outcomes_of_ok (h : ∀ call ∈ calls, ∃ value, call.standing = .noted (.ok value)) :
    ∃ outcomes : List Outcome, calls.map Call.outcome? = outcomes.map some ∧ lastFailure? outcomes = none := by
  induction calls with
  | nil => exact ⟨[], rfl, rfl⟩
  | cons call rest ih =>
    obtain ⟨⟨value, hcall⟩, hrest⟩ := List.forall_mem_cons.1 h
    obtain ⟨outcomes, hall, hnone⟩ := ih hrest
    refine ⟨.ok value :: outcomes, ?_, hnone⟩
    rw [List.map_cons, List.map_cons, Call.outcome_eq_some.2 hcall, hall]

/-- **Calls that failed**: all have their outcomes, and after the last failure all succeeded. -/
theorem Call.failed_iff {reason : Json} :
    (∃ outcomes : List Outcome, calls.map Call.outcome? = outcomes.map some ∧
        lastFailure? outcomes = some reason) ↔
      ∃ before callId after, calls = before ++ ⟨callId, .noted (.error reason)⟩ :: after ∧
        (∀ call ∈ before, ∃ outcome, call.standing = .noted outcome) ∧
          ∀ call ∈ after, ∃ value, call.standing = .noted (.ok value) := by
  constructor
  · rintro ⟨outcomes, hall, hfail⟩
    induction calls generalizing outcomes with
    | nil =>
      obtain rfl := List.map_eq_nil_iff.1 hall.symm
      exact nomatch hfail
    | cons call rest ih =>
      cases outcomes with
      | nil => exact nomatch hall
      | cons outcome outcomes =>
        obtain ⟨hcall, hrest⟩ := List.cons.inj hall
        have hnoted := Call.outcome_eq_some.1 hcall
        cases hlast : lastFailure? outcomes with
        | some last =>
          obtain rfl := Option.some.inj ((lastFailure_cons hlast outcome).symm.trans hfail)
          obtain ⟨before, callId, after, rfl, hbefore, hafter⟩ := ih outcomes hrest hlast
          exact ⟨call :: before, callId, after, rfl, List.forall_mem_cons.2 ⟨⟨outcome, hnoted⟩, hbefore⟩, hafter⟩
        | none =>
          -- no later call failed, and so this one did
          cases outcome with
          | ok value => exact nomatch hlast.symm.trans hfail
          | error first =>
            rw [lastFailure_error, hlast] at hfail
            have hreason : first = reason := Option.some.inj hfail
            subst hreason
            refine ⟨[], call.id, rest, ?_, fun _ h => (nomatch h), fun call' hcall' => ?_⟩
            · rw [List.nil_append, ← hnoted]
            · have hmem : call'.outcome? ∈ outcomes.map some := hrest ▸ List.mem_map_of_mem hcall'
              obtain ⟨settled, hsettled, heq⟩ := List.mem_map.1 hmem
              obtain ⟨value, rfl⟩ := ok_of_lastFailure hlast settled hsettled
              exact ⟨value, Call.outcome_eq_some.1 heq.symm⟩
  · rintro ⟨before, callId, after, rfl, hbefore, hafter⟩
    obtain ⟨outcomes, hall, hnone⟩ := outcomes_of_ok hafter
    induction before with
    | nil =>
      refine ⟨.error reason :: outcomes, ?_, ?_⟩
      · rw [List.nil_append, List.map_cons, List.map_cons, hall]
        rfl
      · rw [lastFailure_error, hnone]
        rfl
    | cons call before ih =>
      obtain ⟨⟨outcome, hcall⟩, hbefore⟩ := List.forall_mem_cons.1 hbefore
      obtain ⟨earlier, hearlier, hfail⟩ := ih hbefore
      refine ⟨outcome :: earlier, ?_, lastFailure_cons hfail outcome⟩
      rw [List.cons_append, List.map_cons, List.map_cons, Call.outcome_eq_some.2 hcall, hearlier]

/-! ## Performances -/

/-- What a transition does after a phase: it goes on, or ends if the phase failed. -/
theorem after_does {later : List Phase}
    (hlater : ∀ {more : List (Act κ φ)} {a : Advance φ},
      (startPhases id t later : Program κ φ _).Does (Machine.Serves d target) more a →
        Conducted d target id t later more a)
    (hran : Ran id (t.context phase) (d.listed t.record phase) acts roster.calls)
    (hkeeps : 30 < roster.calls.length → roster.KeepsTurns)
    (h : (match Advance.ofRoster phase roster with
        | .waiting phase roster => pure (.waiting phase roster)
        | .over (.ok ()) => startPhases id t later
        | .over (.error rejection) => do
          make (.note id (.reject rejection))
          pure (.over (.error rejection)) : Program κ φ (Advance φ)).Does (Machine.Serves d target) more
      advance) :
    Conducted d target id t (phase :: later) (acts ++ more) advance := by
  rcases Advance.ofRoster_cases phase roster with
    ⟨hwaits, heq⟩ | ⟨hok, heq⟩ | ⟨outcomes, reason, hall, hfail, heq⟩
  · rw [heq] at h
    obtain ⟨rfl, rfl⟩ := h.pure_inv
    rw [List.append_nil]
    obtain ⟨call, hcall, hnone⟩ := hwaits
    refine .waiting hran ⟨call, hcall, fun outcome hnoted => ?_⟩ hkeeps
    rw [Call.outcome?, hnoted] at hnone
    exact nomatch hnone
  · rw [heq] at h
    exact .next hran (fun call hcall => (hok call hcall).imp fun _ => Call.outcome_eq_some.1) (hlater h)
  · rw [heq] at h
    obtain ⟨last, rfl, hlast⟩ := h.make_inv
    obtain ⟨rfl, rfl⟩ := hlast.pure_inv
    obtain ⟨before, callId, after, hcalls, hbefore, hafter⟩ := Call.failed_iff.1 ⟨outcomes, hall, hfail⟩
    rw [hcalls] at hran
    exact .failed hran hbefore hafter

/-- **Phases that are started one after the other** are conducted. -/
theorem startPhases_does
    (h : (startPhases id t phases : Program κ φ _).Does (Machine.Serves d target) acts advance) :
    Conducted d target id t phases acts advance := by
  induction phases generalizing acts advance with
  | nil =>
    obtain ⟨more, rfl, hmore⟩ := h.make_inv
    obtain ⟨rfl, rfl⟩ := hmore.pure_inv
    exact .resolved
  | cons phase later ih =>
    obtain ⟨before, after, came, rfl, hphase, hafter⟩ := h.bind_inv
    rcases startPhase_does hphase with ⟨error, hmisses, rfl⟩ | ⟨roster, hran, hkeeps, rfl⟩
    · obtain ⟨last, rfl, hlast⟩ := hafter.make_inv
      obtain ⟨rfl, rfl⟩ := hlast.pure_inv
      exact .missing hmisses
    · exact after_does ih hran hkeeps hafter

/-- **Another poll goes on where the last one had to wait**, and what both do is in order. -/
theorem Conducted.again (hphases : phases <:+ Phase.all)
    (h : Conducted d target id t phases acts (.waiting phase roster))
    (hmore : (continuePerform id t phase roster : Program κ φ _).Does (Machine.Serves d target) more
      advance) :
    Conducted d target id t phases (acts ++ more) advance := by
  generalize hcame : Advance.waiting phase roster = came at h
  induction h with
  | resolved => exact nomatch hcame
  | missing _ => exact nomatch hcame
  | failed _ _ _ => exact nomatch hcame
  | waiting hran _ hkeeps =>
    cases hcame
    obtain ⟨before, after, polled, rfl, hphase, hafter⟩ := hmore.bind_inv
    obtain ⟨roster', hround, hkeeps', rfl⟩ := continuePhase_does hkeeps hphase
    rw [Phase.later_eq hphases] at hafter
    rw [← List.append_assoc]
    exact after_does startPhases_does (hran.round hround) hkeeps' hafter
  | next hran hok _ ih =>
    rw [List.append_assoc]
    exact .next hran hok (ih ((List.suffix_cons _ _).trans hphases) hcame)

/-- The phases of a transition do not depend on its book. -/
theorem startPhases_book (id : TransitionId) (t : Transition) (progress : Progress)
    (phases : List Phase) :
    (startPhases id { t with progress } phases : Program κ φ _) = startPhases id t phases := by
  induction phases with
  | nil => rfl
  | cons phase later ih =>
    unfold startPhases
    rw [ih]
    rfl

theorem advance_book (id : TransitionId) (t : Transition) (progress : Progress) (stage : Stage φ) :
    (StateEngine.advance id { t with progress } stage : Program κ φ _) =
      StateEngine.advance id t stage := by
  cases stage with
  | waiting phase roster => simp only [StateEngine.advance, continuePerform, startPhases_book]
  | _ => exact startPhases_book id t progress Phase.all

/-- **A performance is conducted in the order of the phases**, however its polls are spread. -/
theorem Performance.conducted (h : Performance d target id t acts advance) :
    Conducted d target id t Phase.all acts advance := by
  induction h with
  | first h =>
    rw [advance_book] at h
    exact startPhases_does h
  | again _ hmore ih =>
    rw [advance_book] at hmore
    exact ih.again List.suffix_rfl hmore

/-- A crowd that waits keeps the turns of its calls. -/
theorem Conducted.keepsTurns (h : Conducted d target id t phases acts (.waiting phase roster)) :
    30 < roster.calls.length → roster.KeepsTurns := by
  generalize hcame : Advance.waiting phase roster = came at h
  induction h with
  | resolved => exact nomatch hcame
  | missing _ => exact nomatch hcame
  | failed _ _ _ => exact nomatch hcame
  | waiting _ _ hkeeps =>
    cases hcame
    exact hkeeps
  | next _ _ _ ih => exact ih hcame

/-- **Another poll begins with a round** of the calls that the last one left. -/
theorem Performance.round (h : Performance d target id t acts (.waiting phase roster)) {progress : Progress}
    (hmore : (StateEngine.advance id { t with progress } (.waiting phase roster)).Does
      (Machine.Serves d target) more advance) :
    ∃ visits rest calls, more = visits ++ rest ∧ Round id phase roster.calls visits calls := by
  rw [advance_book] at hmore
  obtain ⟨visits, rest, polled, rfl, hphase, -⟩ := hmore.bind_inv
  obtain ⟨roster', hround, -⟩ := continuePhase_does h.conducted.keepsTurns hphase
  exact ⟨visits, rest, roster'.calls, rfl, hround⟩

/-! ## Compiled definitions -/

variable {spec : Json} {inline : List (InlineHook κ)}

/-- The hooks of a state, as a phase lists them. -/
theorem Definition.listedHooks_compile (h : Definition.compile spec inline = .ok d) (state : String)
    (hp : phase ∈ Phase.hooks) :
    d.listedHooks state phase =
      Reading.listedHooks spec inline (fun state => (d.stateIndex? state).getD 0) state phase := by
  unfold listedHooks Reading.listedHooks
  rw [Definition.hooksOf_compile h state hp, List.mapIdx_append]
  congr 1
  · refine List.mapIdx_eq_iff.2 fun i => ?_
    rw [List.getElem?_map, List.getElem?_map, Option.map_map]
    rfl
  · refine List.mapIdx_eq_iff.2 fun i => ?_
    rw [List.getElem?_mapIdx, List.getElem?_map, Option.map_map, List.length_map, Nat.add_comm]
    rfl

/-- **The callbacks of a phase** of a record that a transition object gives. -/
theorem Definition.listed_compile (h : Definition.compile spec inline = .ok d) {event object : Json}
    {name : String} (hr : record = Reading.record name event object record.fromState) (phase : Phase) :
    d.listed record phase =
      Reading.listed spec inline (fun state => (d.stateIndex? state).getD 0) record event object phase := by
  have hnames : record.callbacks.get phase =
      Reading.callbacks event phase ++ Reading.callbacks object phase := by
    rw [hr]
    exact Reading.record_callbacks name event object _ phase
  have hhooks : ∀ state, phase ∈ Phase.hooks →
      d.listedHooks state phase ++ Reading.named event object phase =
        Reading.listedHooks spec inline (fun state => (d.stateIndex? state).getD 0) state phase ++
          Reading.named event object phase := by
    intro state hp
    rw [Definition.listedHooks_compile h state hp]
  unfold Definition.listed
  rw [hnames]
  cases phase with
  | beforeEvent => rfl
  | willExit => exact hhooks record.fromState (by decide)
  | willEnter => exact hhooks record.toState (by decide)
  | didExit => exact hhooks record.fromState (by decide)
  | didEnter => exact hhooks record.toState (by decide)
  | afterEvent => rfl

/-- **The order in which a transition of a compiled definition is performed**, whatever callbacks the target
has, what they come to, and how the polls are spread. The callbacks of a phase are those that the value of
the definition has: named and inline hooks of the state, then those of the event, then those of the
transition object. They are all found before the first is called, each of them is called once, and the phases
follow one another up to the first that fails. A poll of a phase that waits goes on with the calls that have no
outcome yet. -/
theorem performance_conducted (h : Definition.compile spec inline = .ok d) {name : String}
    (ht : t.record ∈ d.recordsFor name none) (target : String) (id : TransitionId) :
    (∃ object ∈ Reading.objects (Reading.event spec name),
        t.record = Reading.record name (Reading.event spec name) object t.record.fromState ∧
          ∀ phase, d.listed t.record phase =
            Reading.listed spec inline (fun state => (d.stateIndex? state).getD 0) t.record
              (Reading.event spec name) object phase) ∧
      (∀ (acts : List (Act κ φ)) (advance : Advance φ), Performance d target id t acts advance →
        Conducted d target id t
          [.beforeEvent, .willExit, .willEnter, .didExit, .didEnter, .afterEvent] acts advance) ∧
        ∀ (acts more : List (Act κ φ)) (phase : Phase) (roster : Roster φ) (progress : Progress)
            (next : Advance φ),
          Performance d target id t acts (.waiting phase roster) →
          (StateEngine.advance id { t with progress } (.waiting phase roster)).Does (Machine.Serves d target)
            more next →
          ∃ visits rest calls, more = visits ++ rest ∧ Round id phase roster.calls visits calls := by
  refine ⟨?_, fun acts advance hp => hp.conducted, fun _ _ _ _ _ _ hp hmore => hp.round hmore⟩
  rw [Definition.recordsFor_compile h] at ht
  obtain ⟨object, hobject, hentries⟩ := List.mem_flatMap.1 (List.mem_of_mem_filter ht)
  obtain ⟨entry, -, hrecord⟩ := List.mem_flatMap.1 hentries
  obtain ⟨state, -, hrecord⟩ := List.mem_map.1 hrecord
  have hr : t.record = Reading.record name (Reading.event spec name) object t.record.fromState := by
    rw [← hrecord]
    rfl
  exact ⟨object, hobject, hr, Definition.listed_compile h hr⟩

end

namespace Gate

/-- A gate that is unlocked before it opens. It creaks on its way, and there is a thud and a light in the end. -/
def spec : Json := .object [
  ("states", .object [("initialState", .string "shut"),
    ("shut", .object [("willExit", .string "creak")]),
    ("wide", .object [("didEnter", .string "thud")])]),
  ("events", .object [("open", .object [
    ("before", .string "log"), ("after", .string "report"),
    ("transition", .object [("shut", .string "wide"), ("before", .string "unlock"),
      ("didEnter", .string "light")])])])]

/-- The inline hooks of the gate. -/
def ring : InlineHook String := ⟨"shut", .willExit, "ring"⟩

def bell : InlineHook String := ⟨"wide", .didEnter, "bell"⟩

def record : Record := ⟨"open", "shut", "wide", .none, ⟨["log", "unlock"], [], [], [], ["light"], ["report"]⟩⟩

def definition : Definition String :=
  ⟨"shut", ["shut", "wide"].map (State.ofRecords [record]), [⟨"open", [record]⟩],
    [⟨"shut", .willExit, .named "creak"⟩, ⟨"wide", .didEnter, .named "thud"⟩,
      ⟨"shut", .willExit, .inline "ring"⟩, ⟨"wide", .didEnter, .inline "bell"⟩]⟩

theorem compile_spec : Definition.compile spec [ring, bell] = .ok definition := rfl

def transition : Transition := .fresh record [.string "by hand"]

/-- What every callback is told. -/
def context (phase : Phase) : Context := ⟨"open", "shut", "wide", phase, [.string "by hand"]⟩

/-- What is noted of a callback that succeeds. -/
def settle (phase : Phase) (callId : String) : Act String Unit := .made (.note 0 (.settle phase callId (.ok .null)))

/-- A callback that succeeds at once. -/
def call (phase : Phase) (callback : String) : Act String Unit :=
  .asked (.call callback (context phase)) (.value .null)

/-- What is done in the first poll, in which logging takes longer. -/
def start : List (Act String Unit) := [
  .asked (.callback "log") (some "log"), .asked (.callback "unlock") (some "unlock"),
  .made (.note 0 .begin),
  .asked (.call "log" (context .beforeEvent)) (.pending ()), call .beforeEvent "unlock",
  .asked (.poll ()) (.yielding ()), settle .beforeEvent "transition:unlock"]

/-- The calls that the first poll leaves. -/
def roster : Roster Unit :=
  ⟨[⟨"transition:log", .due (.pending ())⟩, ⟨"transition:unlock", .noted (.ok .null)⟩], [0, 1], [], 0⟩

/-- What is missing in the last phase. -/
def missing : MissingCallback := .transition "report" "gate" record .afterEvent

/-- What is done in the second poll. The gate is wide open when it turns out that nobody can report it. -/
def rest : List (Act String Unit) := [
  .asked (.poll ()) (.settled (.ok .null)), settle .beforeEvent "transition:log",
  .asked (.callback "creak") (some "creak"), .made (.note 0 .begin),
  call .willExit "creak", call .willExit "ring",
  settle .willExit "state:creak", settle .willExit "state:_inline:0-1_",
  .made (.note 0 .begin), .made (.note 0 .begin),
  .asked (.callback "thud") (some "thud"), .asked (.callback "light") (some "light"), .made (.note 0 .begin),
  call .didEnter "thud", call .didEnter "bell", call .didEnter "light",
  settle .didEnter "state:thud", settle .didEnter "state:_inline:1-1_", settle .didEnter "transition:light",
  .asked (.callback "report") none, .made (.note 0 (.reject (.missing missing)))]

def machine : Machine String Unit := .start definition "gate" toString "shut" 0

theorem machine_serves : machine.Serves definition "gate" := ⟨rfl, rfl⟩

theorem start_does : (advance 0 transition .unpolled).Does (Machine.Serves definition "gate") start
    (.waiting .beforeEvent roster) :=
  .look machine_serves <| .ask <| .ask <| .change <| .ask <| .ask <| .ask <| .change <| .done _

/-- In turn: the call that was left, the hooks of the state that is left, two phases without callbacks, the hooks
of the state that is entered, and the last phase. -/
theorem rest_does : (advance 0 transition (.waiting .beforeEvent roster)).Does
    (Machine.Serves definition "gate") rest (.over (.error (.missing missing))) :=
  .ask <| .change <|
    .look machine_serves <| .ask <| .change <| .ask <| .ask <| .change <| .change <|
    .look machine_serves <| .change <| .look machine_serves <| .change <|
    .look machine_serves <| .ask <| .ask <| .change <| .ask <| .ask <| .ask <| .change <| .change <| .change <|
    .look machine_serves <| .ask <| .look machine_serves <| .change <| .done _

theorem waits : Performance definition "gate" 0 transition start (.waiting .beforeEvent roster) := .first start_does

theorem performance : Performance definition "gate" 0 transition (start ++ rest)
    (.over (.error (.missing missing))) :=
  .again waits rest_does

end Gate

/-- The hooks of both states are called, with the arguments of the event, and the gate is not open in the end. -/
theorem performance_conducted_gate :
    Gate.transition.record ∈ Gate.definition.recordsFor "open" none ∧
      Gate.definition.listed Gate.transition.record .willExit =
        [.stateHook "shut" "creak", .inlineHook 0 1 "ring"] ∧
      Gate.definition.listed Gate.transition.record .didEnter =
        [.stateHook "wide" "thud", .inlineHook 1 1 "bell", .transition "light"] ∧
      Conducted Gate.definition "gate" 0 Gate.transition
        [.beforeEvent, .willExit, .willEnter, .didExit, .didEnter, .afterEvent]
        (Gate.start ++ Gate.rest) (.over (.error (.missing Gate.missing))) ∧
      ∃ visits rest calls, Gate.rest = visits ++ rest ∧
        Round 0 .beforeEvent Gate.roster.calls visits calls := by
  have hrecord : Gate.transition.record ∈ Gate.definition.recordsFor "open" none := List.mem_singleton.2 rfl
  obtain ⟨⟨object, hobject, -, hlisted⟩, hconducted, hround⟩ :=
    performance_conducted (φ := Unit) Gate.compile_spec hrecord "gate" 0
  have hobject' := List.mem_singleton.1 hobject
  refine ⟨hrecord, ?_, ?_, hconducted _ _ Gate.performance,
    hround _ _ _ _ Gate.transition.progress _ Gate.waits Gate.rest_does⟩
  · rw [hlisted, hobject']
    rfl
  · rw [hlisted, hobject']
    rfl

end StateEngine
