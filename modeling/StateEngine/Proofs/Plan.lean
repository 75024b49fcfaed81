import StateEngine.Machine.Plan
import StateEngine.Proofs.Polling

/-!
# What a plan foretells

How calls end is not changed by visits, in whatever order they come. So what a phase comes to is planned: the
callbacks that it calls, what is noted of them, and its result. Then so is what the phases of a transition come
to, one after the other.

* `Visits.comesTo_eq`: **visits do not change how calls end**.
* `Ran.carriesPhase`: a phase whose calls all have their outcomes, and what was planned of it.
* `Plan.phase_eq_error`, `Plan.result_eq_error`: how a phase fails, and which phase gives the rejection.
* `Conducted.carries`: **phases that are conducted to their end** are performed as planned.
-/

namespace StateEngine

open Program

section

variable {κ φ α β : Type} {P : Plan κ} {d : Definition κ} {target : String} {id : TransitionId} {t : Transition}
  {phase : Phase} {record : Record} {fate : φ → Outcome} {acts more : List (Act κ φ)}
  {calls calls' : List (Call φ)} {call call' : Call φ} {listed : List (Listed κ)}

/-! ## How calls end -/

/-- How a call ends. -/
def Call.comesTo (fate : φ → Outcome) (call : Call φ) : Outcome :=
  match call.standing with
  | .due settlement => settlement.comesTo fate
  | .asleep computation => fate computation
  | .noted outcome => outcome

/-- Whether the polls among some acts do not change how computations end. -/
def PollsKeep (fate : φ → Outcome) (acts : List (Act κ φ)) : Prop :=
  ∀ computation (reply : Awaited φ), Act.asked (.poll computation) reply ∈ acts →
    reply.comesTo fate = fate computation

theorem PollsKeep.left (h : PollsKeep fate (acts ++ more)) : PollsKeep fate acts :=
  fun computation reply hr => h computation reply (List.mem_append_left more hr)

theorem PollsKeep.right (h : PollsKeep fate (acts ++ more)) : PollsKeep fate more :=
  fun computation reply hr => h computation reply (List.mem_append_right acts hr)

theorem Call.comesTo_of_pending {computation : φ} (h : call.pending? = some computation) :
    call.comesTo fate = fate computation := by
  obtain ⟨callId, standing⟩ := call
  match standing with
  | .due (.pending _) => cases h; rfl
  | .due (.value _) => exact nomatch h
  | .due (.error _) => exact nomatch h
  | .asleep _ => cases h; rfl
  | .noted _ => exact nomatch h

theorem Settlement.comesTo_ofOutcome (outcome : Outcome) :
    (Settlement.ofOutcome outcome).comesTo fate = outcome := by
  cases outcome <;> rfl

/-- A visit does not change how a call ends. -/
theorem Visit.comesTo_eq (h : Visit id phase call acts call') (hp : PollsKeep fate acts) :
    call'.comesTo fate = call.comesTo fate := by
  cases h with
  | notes callId outcome => exact (Settlement.comesTo_ofOutcome outcome).symm
  | yields next hc => rw [Call.comesTo_of_pending hc]; exact hp _ (.yielding next) List.mem_cons_self
  | sleeps next hc => rw [Call.comesTo_of_pending hc]; exact hp _ (.sleeping next) List.mem_cons_self
  | settles outcome hc => rw [Call.comesTo_of_pending hc]; exact hp _ (.settled outcome) List.mem_cons_self

/-- **Visits do not change how calls end.** -/
theorem Visits.comesTo_eq (h : Visits id phase calls acts calls') (hp : PollsKeep fate acts) :
    calls'.map (Call.comesTo fate) = calls.map (Call.comesTo fate) := by
  induction h with
  | none calls => rfl
  | visit hc hv _ ih =>
    obtain ⟨hlt, rfl⟩ := List.getElem?_eq_some_iff.1 hc
    rw [ih hp.right, List.map_set, hv.comesTo_eq hp.left, ← List.getElem_map (Call.comesTo fate),
      List.set_getElem_self]
    rwa [List.length_map]

theorem Call.comesTo_of_outcome {outcome : Outcome} (h : call.outcome? = some outcome) :
    call.comesTo fate = outcome := by
  obtain ⟨callId, standing⟩ := call
  cases standing with
  | noted noted => exact Option.some.inj h
  | _ => exact nomatch h

/-- Calls that have their outcomes have ended as they had to. -/
theorem comesTo_of_outcomes {outcomes : List Outcome} (h : calls.map Call.outcome? = outcomes.map some) :
    calls.map (Call.comesTo fate) = outcomes := by
  induction calls generalizing outcomes with
  | nil =>
    cases outcomes with
    | nil => rfl
    | cons _ _ => exact nomatch h
  | cons call rest ih =>
    cases outcomes with
    | nil => exact nomatch h
    | cons outcome others =>
      obtain ⟨hcall, hrest⟩ := List.cons.inj h
      rw [List.map_cons, ih hrest, Call.comesTo_of_outcome hcall]

/-! ## Which callbacks are there -/

/-- Whether the lookups among some acts find what a plan has. -/
def LookupsKeep (P : Plan κ) (acts : List (Act κ φ)) : Prop :=
  ∀ name reply, Act.asked (.callback name) reply ∈ acts → reply = P.callback? name

theorem LookupsKeep.left (h : LookupsKeep P (acts ++ more)) : LookupsKeep P acts :=
  fun name reply hr => h name reply (List.mem_append_left more hr)

theorem LookupsKeep.right (h : LookupsKeep P (acts ++ more)) : LookupsKeep P more :=
  fun name reply hr => h name reply (List.mem_append_right acts hr)

/-- An occurrence that was found is the callback that is planned. -/
theorem Plan.find_occurrence {occurrence : Occurrence κ} (hfinds : ∀ callback,
      occurrence.listed.inline? = some callback → occurrence.callback = callback)
    (hl : LookupsKeep P (occurrence.lookups : List (Act κ φ))) (record : Record) (phase : Phase) :
    P.find target record phase occurrence.listed = .ok occurrence.callback := by
  obtain ⟨listed, callback⟩ := occurrence
  have hnamed : ∀ name missing, listed.name? = some name →
      P.named target name missing = .ok callback := by
    intro name missing hname
    have hfound := hl name (some callback) (by simp [Occurrence.lookups, hname])
    rw [named, ← hfound]
  cases listed with
  | inlineHook stateIndex position own => rw [find, hfinds own rfl]
  | stateHook state name => rw [find]; exact hnamed name _ rfl
  | transition name => rw [find]; exact hnamed name _ rfl

theorem mapM_map_eq_ok {γ ε : Type} {f : β → Except ε γ} {g : α → β} {h : α → γ} {l : List α}
    (hf : ∀ a ∈ l, f (g a) = .ok (h a)) : (l.map g).mapM f = .ok (l.map h) := by
  induction l with
  | nil => rfl
  | cons a rest ih =>
    obtain ⟨ha, hrest⟩ := List.forall_mem_cons.1 hf
    rw [List.map_cons, List.mapM_cons, ha, ih hrest]
    rfl

theorem mapM_eq_error {γ ε : Type} {f : β → Except ε γ} {before after : List β} {b : β} {error : ε}
    (hbefore : ∀ a ∈ before, ∃ c, f a = .ok c) (hb : f b = .error error) :
    (before ++ b :: after).mapM f = .error error := by
  induction before with
  | nil => rw [List.nil_append, List.mapM_cons, hb]; rfl
  | cons a rest ih =>
    obtain ⟨⟨c, ha⟩, hrest⟩ := List.forall_mem_cons.1 hbefore
    rw [List.cons_append, List.mapM_cons, ha, ih hrest]
    rfl

/-- **A phase of which a callback is missing** lacks it as planned. -/
theorem Misses.found_eq {error : MissingCallback}
    (h : Misses target record phase (d.listed record phase) acts error) (hl : LookupsKeep P acts) :
    P.found d target record phase = .error error := by
  unfold Plan.found
  generalize d.listed record phase = listed at h
  obtain @⟨before, missing, after, name, error, rfl, hfinds, hname, hmissing⟩ := h
  refine mapM_eq_error (fun x hx => ?_) ?_
  · obtain ⟨occurrence, ho, rfl⟩ := List.mem_map.1 hx
    refine ⟨occurrence.callback, Plan.find_occurrence (φ := φ) (hfinds.inline occurrence ho) ?_ _ _⟩
    exact fun name reply hr => hl name reply
      (List.mem_append_left _ (List.mem_flatMap.2 ⟨occurrence, ho, hr⟩))
  · have hnone := hl name none (List.mem_append_right _ List.mem_cons_self)
    cases missing with
    | inlineHook stateIndex position own => exact nomatch hname
    | stateHook state other =>
      cases hname
      cases hmissing
      rw [Plan.find, Plan.named, ← hnone]
    | transition other =>
      cases hname
      cases hmissing
      rw [Plan.find, Plan.named, ← hnone]

/-! ## A phase that runs -/

/-- The calls of a phase end as planned for their positions. -/
def CallsKeep (P : Plan κ) (fate : φ → Outcome) (acts : List (Act κ φ)) (phase : Phase) : Prop :=
  ∀ (i : Nat) (settlement : Settlement φ), (acts.filterMap (Act.handed? phase))[i]? = some settlement →
    settlement.comesTo fate = P.outcome phase i

theorem CallsKeep.left (h : CallsKeep P fate (acts ++ more) phase) : CallsKeep P fate acts phase := by
  intro i settlement hi
  obtain ⟨hlt, -⟩ := List.getElem?_eq_some_iff.1 hi
  refine h i settlement ?_
  rwa [List.filterMap_append, List.getElem?_append_left hlt]

theorem Ran.exists_invokes {context : Context} (h : Ran id context listed acts calls) :
    ∃ (invoked : List (Occurrence κ × Settlement φ)) (visits : List (Act κ φ)) (ended : List Ending),
      acts = invokes id context invoked visits ∧ Finds listed (invoked.map (·.1)) ∧
        Visits id context.phase (invoked.map Call.made) visits calls ∧
          Settling id context.phase (invoked.map Call.made) visits ended calls := by
  obtain ⟨hfinds, hattended⟩ := h
  obtain ⟨ended, hsettling⟩ := hattended.visits.settling
  exact ⟨_, _, ended, rfl, hfinds, hattended.visits, hsettling⟩

variable {invoked : List (Occurrence κ × Settlement φ)} {visits : List (Act κ φ)} {context : Context}

/-- What is told of a phase of which all callbacks are there: something of each call, and of the visits. -/
theorem filterMap_invokes {g : Act κ φ → Option β} (h : Occurrence κ × Settlement φ → Option β)
    (hlookup : ∀ name (reply : Option κ), g (.asked (.callback name) reply) = none)
    (hbegin : g (.made (.note id .begin)) = none)
    (hcall : ∀ a : Occurrence κ × Settlement φ, g (.asked (.call a.1.callback context) a.2) = h a) :
    (invokes id context invoked visits).filterMap g = invoked.filterMap h ++ visits.filterMap g := by
  have hnone : (invoked.flatMap (fun a => a.1.lookups) : List (Act κ φ)).filterMap g = [] := by
    refine List.filterMap_eq_nil_iff.2 fun act hact => ?_
    obtain ⟨a, -, hact⟩ := List.mem_flatMap.1 hact
    unfold Occurrence.lookups at hact
    split at hact
    · exact nomatch hact
    · rw [List.mem_singleton.1 hact]
      exact hlookup _ _
  rw [invokes, List.filterMap_append, hnone, List.nil_append, List.filterMap_cons_none hbegin,
    List.filterMap_append, List.filterMap_map]
  congr 1
  exact List.filterMap_congr fun a _ => hcall a

theorem filterMap_none {γ : Type} (l : List α) : l.filterMap (fun _ => (none : Option γ)) = [] :=
  List.filterMap_eq_nil_iff.2 fun _ _ => rfl

/-- What is called, once each callback has been found. -/
theorem invocations_invokes {ended : List Ending}
    (hs : Settling id context.phase (invoked.map Call.made) visits ended calls) :
    (invokes id context invoked visits).filterMap Act.invocation? =
      invoked.map fun a => (a.1.callback, context) := by
  rw [filterMap_invokes (fun a => some (a.1.callback, context)) (fun _ _ => rfl) rfl fun _ => rfl,
    hs.invocations, List.append_nil, List.filterMap_eq_map']

/-- What the callbacks of the phase hand back. -/
theorem handed_invokes {ended : List Ending}
    (hs : Settling id context.phase (invoked.map Call.made) visits ended calls) :
    (invokes id context invoked visits).filterMap (Act.handed? context.phase) = invoked.map (·.2) := by
  rw [filterMap_invokes (fun a => some a.2) (fun _ _ => rfl) rfl fun _ => if_pos rfl, hs.handed,
    List.append_nil, List.filterMap_eq_map']

/-- No callback of another phase hands anything back. -/
theorem handed_invokes_ne {ended : List Ending} {other : Phase} (ho : other ≠ context.phase)
    (hs : Settling id context.phase (invoked.map Call.made) visits ended calls) :
    (invokes id context invoked visits).filterMap (Act.handed? other) = [] := by
  rw [filterMap_invokes (fun _ => none) (fun _ _ => rfl) rfl fun _ => if_neg (Ne.symm ho), hs.handed,
    List.append_nil, filterMap_none]

theorem phases_invokes {ended : List Ending}
    (hs : Settling id context.phase (invoked.map Call.made) visits ended calls) :
    ∀ p ∈ (invokes id context invoked visits).filterMap Act.phase?, p = context.phase := by
  intro p hp
  rw [filterMap_invokes (fun _ => some context.phase) (fun _ _ => rfl) rfl fun _ => rfl,
    List.mem_append] at hp
  rcases hp with hp | hp
  · obtain ⟨_, -, hp⟩ := List.mem_filterMap.1 hp
    exact (Option.some.inj hp).symm
  · exact hs.phases p hp

/-- What is noted are the endings that the visits come to. -/
theorem settled_invokes {ended : List Ending}
    (hs : Settling id context.phase (invoked.map Call.made) visits ended calls) :
    (invokes id context invoked visits).filterMap (Act.settled? id) =
      ended.map (Ending.settled context.phase) := by
  rw [filterMap_invokes (fun _ => none) (fun _ _ => rfl) (by simp [Act.settled?, Act.mark?, Mark.settled?])
    fun _ => rfl, filterMap_none, List.nil_append, hs.settled_eq]

/-- The endings of calls that were made and visited. -/
theorem Settling.endings_made {ended : List Ending}
    (hs : Settling id phase (invoked.map Call.made) visits ended calls) :
    (Call.endings 0 calls).Perm ended := by
  have hnone : Call.endings 0 (invoked.map Call.made) = [] := by
    refine Call.endings_eq_nil (fun call hcall => ?_) 0
    obtain ⟨a, -, rfl⟩ := List.mem_map.1 hcall
    rfl
  have hperm := hs.endings_perm
  rwa [hnone, List.nil_append] at hperm

/-- **A phase that ran** calls what is planned. -/
theorem Ran.found_eq (h : Ran id (t.context phase) (d.listed t.record phase) acts calls)
    (hl : LookupsKeep P acts) (target : String) :
    ∃ callbacks, P.found d target t.record phase = .ok callbacks ∧
      callbacks.length = (d.listed t.record phase).length ∧
        acts.filterMap Act.invocation? = callbacks.map fun callback => (callback, t.context phase) := by
  obtain ⟨invoked, visits, ended, rfl, hfinds, -, hs⟩ := h.exists_invokes
  refine ⟨invoked.map (·.1.callback), ?_, ?_, ?_⟩
  · unfold Plan.found
    rw [← hfinds.all, List.map_map]
    refine mapM_map_eq_ok fun a ha => ?_
    refine Plan.find_occurrence (φ := φ) (hfinds.inline a.1 (List.mem_map_of_mem ha)) ?_ _ _
    exact fun name reply hr => hl name reply
      (List.mem_append_left _ (List.mem_flatMap.2 ⟨a, ha, hr⟩))
  · rw [← hfinds.all, List.length_map, List.length_map, List.length_map]
  · rw [invocations_invokes hs, List.map_map]
    rfl

/-- The calls of a phase that all have their outcomes ended as planned. -/
theorem Ran.outcomes_eq (h : Ran id (t.context phase) (d.listed t.record phase) acts calls)
    (hp : PollsKeep fate acts) (hc : CallsKeep P fate acts phase) {outcomes : List Outcome}
    (hall : calls.map Call.outcome? = outcomes.map some) :
    outcomes = (List.range (d.listed t.record phase).length).map (P.outcome phase) := by
  obtain ⟨invoked, visits, ended, rfl, hfinds, hvisits, hs⟩ := h.exists_invokes
  have hlength : (d.listed t.record phase).length = (invoked.map (·.2)).length := by
    rw [← hfinds.all, List.length_map, List.length_map, List.length_map]
  have hhanded := handed_invokes hs
  change (invokes id (t.context phase) invoked visits).filterMap (Act.handed? phase) = _ at hhanded
  have hvisit : PollsKeep fate visits := fun computation reply hr => hp computation reply
    (List.mem_append_right _ (List.mem_cons_of_mem _ (List.mem_append_right _ hr)))
  have hcomes : calls.map (Call.comesTo fate) = outcomes := comesTo_of_outcomes hall
  -- each call ends as what its callback handed back had to end, and that was planned for its position
  rw [← hcomes, hvisits.comesTo_eq hvisit, List.map_map, hlength]
  refine List.ext_getElem? fun i => ?_
  cases hi : (invoked.map (·.2))[i]? with
  | none =>
    have hle := List.getElem?_eq_none_iff.1 hi
    rw [List.getElem?_eq_none (by simpa using hle), List.getElem?_eq_none (by simpa using hle)]
  | some settlement =>
    have hplanned := hc i settlement (hhanded ▸ hi)
    obtain ⟨hlt, hget⟩ := List.getElem?_eq_some_iff.1 hi
    rw [List.getElem?_map, List.getElem?_map, List.getElem?_range hlt, Option.map_some, ← hplanned, ← hget,
      List.getElem_map]
    have hlt' : i < invoked.length := by simpa using hlt
    rw [List.getElem?_eq_getElem hlt']
    rfl

/-- What is noted of a phase whose calls all have their outcomes is planned, but for the order. -/
theorem Ran.settled_perm (h : Ran id (t.context phase) (d.listed t.record phase) acts calls)
    (hp : PollsKeep fate acts) (hc : CallsKeep P fate acts phase) {outcomes : List Outcome}
    (hall : calls.map Call.outcome? = outcomes.map some) :
    (acts.filterMap (Act.settled? id)).Perm
      ((d.listed t.record phase).mapIdx fun i listed => (phase, listed.id, P.outcome phase i)) := by
  have houtcomes := h.outcomes_eq hp hc hall
  obtain ⟨invoked, visits, ended, rfl, hfinds, hvisits, hs⟩ := h.exists_invokes
  have hids : calls.map Call.id = (d.listed t.record phase).map Listed.id := by
    rw [hs.ids_eq, ← hfinds.all, List.map_map, List.map_map, List.map_map]
    rfl
  rw [settled_invokes hs]
  refine (hs.endings_made.map _).symm.trans (List.Perm.of_eq ?_)
  rw [Call.settled_endings hall, hids, houtcomes, List.zip_map, List.map_map, List.mapIdx_eq_zipIdx_map,
    List.zipIdx_eq_zip_range', ← List.range_eq_range']
  rfl

/-! ## Phases, one after the other -/

namespace Plan

theorem phase_of_found {callbacks : List κ} (h : P.found d target record phase = .ok callbacks) :
    P.phase d target record phase = verdict ((List.range callbacks.length).map (P.outcome phase)) := by
  unfold Plan.phase
  rw [h]

theorem calls_of_found {callbacks : List κ} (h : P.found d target t.record phase = .ok callbacks) :
    P.calls d target t phase = callbacks.map fun callback => (callback, t.context phase) := by
  unfold Plan.calls
  rw [h]

theorem settlements_of_found {callbacks : List κ}
    (h : P.found d target record phase = .ok callbacks) : P.settlements d target record phase =
      (d.listed record phase).mapIdx fun i listed => (phase, listed.id, P.outcome phase i) := by
  unfold Plan.settlements
  rw [h]

variable {later : List Phase}

/-- After a phase that succeeds the later ones are come to. -/
theorem reached_of_ok (h : P.phase d target record phase = .ok ()) :
    P.reached d target record (phase :: later) = phase :: P.reached d target record later := by
  rw [reached, h]

/-- A phase that rejects is the last. -/
theorem reached_of_error {rejection : Rejection} (h : P.phase d target record phase = .error rejection) :
    P.reached d target record (phase :: later) = [phase] := by
  rw [reached, h]

theorem result_of_ok (h : P.phase d target record phase = .ok ()) :
    P.result d target record (phase :: later) = P.result d target record later := by
  rw [result, h]
  rfl

theorem result_of_error {rejection : Rejection} (h : P.phase d target record phase = .error rejection) :
    P.result d target record (phase :: later) = .error rejection := by
  rw [result, h]
  rfl

theorem lastFailure_concat_error (outcomes : List Outcome) (reason : Json) :
    lastFailure? (outcomes ++ [.error reason]) = some reason := by
  rw [lastFailure?, List.filterMap_append, List.getLast?_append]
  rfl

theorem lastFailure_concat_ok (outcomes : List Outcome) (value : Json) :
    lastFailure? (outcomes ++ [.ok value]) = lastFailure? outcomes := by
  rw [lastFailure?, List.filterMap_append, List.filterMap_cons_none rfl, List.filterMap_nil, List.append_nil,
    lastFailure?]

theorem lastFailure_range {n : Nat} {outcome : Nat → Outcome} {reason : Json} :
    lastFailure? ((List.range n).map outcome) = some reason ↔
      ∃ i < n, outcome i = .error reason ∧ ∀ j, i < j → j < n → ∃ value, outcome j = .ok value := by
  induction n with
  | zero => simp [lastFailure?]
  | succ n ih =>
    rw [List.range_succ, List.map_append, List.map_singleton]
    cases hn : outcome n with
    | error last =>
      rw [lastFailure_concat_error]
      constructor
      · rintro ⟨⟩
        exact ⟨n, Nat.lt_succ_self n, hn, fun j hj hlt => by omega⟩
      · rintro ⟨i, hi, hreason, hlater⟩
        rcases Nat.lt_succ_iff_lt_or_eq.1 hi with hi | rfl
        · obtain ⟨value, hvalue⟩ := hlater n hi (Nat.lt_succ_self n)
          cases hn.symm.trans hvalue
        · cases hn.symm.trans hreason
          rfl
    | ok value =>
      rw [lastFailure_concat_ok, ih]
      constructor
      · rintro ⟨i, hi, hreason, hlater⟩
        refine ⟨i, Nat.lt_succ_of_lt hi, hreason, fun j hj hlt => ?_⟩
        rcases Nat.lt_succ_iff_lt_or_eq.1 hlt with hlt | rfl
        · exact hlater j hj hlt
        · exact ⟨value, hn⟩
      · rintro ⟨i, hi, hreason, hlater⟩
        rcases Nat.lt_succ_iff_lt_or_eq.1 hi with hi | rfl
        · exact ⟨i, hi, hreason, fun j hj hlt => hlater j hj (Nat.lt_succ_of_lt hlt)⟩
        · cases hn.symm.trans hreason

/-- **A phase that rejects** is one of which a callback is missing or fails. -/
theorem phase_eq_error {rejection : Rejection} :
    P.phase d target record phase = .error rejection ↔ P.Fails d target record phase rejection := by
  cases hfound : P.found d target record phase with
  | error missing =>
    have hphase : P.phase d target record phase = .error (.missing missing) := by
      unfold Plan.phase
      rw [hfound]
    rw [hphase]
    constructor
    · rintro ⟨⟩
      exact .missing hfound
    · intro h
      cases h with
      | missing hmissing => cases hfound.symm.trans hmissing; rfl
      | callback hok _ _ _ => exact nomatch hfound.symm.trans hok
  | ok callbacks =>
    rw [phase_of_found hfound, verdict]
    constructor
    · intro h
      cases hlast : lastFailure? ((List.range callbacks.length).map (P.outcome phase)) with
      | none => rw [hlast] at h; exact nomatch h
      | some reason =>
        rw [hlast] at h
        cases h
        obtain ⟨i, hi, hreason, hlater⟩ := lastFailure_range.1 hlast
        exact .callback hfound hi hreason hlater
    · intro h
      cases h with
      | missing hmissing => exact nomatch hfound.symm.trans hmissing
      | callback hok hi hreason hlater =>
        cases hfound.symm.trans hok
        rw [lastFailure_range.2 ⟨_, hi, hreason, hlater⟩]

/-- **The first phase that rejects** gives the rejection. -/
theorem result_eq_error {phases : List Phase} {rejection : Rejection} :
    P.result d target record phases = .error rejection ↔
      ∃ before phase later, phases = before ++ phase :: later ∧
        (∀ earlier ∈ before, P.phase d target record earlier = .ok ()) ∧
          P.phase d target record phase = .error rejection := by
  induction phases with
  | nil => simp [result]
  | cons first rest ih =>
    cases hf : P.phase d target record first with
    | ok _ =>
      rw [result_of_ok hf, ih]
      constructor
      · rintro ⟨before, phase, later, rfl, hbefore, hphase⟩
        exact ⟨first :: before, phase, later, rfl, List.forall_mem_cons.2 ⟨hf, hbefore⟩, hphase⟩
      · rintro ⟨before, phase, later, hsplit, hbefore, hphase⟩
        cases before with
        | nil =>
          cases hsplit
          exact nomatch hf.symm.trans hphase
        | cons _ before =>
          cases hsplit
          exact ⟨before, phase, later, rfl, (List.forall_mem_cons.1 hbefore).2, hphase⟩
    | error other =>
      rw [result_of_error hf]
      constructor
      · rintro ⟨⟩
        exact ⟨[], first, rest, rfl, fun _ h => (nomatch h), hf⟩
      · rintro ⟨before, phase, later, hsplit, hbefore, hphase⟩
        cases before with
        | nil =>
          cases hsplit
          exact hf.symm.trans hphase
        | cons _ before =>
          cases hsplit
          exact nomatch hf.symm.trans (List.forall_mem_cons.1 hbefore).1

end Plan

/-- Whatever is told of other acts, nothing is told of callbacks that are looked up. -/
theorem Misses.filterMap_eq_nil {error : MissingCallback} (h : Misses target record phase listed acts error)
    {g : Act κ φ → Option β} (hg : ∀ name (reply : Option κ), g (.asked (.callback name) reply) = none) :
    acts.filterMap g = [] := by
  obtain @⟨before, missing, after, name, error, -, -, -, -⟩ := h
  refine List.filterMap_eq_nil_iff.2 fun act hact => ?_
  rcases List.mem_append.1 hact with hact | hact
  · obtain ⟨occurrence, -, hact⟩ := List.mem_flatMap.1 hact
    unfold Occurrence.lookups at hact
    split at hact
    · exact nomatch hact
    · rw [List.mem_singleton.1 hact]
      exact hg _ _
  · rw [List.mem_singleton.1 hact]
    exact hg _ _

/-- What is done for a phase that is come to: the calls and settlements that are planned. -/
structure Plan.CarriesPhase (P : Plan κ) (d : Definition κ) (target : String) (id : TransitionId)
    (t : Transition) (phase : Phase) (acts : List (Act κ φ)) : Prop where
  invoked_eq : acts.filterMap Act.invocation? = P.calls d target t phase
  settled_perm : (acts.filterMap (Act.settled? id)).Perm (P.settlements d target t.record phase)
  among : ∀ p ∈ acts.filterMap Act.phase?, p = phase

/-- A phase of which a callback is missing calls nothing. -/
theorem Misses.carriesPhase {error : MissingCallback}
    (h : Misses target t.record phase (d.listed t.record phase) acts error) (hl : LookupsKeep P acts) :
    P.CarriesPhase d target id t phase acts := by
  have hfound := h.found_eq hl
  refine ⟨?_, ?_, ?_⟩
  · rw [h.filterMap_eq_nil fun _ _ => rfl, Plan.calls, hfound]
  · rw [h.filterMap_eq_nil fun _ _ => rfl, Plan.settlements, hfound]
  · rw [h.filterMap_eq_nil fun _ _ => rfl]
    exact fun p hp => nomatch hp

/-- A phase whose calls all have their outcomes made the calls and settlements that are planned, and comes to what
is planned. -/
theorem Ran.carriesPhase (h : Ran id (t.context phase) (d.listed t.record phase) acts calls)
    (hl : LookupsKeep P acts) (hp : PollsKeep fate acts) (hc : CallsKeep P fate acts phase)
    {outcomes : List Outcome} (hall : calls.map Call.outcome? = outcomes.map some) :
    P.CarriesPhase d target id t phase acts ∧ P.phase d target t.record phase = verdict outcomes := by
  obtain ⟨callbacks, hfound, hlength, hinvoked⟩ := h.found_eq hl target
  have houtcomes := h.outcomes_eq hp hc hall
  refine ⟨⟨?_, ?_, ?_⟩, ?_⟩
  · rw [hinvoked, Plan.calls_of_found hfound]
  · rw [Plan.settlements_of_found hfound]
    exact h.settled_perm hp hc hall
  · obtain ⟨invoked, visits, ended, rfl, -, -, hs⟩ := h.exists_invokes
    exact phases_invokes hs
  · rw [Plan.phase_of_found hfound, houtcomes, hlength]

namespace Plan

variable {later : List Phase} {result : Except Rejection Unit}

/-- A phase that rejects is the end. -/
theorem CarriesPhase.reject {rejection : Rejection} (h : P.CarriesPhase d target id t phase acts)
    (hphase : P.phase d target t.record phase = .error rejection) (later : List Phase) :
    P.Carries d target id t (phase :: later) (acts ++ [.made (.note id (.reject rejection))])
      (.error rejection) := by
  have hmark : Act.mark? id (.made (.note id (.reject rejection)) : Act κ φ) = some (.reject rejection) :=
    if_pos rfl
  have hsettled : Act.settled? id (.made (.note id (.reject rejection)) : Act κ φ) = none := by
    rw [Act.settled?, hmark]
    rfl
  refine ⟨(result_of_error hphase).symm, ?_, ?_, ?_, ?_, ?_⟩
  · rw [List.filterMap_append, List.filterMap_cons_none rfl, List.filterMap_nil, List.append_nil,
      h.invoked_eq, invoked, reached_of_error hphase, List.flatMap_singleton]
  · rw [List.filterMap_append, List.filterMap_cons_none hsettled, List.filterMap_nil, List.append_nil,
      settled, reached_of_error hphase, List.flatMap_singleton]
    exact h.settled_perm
  · rw [List.filterMap_append, List.filterMap_cons_none rfl, List.filterMap_nil, List.append_nil]
    exact fun p hp => List.mem_cons.2 (.inl (h.among p hp))
  · rw [List.filterMap_append, List.filterMap_cons_none rfl, List.filterMap_nil, List.append_nil]
    exact List.pairwise_of_forall_mem_list fun p hp q hq => .inl ((h.among p hp).trans (h.among q hq).symm)
  · rw [List.filterMap_append, List.filterMap_cons_some hmark, List.filterMap_nil, List.getLast?_concat]
    rfl

/-- After a phase that succeeds the later ones are performed. -/
theorem CarriesPhase.next (h : P.CarriesPhase d target id t phase acts)
    (hphase : P.phase d target t.record phase = .ok ()) (hphases : (phase :: later) <:+ Phase.all)
    (hlater : P.Carries d target id t later more result) :
    P.Carries d target id t (phase :: later) (acts ++ more) result := by
  refine ⟨?_, ?_, ?_, ?_, ?_, ?_⟩
  · rw [hlater.result_eq, result_of_ok hphase]
  · rw [List.filterMap_append, h.invoked_eq, hlater.invoked_eq, invoked, invoked, reached_of_ok hphase,
      List.flatMap_cons]
  · rw [List.filterMap_append, settled, reached_of_ok hphase, List.flatMap_cons]
    exact h.settled_perm.append hlater.settled_perm
  · intro p hp
    rw [List.filterMap_append, List.mem_append] at hp
    exact List.mem_cons.2 (hp.imp (h.among p) (hlater.among p))
  · rw [List.filterMap_append, List.pairwise_append]
    refine ⟨?_, hlater.in_order, fun p hp q hq => .inr ?_⟩
    · exact List.pairwise_of_forall_mem_list fun p hp q hq => .inl ((h.among p hp).trans (h.among q hq).symm)
    · rw [h.among p hp, Phase.later_eq hphases]
      exact hlater.among q hq
  · rw [List.filterMap_append, List.getLast?_append, hlater.last_mark]
    rfl

/-- Once no phase is left the transition is resolved. -/
theorem carries_nil (P : Plan κ) (d : Definition κ) (target : String) (id : TransitionId) (t : Transition) :
    P.Carries d target id t [] ([.made (.note id .resolve)] : List (Act κ φ)) (.ok ()) := by
  have hmark : Act.mark? id (.made (.note id .resolve) : Act κ φ) = some .resolve := if_pos rfl
  have hsettled : Act.settled? id (.made (.note id .resolve) : Act κ φ) = none := by
    rw [Act.settled?, hmark]
    rfl
  refine ⟨rfl, rfl, ?_, ?_, .nil, ?_⟩
  · rw [List.filterMap_cons_none hsettled]
    exact .nil
  · exact fun p hp => absurd hp List.not_mem_nil
  · rw [List.filterMap_cons_some hmark]
    rfl

end Plan

/-- **Phases that are conducted to their end** are performed as planned. -/
theorem Conducted.carries {phases : List Phase} {a : Advance φ}
    (h : Conducted d target id t phases acts a) (hphases : phases <:+ Phase.all)
    (hl : LookupsKeep P acts) (hp : PollsKeep fate acts) (hc : ∀ phase ∈ phases, CallsKeep P fate acts phase)
    {result : Except Rejection Unit} (ha : a = .over result) : P.Carries d target id t phases acts result := by
  -- by the phases that are conducted; what the acts of all of them keep those of one and of the later ones keep
  induction h generalizing result with
  | resolved =>
    cases ha
    exact P.carries_nil d target id t
  | @missing phase later lookups error hmisses =>
    cases ha
    refine (hmisses.carriesPhase hl.left).reject ?_ later
    unfold Plan.phase
    rw [hmisses.found_eq hl.left]
  | waiting _ _ _ => exact nomatch ha
  | @failed phase later acts before after callId reason hran hbefore hafter =>
    cases ha
    obtain ⟨outcomes, hall, hfail⟩ := Call.failed_iff.2 ⟨before, callId, after, rfl, hbefore, hafter⟩
    obtain ⟨hcarries, hphase⟩ :=
      hran.carriesPhase hl.left hp.left (hc phase List.mem_cons_self).left hall
    refine hcarries.reject ?_ later
    rw [hphase, verdict, hfail]
  | @next phase later acts more calls a hran hok _ ih =>
    obtain ⟨outcomes, hall, hnone⟩ := outcomes_of_ok hok
    obtain ⟨hcarries, hphase⟩ :=
      hran.carriesPhase hl.left hp.left (hc phase List.mem_cons_self).left hall
    rw [verdict, hnone] at hphase
    refine hcarries.next hphase hphases
      (ih ((List.suffix_cons phase later).trans hphases) hl.right hp.right (fun other ho => ?_) ha)
    -- the callbacks of the phase hand nothing back for a later one
    have hother : other ≠ phase := by
      rintro rfl
      have hnodup := hphases.sublist.nodup (by decide : Phase.all.Nodup)
      exact (List.nodup_cons.1 hnodup).1 ho
    have hnothing : acts.filterMap (Act.handed? other) = [] := by
      obtain ⟨invoked, visits, ended, rfl, -, -, hs⟩ := hran.exists_invokes
      exact handed_invokes_ne hother hs
    intro i settlement hi
    refine hc other (List.mem_cons_of_mem phase ho) i settlement ?_
    rwa [List.filterMap_append, hnothing, List.nil_append]

end

end StateEngine
