import StateEngine.Machine.Polling
import StateEngine.Proofs.Performance

/-!
# What polls come to

The outcomes of calls are noted in the order in which the calls are visited. Each call is noted once: the
endings that visits come to are, up to their order, those that the calls did not have before.

* `Settling.endings_perm`: **the endings of calls** before and after visits.
* `Settling.settled`: what is noted is what the calls come to.
* `pollFrom_phase_does`, `pollFrom_perform_does`: one poll of a future that is no dispatch.
* `Pends.performance`: the polls of a future that performs a transition are a performance.
-/

namespace StateEngine

open Program

variable {κ φ α β : Type} {M : Machine κ φ → Prop} {id : TransitionId} {phase : Phase}
  {acts more : List (Act κ φ)} {calls calls' calls'' : List (Call φ)} {call call' : Call φ}
  {ended later : List Ending} {position first : Nat}

/-! ## One visit -/

theorem Call.outcome_of_pending {computation : φ} (h : call.pending? = some computation) :
    call.outcome? = none := by
  obtain ⟨id, standing⟩ := call
  cases standing with
  | noted outcome => exact nomatch h
  | _ => rfl

namespace Visit

/-- A call that is visited has no outcome yet. -/
theorem outcome_eq_none (h : Visit id phase call acts call') : call.outcome? = none := by
  cases h with
  | notes callId outcome => rfl
  | yields next hp => exact Call.outcome_of_pending hp
  | sleeps next hp => exact Call.outcome_of_pending hp
  | settles outcome hp => exact Call.outcome_of_pending hp

theorem id_eq (h : Visit id phase call acts call') : call'.id = call.id := by
  cases h <;> rfl

/-- What a visit notes is the outcome that the call comes to. -/
theorem settled (h : Visit id phase call acts call') (position : Nat) :
    acts.filterMap (Act.settled? id) = (call'.ending? position).toList.map (Ending.settled phase) := by
  have hnote : ∀ callId outcome, Act.settled? id (.made (.note id (.settle phase callId outcome)) : Act κ φ) =
      some (phase, callId, outcome) := fun _ _ => by simp [Act.settled?, Act.mark?, Mark.settled?]
  cases h with
  | notes callId outcome => rw [List.filterMap_cons_some (hnote _ _)]; rfl
  | yields next hp => rfl
  | sleeps next hp => rfl
  | settles outcome hp => rw [List.filterMap_cons_none rfl, List.filterMap_cons_some (hnote _ _)]; rfl

/-- A visit calls nothing. -/
theorem invocations (h : Visit id phase call acts call') : acts.filterMap Act.invocation? = [] := by
  cases h <;> rfl

theorem handed (h : Visit id phase call acts call') (other : Phase) :
    acts.filterMap (Act.handed? other) = [] := by
  cases h <;> rfl

/-- What is noted belongs to the phase. -/
theorem phases (h : Visit id phase call acts call') : ∀ p ∈ acts.filterMap Act.phase?, p = phase := by
  cases h <;> simp [Act.phase?]

end Visit

/-! ## The endings of calls -/

namespace Call

theorem endings_eq_nil (h : ∀ call ∈ calls, call.outcome? = none) (first : Nat) :
    endings first calls = [] := by
  induction calls generalizing first with
  | nil => rfl
  | cons call rest ih =>
    obtain ⟨hcall, hrest⟩ := List.forall_mem_cons.1 h
    rw [endings, ih hrest, ending?, hcall]
    rfl

/-- What is noted of calls that all have their outcomes. -/
theorem settled_endings {outcomes : List Outcome} (h : calls.map outcome? = outcomes.map some)
    (phase : Phase) (first : Nat) : (endings first calls).map (Ending.settled phase) =
      ((calls.map Call.id).zip outcomes).map fun (id, outcome) => (phase, id, outcome) := by
  induction calls generalizing outcomes first with
  | nil => rfl
  | cons call rest ih =>
    cases outcomes with
    | nil => exact nomatch h
    | cons outcome others =>
      obtain ⟨hcall, hrest⟩ := List.cons.inj h
      rw [endings, List.map_append, ih hrest, ending?, hcall]
      rfl

theorem le_of_mem_endings {ending : Ending} (h : ending ∈ endings first calls) :
    first ≤ ending.position := by
  induction calls generalizing first with
  | nil => exact nomatch h
  | cons call rest ih =>
    rw [endings, List.mem_append] at h
    rcases h with h | h
    · obtain ⟨outcome, -, rfl⟩ := Option.map_eq_some_iff.1 (Option.mem_toList.1 h)
      exact Nat.le_refl _
    · exact Nat.le_of_succ_le (ih h)

/-- A call ends once. -/
theorem endings_nodup (first : Nat) (calls : List (Call φ)) :
    ((endings first calls).map Ending.position).Nodup := by
  induction calls generalizing first with
  | nil => exact List.nodup_nil
  | cons call rest ih =>
    rw [endings, List.map_append]
    refine List.nodup_append.2 ⟨?_, ih (first + 1), ?_⟩
    · cases call.ending? first <;> simp
    · intro i hi j hj
      obtain ⟨ending, he, rfl⟩ := List.mem_map.1 hi
      obtain ⟨other, ho, rfl⟩ := List.mem_map.1 hj
      obtain ⟨outcome, -, rfl⟩ := Option.map_eq_some_iff.1 (Option.mem_toList.1 he)
      exact Nat.ne_of_lt (le_of_mem_endings ho)

/-- **A call that gets its outcome** adds its ending to those that are there. -/
theorem endings_set (hc : calls[position]? = some call) (hnone : call.outcome? = none) (call' : Call φ)
    (first : Nat) : (endings first (calls.set position call')).Perm
      (endings first calls ++ (call'.ending? (first + position)).toList) := by
  induction calls generalizing first position with
  | nil => exact nomatch hc
  | cons other rest ih =>
    cases position with
    | zero =>
      cases hc
      rw [List.set_cons_zero, endings, endings, ending?, ending?, hnone]
      exact List.perm_append_comm
    | succ position =>
      rw [List.set_cons_succ, endings, endings, List.append_assoc]
      rw [show first + (position + 1) = first + 1 + position by omega]
      exact (ih hc (first + 1)).append_left _

end Call

namespace Settling

theorem trans (h : Settling id phase calls acts ended calls')
    (h' : Settling id phase calls' more later calls'') :
    Settling id phase calls (acts ++ more) (ended ++ later) calls'' := by
  induction h with
  | none calls => exact h'
  | visit hc hv _ ih =>
    rw [List.append_assoc, List.append_assoc]
    exact .visit hc hv (ih h')

/-- **The endings of calls after visits** are those from before, and those that the visits come to. -/
theorem endings_perm (h : Settling id phase calls acts ended calls') :
    (Call.endings 0 calls').Perm (Call.endings 0 calls ++ ended) := by
  induction h with
  | none calls => rw [List.append_nil]
  | @visit calls calls' position call call' acts more rest hc hv _ ih =>
    have hset := Call.endings_set hc hv.outcome_eq_none call' 0
    rw [Nat.zero_add] at hset
    rw [← List.append_assoc]
    exact ih.trans (hset.append_right rest)

theorem ids_eq (h : Settling id phase calls acts ended calls') :
    calls'.map Call.id = calls.map Call.id := by
  induction h with
  | none calls => rfl
  | visit hc hv _ ih =>
    obtain ⟨hlt, rfl⟩ := List.getElem?_eq_some_iff.1 hc
    rw [ih, List.map_set, hv.id_eq, ← List.getElem_map Call.id, List.set_getElem_self]
    rwa [List.length_map]

/-- **What is noted** is what the calls come to. -/
theorem settled_eq (h : Settling id phase calls acts ended calls') :
    acts.filterMap (Act.settled? id) = ended.map (Ending.settled phase) := by
  induction h with
  | none calls => rfl
  | visit _ hv _ ih => rw [List.filterMap_append, List.map_append, ih, hv.settled]

theorem invocations (h : Settling id phase calls acts ended calls') :
    acts.filterMap Act.invocation? = [] := by
  induction h with
  | none calls => rfl
  | visit _ hv _ ih => rw [List.filterMap_append, ih, hv.invocations, List.append_nil]

theorem handed (h : Settling id phase calls acts ended calls') (other : Phase) :
    acts.filterMap (Act.handed? other) = [] := by
  induction h with
  | none calls => rfl
  | visit _ hv _ ih => rw [List.filterMap_append, ih, hv.handed, List.append_nil]

theorem phases (h : Settling id phase calls acts ended calls') :
    ∀ p ∈ acts.filterMap Act.phase?, p = phase := by
  induction h with
  | none calls => exact fun p hp => nomatch hp
  | visit _ hv _ ih =>
    intro p hp
    rw [List.filterMap_append, List.mem_append] at hp
    exact hp.elim (hv.phases p) (ih p)

end Settling

/-- Visits come to endings. -/
theorem Visits.settling (h : Visits id phase calls acts calls') :
    ∃ ended, Settling id phase calls acts ended calls' := by
  induction h with
  | none calls => exact ⟨[], .none calls⟩
  | visit hc hv _ ih =>
    obtain ⟨ended, hs⟩ := ih
    exact ⟨_, .visit hc hv hs⟩

/-! ## One poll -/

variable {f : FutureId} {t : Transition} {stage : Stage φ} {polled done : Polled}

/-- A future that is no dispatch rests if a phase waits, and is gone otherwise. -/
theorem finish_does {advance : Advance φ}
    (h : (match advance with
        | .waiting phase roster => rest f phase roster
        | .over result => finish f done result : Program κ φ Polled).Does M acts polled) :
    (∃ phase roster, advance = .waiting phase roster ∧ acts = [.made (.setStage f (.waiting phase roster))] ∧
        polled = .pending) ∨
      ∃ result, advance = .over result ∧ acts = [.made (.closeFuture f)] ∧ polled = done.ofResult result := by
  match advance with
  | .waiting phase roster =>
    obtain ⟨more, rfl, hmore⟩ := Does.make_inv h
    obtain ⟨rfl, rfl⟩ := hmore.pure_inv
    exact .inl ⟨phase, roster, rfl, rfl, rfl⟩
  | .over (.ok ()) =>
    obtain ⟨more, rfl, hmore⟩ := Does.make_inv h
    obtain ⟨rfl, rfl⟩ := hmore.pure_inv
    exact .inr ⟨_, rfl, rfl, rfl⟩
  | .over (.error rejection) =>
    obtain ⟨more, rfl, hmore⟩ := Does.make_inv h
    obtain ⟨rfl, rfl⟩ := hmore.pure_inv
    exact .inr ⟨_, rfl, rfl, rfl⟩

/-- **What one poll comes to** of a future that is no dispatch: it advances its transition, and rests or is
gone. -/
inductive Advances (p : Program κ φ (Advance φ)) (M : Machine κ φ → Prop) (f : FutureId) (done : Polled) :
    List (Act κ φ) → Polled → Prop where
  | waits {acts : List (Act κ φ)} {phase : Phase} {roster : Roster φ} :
      p.Does M acts (.waiting phase roster) →
      Advances p M f done (acts ++ [.made (.setStage f (.waiting phase roster))]) .pending
  | ends {acts : List (Act κ φ)} {result : Except Rejection Unit} : p.Does M acts (.over result) →
      Advances p M f done (acts ++ [.made (.closeFuture f)]) (done.ofResult result)

theorem Advances.of_does {p : Program κ φ (Advance φ)}
    (h : (p >>= fun advance => match advance with
      | .waiting phase roster => rest f phase roster
      | .over result => finish f done result).Does M acts polled) : Advances p M f done acts polled := by
  obtain ⟨before, after, advance, rfl, hp, hafter⟩ := h.bind_inv
  rcases finish_does hafter with ⟨phase, roster, rfl, rfl, rfl⟩ | ⟨result, rfl, rfl, rfl⟩
  · exact .waits hp
  · exact .ends hp

theorem pollFrom_phase_does (h : (pollFrom f id t (.phase phase) stage).Does M acts polled) :
    Advances (advancePhase id t phase stage) M f .finished acts polled := .of_does h

theorem pollFrom_perform_does (h : (pollFrom f id t .perform stage).Does M acts polled) :
    Advances (advance id t stage) M f (.resolved id) acts polled := .of_does h

/-! ## Performances -/

/-- Acts that are the same but for where a future is put tell the same. -/
theorem filterMap_of_filter {l l' : List (Act κ φ)}
    (h : l.filter (!·.isRest) = l'.filter (!·.isRest)) {g : Act κ φ → Option β}
    (hg : ∀ act, act.isRest = true → g act = none) : l.filterMap g = l'.filterMap g := by
  have hskip : ∀ l : List (Act κ φ), (l.filter (!·.isRest)).filterMap g = l.filterMap g := by
    intro l
    rw [List.filterMap_filter]
    refine List.filterMap_congr fun act _ => ?_
    cases hr : act.isRest with
    | true => exact (hg act hr).symm
    | false => rfl
  rw [← hskip l, ← hskip l', h]

variable {d : Definition κ} {target : String} {polls : List (List (Act κ φ))}

theorem filter_concat_rest (polls : List (List (Act κ φ))) (acts : List (Act κ φ)) {last : Act κ φ}
    (h : last.isRest = true) : (polls ++ [acts ++ [last]]).flatten.filter (!·.isRest) =
      polls.flatten.filter (!·.isRest) ++ acts.filter (!·.isRest) := by
  rw [List.flatten_concat, List.filter_append, List.filter_append, List.filter_cons_of_neg (by simp [h]),
    List.filter_nil, List.append_nil]

/-- **The polls of a future that performs a transition** are a performance, but for where they put the future. -/
theorem Pends.performance (h : Pends d target f id t .perform polls stage) :
    (polls = [] ∧ stage = .unpolled) ∨ ∃ phase roster acts, stage = .waiting phase roster ∧
      Performance d target id t acts (.waiting phase roster) ∧
        polls.flatten.filter (!·.isRest) = acts.filter (!·.isRest) := by
  induction h with
  | unpolled => exact .inl ⟨rfl, rfl⟩
  | @poll progress polls stage next acts _ hpoll ih =>
    right
    generalize hacts : acts ++ [.made (.setStage f next)] = all at hpoll
    generalize hpolled : Polled.pending = polled at hpoll
    cases pollFrom_perform_does hpoll with
    | @waits more phase roster hmore =>
      obtain ⟨rfl, hlast⟩ := List.append_inj' hacts rfl
      cases hlast
      rcases ih with ⟨rfl, rfl⟩ | ⟨phase', roster', before, rfl, hbefore, hsame⟩
      · exact ⟨phase, roster, acts, rfl, .first hmore, filter_concat_rest [] acts rfl⟩
      · refine ⟨phase, roster, before ++ acts, rfl, .again hbefore hmore, ?_⟩
        rw [filter_concat_rest polls acts rfl, hsame, List.filter_append]
    | @ends more result _ => cases result <;> exact nomatch hpolled

/-- **Polls that bring a future to its end** perform its transition to its result. -/
theorem Polls.performance (h : Polls d target f id t .perform polls polled) (hp : polled ≠ .pending) :
    ∃ acts result, Performance d target id t acts (.over result) ∧
      polled = Polled.ofResult (.resolved id) result ∧
        polls.flatten.filter (!·.isRest) = acts.filter (!·.isRest) := by
  cases h with
  | @poll progress polls stage acts _ hpends hpoll =>
    cases pollFrom_perform_does hpoll with
    | waits _ => exact absurd rfl hp
    | @ends more result hmore =>
      rcases hpends.performance with ⟨rfl, rfl⟩ | ⟨phase, roster, before, rfl, hbefore, hsame⟩
      · exact ⟨more, result, .first hmore, rfl, filter_concat_rest [] more rfl⟩
      · refine ⟨before ++ more, result, .again hbefore hmore, rfl, ?_⟩
        rw [filter_concat_rest polls more rfl, hsame, List.filter_append]

end StateEngine
