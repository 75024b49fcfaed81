import StateEngine.Machine.Book
import StateEngine.Proofs.Crowd
import StateEngine.Proofs.Plan

/-!
# The book of a phase

Marks of the other phases do not change what a book tells of a phase. Of the marks of the phase itself the last
value and the first reason count, for each identifier. What the polls of a phase note is what its calls come to, in
the order of their visits; calls that are no crowd are visited in their order.

* `Progress.resolutions_markAll`, `Progress.rejections_markAll`: **what a book tells** after some marks.
* `pollRoster_settling`: one poll of calls, and the endings that they come to.
* `Polls.rounds`: **the polls of a phase** and the endings of its calls.
* `book_tells`: the book of a phase after any poll.
* `book_tells_out_of_order`: a crowd whose calls do not end in their order.
-/

namespace StateEngine

open Program

section

variable {κ φ α β : Type} {M : Machine κ φ → Prop} {d : Definition κ} {target : String} {f : FutureId}
  {id : TransitionId} {t : Transition} {phase other : Phase} {callId x : String} {acts more : List (Act κ φ)}
  {polls : List (List (Act κ φ))} {calls calls' : List (Call φ)} {ended : List Ending}

/-! ## Marks -/

namespace Outcomes

/-- A value that is set is found, and all others are as they were. -/
theorem find_put (outcomes : Outcomes) (value : Json) :
    (outcomes.put phase callId value).find? other x =
      if (phase, callId) = (other, x) then some value else outcomes.find? other x := by
  induction outcomes with
  | nil =>
    rw [put, find?, List.lookup_cons]
    by_cases h : (phase, callId) = (other, x)
    · rw [if_pos h, beq_iff_eq.2 h.symm]
    · rw [if_neg h, beq_eq_false_iff_ne.2 (Ne.symm h)]
      rfl
  | cons entry rest ih =>
    obtain ⟨key, old⟩ := entry
    rw [put]
    split_ifs with hkey h h
    · rw [find?, List.lookup_cons, beq_iff_eq.2 (h.symm.trans hkey.symm)]
    · rw [find?, find?, List.lookup_cons, List.lookup_cons, hkey]
      rw [beq_eq_false_iff_ne.2 (Ne.symm h)]
    · rw [find?, List.lookup_cons, beq_eq_false_iff_ne.2 (fun heq => hkey (heq.symm.trans h.symm))]
      exact ih.trans (if_pos h)
    · rw [find?, find?, List.lookup_cons, List.lookup_cons]
      split
      · rfl
      · exact ih.trans (if_neg h)

/-- A value that is set if there is none yields to one that is there. -/
theorem find_putNew (outcomes : Outcomes) (value : Json) :
    (outcomes.putNew phase callId value).find? other x =
      (outcomes.find? other x).or (if (phase, callId) = (other, x) then some value else none) := by
  rw [putNew]
  split_ifs with hsome h h
  · cases h
    rw [Option.or_of_isSome hsome]
  · rw [Option.or_none]
  · cases h
    rw [find_put, if_pos rfl, Option.not_isSome_iff_eq_none.1 hsome, Option.none_or]
  · rw [find_put, if_neg h, Option.or_none]

end Outcomes

namespace Mark

/-- The value that a mark sets for a callback. -/
def value? (phase : Phase) (callId : String) : Mark → Option Json
  | .settle other x (.ok value) => if (other, x) = (phase, callId) then some value else none
  | _ => none

/-- The reason that a mark sets for a callback, unless there is one. -/
def reason? (phase : Phase) (callId : String) : Mark → Option Json
  | .settle other x (.error reason) => if (other, x) = (phase, callId) then some reason else none
  | _ => none

end Mark

namespace Progress

theorem resolutions_mark (book : Progress) (mark : Mark) :
    (book.mark mark).resolutions.find? phase callId =
      (mark.value? phase callId).or (book.resolutions.find? phase callId) := by
  match mark with
  | .settle other x (.ok value) =>
    refine (Outcomes.find_put book.resolutions value).trans ?_
    rw [Mark.value?]
    split_ifs <;> rfl
  | .settle other x (.error reason) => rfl
  | .begin => rfl
  | .resolve => rfl
  | .reject _ => rfl
  | .abort => rfl

theorem rejections_mark (book : Progress) (mark : Mark) :
    (book.mark mark).rejections.find? phase callId =
      (book.rejections.find? phase callId).or (mark.reason? phase callId) := by
  match mark with
  | .settle other x (.error reason) => exact Outcomes.find_putNew book.rejections reason
  | .settle other x (.ok value) => exact Option.or_none.symm
  | .begin => exact Option.or_none.symm
  | .resolve => exact Option.or_none.symm
  | .reject _ => exact Option.or_none.symm
  | .abort => exact Option.or_none.symm

/-- **The value of a callback** after some marks is the last that was set. -/
theorem resolutions_markAll (book : Progress) (marks : List Mark) :
    (book.markAll marks).resolutions.find? phase callId =
      (marks.filterMap (Mark.value? phase callId)).getLast?.or (book.resolutions.find? phase callId) := by
  induction marks generalizing book with
  | nil => rfl
  | cons mark rest ih =>
    refine (ih (book.mark mark)).trans ?_
    rw [resolutions_mark, ← Option.or_assoc, List.filterMap_cons]
    cases mark.value? phase callId with
    | none => rw [Option.or_none]
    | some value =>
      rw [List.getLast?_cons]
      cases (rest.filterMap (Mark.value? phase callId)).getLast? <;> rfl

/-- **The reason of a callback** after some marks is the first that was set. -/
theorem rejections_markAll (book : Progress) (marks : List Mark) :
    (book.markAll marks).rejections.find? phase callId =
      (book.rejections.find? phase callId).or (marks.filterMap (Mark.reason? phase callId)).head? := by
  induction marks generalizing book with
  | nil => exact Option.or_none.symm
  | cons mark rest ih =>
    refine (ih (book.mark mark)).trans ?_
    rw [rejections_mark, Option.or_assoc, List.filterMap_cons]
    cases mark.reason? phase callId with
    | none => rw [Option.none_or]
    | some reason => rw [List.head?_cons, Option.some_or]

end Progress

/-- A mark that says something of a callback touches its phase. -/
theorem Mark.filterMap_touches (marks : List Mark) {g : Mark → Option α}
    (hg : ∀ mark, Mark.touches phase mark = false → g mark = none) :
    (marks.filter (Mark.touches phase)).filterMap g = marks.filterMap g := by
  rw [List.filterMap_filter]
  refine List.filterMap_congr fun mark _ => ?_
  cases ht : Mark.touches phase mark with
  | true => rfl
  | false => exact (hg mark ht).symm

theorem Mark.value_of_not_touches (mark : Mark) (h : Mark.touches phase mark = false) :
    mark.value? phase callId = none := by
  match mark with
  | .settle other x (.ok value) => exact if_neg fun heq => of_decide_eq_false h (Prod.mk.inj heq).1
  | .settle other x (.error reason) => rfl
  | .begin => rfl
  | .resolve => rfl
  | .reject _ => rfl
  | .abort => rfl

theorem Mark.reason_of_not_touches (mark : Mark) (h : Mark.touches phase mark = false) :
    mark.reason? phase callId = none := by
  match mark with
  | .settle other x (.error reason) => exact if_neg fun heq => of_decide_eq_false h (Prod.mk.inj heq).1
  | .settle other x (.ok value) => rfl
  | .begin => rfl
  | .resolve => rfl
  | .reject _ => rfl
  | .abort => rfl

/-- What marks say of callbacks they say of settlements. -/
theorem filterMap_marks (acts : List (Act κ φ)) {g : Mark → Option α}
    (hg : ∀ mark, mark.settled? = none → g mark = none) :
    (acts.filterMap (Act.mark? id)).filterMap g =
      (acts.filterMap (Act.settled? id)).filterMap fun (phase, x, outcome) => g (.settle phase x outcome) := by
  rw [List.filterMap_filterMap, List.filterMap_filterMap]
  refine List.filterMap_congr fun act _ => ?_
  rw [Act.settled?]
  cases act.mark? id with
  | none => rfl
  | some mark =>
    cases mark with
    | settle phase x outcome => rfl
    | _ => exact hg _ rfl

/-! ## Polls -/

/-- Whether endings are in the order of the calls. -/
def Ordered (ended : List Ending) : Prop := (ended.map Ending.position).Pairwise (· < ·)

/-- The ending of a call with one more before it. -/
def Ending.shift (ending : Ending) : Ending := { ending with position := ending.position + 1 }

theorem Settling.cons (first : Call φ) (h : Settling id phase calls acts ended calls') :
    Settling id phase (first :: calls) acts (ended.map Ending.shift) (first :: calls') := by
  induction h with
  | none calls => exact .none _
  | @visit calls calls' position call call' acts more rest hc hv _ ih =>
    have hending : (call'.ending? position).toList.map Ending.shift = (call'.ending? (position + 1)).toList := by
      unfold Call.ending?
      cases call'.outcome? <;> rfl
    rw [List.map_append, hending]
    exact .visit (by rwa [List.getElem?_cons_succ]) hv ih

theorem Ordered.shift {ended : List Ending} (h : Ordered ended) : Ordered (ended.map Ending.shift) := by
  unfold Ordered at h ⊢
  rw [List.pairwise_map] at h
  rw [List.map_map, List.pairwise_map]
  exact h.imp Nat.succ_lt_succ

/-- **Calls that are swept** end in their order. -/
theorem Sweep.settling (h : Sweep id phase calls acts calls') :
    ∃ ended, Settling id phase calls acts ended calls' ∧ Ordered ended := by
  induction h with
  | nil => exact ⟨[], .none [], .nil⟩
  | @skip call _ _ _ _ _ _ ih =>
    obtain ⟨ended, hsettling, hordered⟩ := ih
    exact ⟨_, hsettling.cons call, hordered.shift⟩
  | @visit call call' rest _ _ _ hvisit _ ih =>
    obtain ⟨ended, hsettling, hordered⟩ := ih
    have hfirst : (call :: rest)[0]? = some call := rfl
    refine ⟨_, .visit hfirst hvisit (hsettling.cons call'), ?_⟩
    -- all others stand after the first call, whose ending comes first
    unfold Ordered
    rw [List.map_append, List.pairwise_append]
    refine ⟨?_, hordered.shift, ?_⟩
    · cases call'.ending? 0 <;> simp
    · intro i hi j hj
      obtain ⟨ending, he, rfl⟩ := List.mem_map.1 hi
      obtain ⟨outcome, -, rfl⟩ := Option.map_eq_some_iff.1 (Option.mem_toList.1 he)
      obtain ⟨later, hl, rfl⟩ := List.mem_map.1 hj
      obtain ⟨earlier, -, rfl⟩ := List.mem_map.1 hl
      exact Nat.succ_pos _

/-- **One poll of calls**: if they are no crowd they end in their order. -/
theorem pollRoster_settling {roster roster' : Roster φ}
    (h : (pollRoster id phase roster : Program κ φ _).Does M acts roster') :
    ∃ ended, Settling id phase roster.calls acts ended roster'.calls ∧
      (roster.calls.length ≤ crowdLimit → Ordered ended) := by
  unfold pollRoster at h
  split at h
  · rename_i hcrowd
    obtain ⟨ended, hsettling⟩ := (pollTurns_does h).1.settling
    exact ⟨ended, hsettling, fun hle => absurd (of_decide_eq_true hcrowd) (Nat.not_lt.2 hle)⟩
  · obtain ⟨before, after, polled, rfl, hcalls, hafter⟩ := h.bind_inv
    obtain ⟨rfl, rfl⟩ := hafter.pure_inv
    obtain ⟨ended, hsettling, hordered⟩ := (pollAll_does hcalls).settling
    rw [List.append_nil]
    exact ⟨ended, hsettling, fun _ => hordered⟩

theorem Settling.length_eq (h : Settling id phase calls acts ended calls') : calls'.length = calls.length := by
  have hids := congrArg List.length h.ids_eq
  rwa [List.length_map, List.length_map] at hids

variable {ending : List (List Ending)} {stage : Stage φ} {polled : Polled}

namespace Rounds

/-- **What the polls of a phase note** is what its calls come to. -/
theorem settled_eq (h : Rounds d target id t phase polls ending calls) :
    polls.flatten.filterMap (Act.settled? id) = ending.flatten.map (Ending.settled phase) := by
  have hrest : ∀ {acts : List (Act κ φ)} {last : Act κ φ}, last.isRest = true →
      (acts ++ [last]).filterMap (Act.settled? id) = acts.filterMap (Act.settled? id) := by
    intro acts last hlast
    have hnone : Act.settled? id last = none := by
      match last with
      | .made (.setStage _ _) => rfl
      | .made (.closeFuture _) => rfl
    rw [List.filterMap_append, List.filterMap_cons_none hnone, List.filterMap_nil, List.append_nil]
  induction h with
  | missing hmisses hlast =>
    rw [List.flatten_singleton, List.flatten_singleton, hrest hlast, hmisses.filterMap_eq_nil fun _ _ => rfl,
      List.map_nil]
  | first hfinds hsettling hlast =>
    rw [List.flatten_singleton, List.flatten_singleton, hrest hlast]
    exact settled_invokes hsettling
  | again _ hsettling hlast ih =>
    rw [List.flatten_concat, List.flatten_concat, List.filterMap_append, List.map_append, ih, hrest hlast,
      hsettling.settled_eq]

/-- Each call that has its outcome has come to it once. -/
theorem endings_perm (h : Rounds d target id t phase polls ending calls) :
    (Call.endings 0 calls).Perm ending.flatten := by
  induction h with
  | missing _ _ => exact .nil
  | first _ hsettling _ =>
    rw [List.flatten_singleton]
    exact hsettling.endings_made
  | again _ hsettling _ ih =>
    rw [List.flatten_concat]
    exact hsettling.endings_perm.trans (ih.append_right _)

/-- No call ends twice. -/
theorem positions_nodup (h : Rounds d target id t phase polls ending calls) :
    (ending.flatten.map Ending.position).Nodup :=
  (h.endings_perm.map Ending.position).nodup_iff.1 (Call.endings_nodup 0 calls)

/-- What the marks of the polls say of callbacks. -/
theorem marks_eq (h : Rounds d target id t phase polls ending calls) {g : Mark → Option α}
    (hg : ∀ mark, mark.settled? = none → g mark = none) :
    (polls.flatten.filterMap (Act.mark? id)).filterMap g =
      ending.flatten.filterMap fun e => g (.settle phase e.id e.outcome) := by
  rw [filterMap_marks _ hg, h.settled_eq, List.filterMap_map]
  rfl

theorem values_eq (h : Rounds d target id t phase polls ending calls) (x : String) :
    (polls.flatten.filterMap (Act.mark? id)).filterMap (Mark.value? phase x) =
      ending.flatten.filterMap (Ending.value? x) := by
  rw [h.marks_eq fun mark hmark => by cases mark <;> first | rfl | exact nomatch hmark]
  refine List.filterMap_congr fun e _ => ?_
  unfold Mark.value? Ending.value?
  cases e.outcome <;> simp

theorem reasons_eq (h : Rounds d target id t phase polls ending calls) (x : String) :
    (polls.flatten.filterMap (Act.mark? id)).filterMap (Mark.reason? phase x) =
      ending.flatten.filterMap (Ending.reason? x) := by
  rw [h.marks_eq fun mark hmark => by cases mark <;> first | rfl | exact nomatch hmark]
  refine List.filterMap_congr fun e _ => ?_
  unfold Mark.reason? Ending.reason?
  cases e.outcome <;> simp

/-- **A book that has the marks of the polls**, and otherwise only marks that do not touch the phase, tells how the
callbacks ended. -/
theorem tells (h : Rounds d target id t phase polls ending calls) {marks : List Mark}
    (hmarks : marks.filter (Mark.touches phase) =
      (polls.flatten.filterMap (Act.mark? id)).filter (Mark.touches phase)) :
    (Progress.fresh.markAll marks).Tells phase ending.flatten := by
  -- marks that do not touch the phase say nothing of its callbacks, so the others are those of the polls
  refine ⟨fun x => ?_, fun x => ?_⟩
  · have hvalues := congrArg (List.filterMap (Mark.value? phase x)) hmarks
    rw [Mark.filterMap_touches _ Mark.value_of_not_touches,
      Mark.filterMap_touches _ Mark.value_of_not_touches, h.values_eq] at hvalues
    rw [Progress.resolutions_markAll, hvalues]
    exact Option.or_none
  · have hreasons := congrArg (List.filterMap (Mark.reason? phase x)) hmarks
    rw [Mark.filterMap_touches _ Mark.reason_of_not_touches,
      Mark.filterMap_touches _ Mark.reason_of_not_touches, h.reasons_eq] at hreasons
    rw [Progress.rejections_markAll, hreasons]
    exact Option.none_or

/-- The marks of the polls leave what a book tells of another phase. -/
theorem leaves (h : Rounds d target id t phase polls ending calls) (book : Progress) (ho : other ≠ phase)
    (x : String) :
    let book' := book.markAll (polls.flatten.filterMap (Act.mark? id))
    book'.resolutions.find? other x = book.resolutions.find? other x ∧
      book'.rejections.find? other x = book.rejections.find? other x := by
  have hne : ∀ y, (phase, y) ≠ (other, x) := fun y heq => ho (Prod.mk.inj heq).1.symm
  have hvalues : (polls.flatten.filterMap (Act.mark? id)).filterMap (Mark.value? other x) = [] := by
    rw [h.marks_eq fun mark hmark => by cases mark <;> first | rfl | exact nomatch hmark]
    refine List.filterMap_eq_nil_iff.2 fun e _ => ?_
    unfold Mark.value?
    cases e.outcome <;> simp [hne]
  have hreasons : (polls.flatten.filterMap (Act.mark? id)).filterMap (Mark.reason? other x) = [] := by
    rw [h.marks_eq fun mark hmark => by cases mark <;> first | rfl | exact nomatch hmark]
    refine List.filterMap_eq_nil_iff.2 fun e _ => ?_
    unfold Mark.reason?
    cases e.outcome <;> simp [hne]
  dsimp only
  rw [Progress.resolutions_markAll, Progress.rejections_markAll, hvalues, hreasons]
  exact ⟨rfl, Option.or_none⟩

end Rounds

/-! ## From polls to rounds -/

theorem continuePhase_settling {roster : Roster φ} {advance : Advance φ}
    (h : (continuePhase id phase roster : Program κ φ _).Does M acts advance) :
    ∃ roster' ended, Settling id phase roster.calls acts ended roster'.calls ∧
      (roster.calls.length ≤ crowdLimit → Ordered ended) ∧ advance = .ofRoster phase roster' := by
  obtain ⟨before, after, roster', rfl, hpoll, hafter⟩ := h.bind_inv
  obtain ⟨rfl, rfl⟩ := hafter.pure_inv
  obtain ⟨ended, hsettling, hordered⟩ := pollRoster_settling hpoll
  rw [List.append_nil]
  exact ⟨roster', ended, hsettling, hordered, rfl⟩

/-- Where a phase stands that has advanced, if it is not over. -/
def Advance.stage? : Advance φ → Option (Stage φ)
  | .waiting phase roster => some (.waiting phase roster)
  | .over _ => none

theorem Advance.stage_ofRoster {roster : Roster φ} :
    ∀ stage ∈ (Advance.ofRoster phase roster).stage?, stage = .waiting phase roster := by
  intro stage hs
  rcases Advance.ofRoster_cases phase roster with ⟨-, hw⟩ | ⟨-, hw⟩ | ⟨outcomes, reason, -, -, hw⟩
  · rw [hw] at hs
    exact (Option.some.inj hs).symm
  · rw [hw] at hs
    exact nomatch hs
  · rw [hw] at hs
    exact nomatch hs

/-- **What has become of a phase** after some polls: the endings of its calls, in their order if they are no crowd,
and where it stands if it is not over. -/
structure Rounded (d : Definition κ) (target : String) (id : TransitionId) (t : Transition) (phase : Phase)
    (polls : List (List (Act κ φ))) (ending : List (List Ending)) (calls : List (Call φ))
    (stage? : Option (Stage φ)) : Prop where
  rounds : Rounds d target id t phase polls ending calls
  ordered : (d.listed t.record phase).length ≤ crowdLimit → ∀ ended ∈ ending, Ordered ended
  waits : ∀ stage ∈ stage?, ∃ roster, stage = .waiting phase roster ∧ roster.calls = calls ∧
    calls.length = (d.listed t.record phase).length

variable {progress : Progress} {advance : Advance φ} {last : Act κ φ}

/-- The first poll of a phase. -/
theorem startPhase_rounded
    (h : (startPhase id { t with progress } phase : Program κ φ _).Does (Machine.Serves d target) acts advance)
    (hlast : last.isRest = true) :
    ∃ ended calls, Rounded d target id t phase [acts ++ [last]] [ended] calls advance.stage? := by
  rcases startPhase_cases h with ⟨error, hmisses, rfl⟩ | ⟨invoked, visits, hfinds, hphase, rfl⟩
  · refine ⟨[], [], .missing hmisses hlast, fun _ ended he => ?_, fun _ hs => nomatch hs⟩
    rw [List.mem_singleton.1 he]
    exact .nil
  · obtain ⟨roster, ended, hsettling, hordered, rfl⟩ := continuePhase_settling hphase
    have hlength : (invoked.map (Call.made (κ := κ))).length = (d.listed t.record phase).length := by
      rw [← hfinds.all, List.length_map, List.length_map, List.length_map]
    refine ⟨ended, roster.calls, .first hfinds hsettling hlast, fun hle ended' he => ?_, fun stage hs =>
      ⟨roster, Advance.stage_ofRoster stage hs, rfl, hsettling.length_eq.trans hlength⟩⟩
    rw [List.mem_singleton.1 he]
    exact hordered (hlength ▸ hle)

/-- Another poll of a phase. -/
theorem Rounded.again {stage : Stage φ} (h : Rounded d target id t phase polls ending calls (some stage))
    (hmore : (advancePhase id { t with progress } phase stage : Program κ φ _).Does M acts advance)
    (hlast : last.isRest = true) :
    ∃ ended calls', Rounded d target id t phase (polls ++ [acts ++ [last]]) (ending ++ [ended]) calls'
      advance.stage? := by
  obtain ⟨roster, rfl, rfl, hlength⟩ := h.waits stage rfl
  obtain ⟨roster', ended, hsettling, hordered, rfl⟩ := continuePhase_settling hmore
  refine ⟨ended, roster'.calls, .again h.rounds hsettling hlast, fun hle ended' he => ?_, fun stage hs =>
    ⟨roster', Advance.stage_ofRoster stage hs, rfl, hsettling.length_eq.trans hlength⟩⟩
  rcases List.mem_append.1 he with he | he
  · exact h.ordered hle ended' he
  · rw [List.mem_singleton.1 he]
    exact hordered (hlength ▸ hle)

/-- A phase that still waits after some polls. -/
theorem Pends.rounded (h : Pends d target f id t (.phase phase) polls stage) :
    (polls = [] ∧ stage = .unpolled) ∨
      ∃ ending calls, Rounded d target id t phase polls ending calls (some stage) := by
  induction h with
  | unpolled => exact .inl ⟨rfl, rfl⟩
  | @poll progress polls stage next acts _ hpoll ih =>
    right
    generalize hacts : acts ++ [.made (.setStage f next)] = all at hpoll
    generalize hpolled : Polled.pending = polled at hpoll
    cases pollFrom_phase_does hpoll with
    | @waits more phase' roster hmore =>
      obtain ⟨rfl, hlast⟩ := List.append_inj' hacts rfl
      cases hlast
      have hrest : (Act.made (.setStage f (.waiting phase' roster)) : Act κ φ).isRest = true := rfl
      rcases ih with ⟨rfl, rfl⟩ | ⟨ending, calls, hrounded⟩
      · obtain ⟨ended, calls, hrounded⟩ := startPhase_rounded hmore hrest
        exact ⟨_, calls, hrounded⟩
      · obtain ⟨ended, calls', hrounded'⟩ := hrounded.again hmore hrest
        exact ⟨_, calls', hrounded'⟩
    | @ends more result _ => cases result <;> exact nomatch hpolled

/-- **The polls of a phase** are rounds, in which its calls end. -/
theorem Polls.rounded (h : Polls d target f id t (.phase phase) polls polled) :
    ∃ ending calls stage?, Rounded d target id t phase polls ending calls stage? := by
  cases h with
  | @poll progress polls stage acts _ hpends hpoll =>
    have hround : ∀ {more : List (Act κ φ)} {advance : Advance φ} {last : Act κ φ},
        (advancePhase id { t with progress } phase stage : Program κ φ _).Does (Machine.Serves d target) more
          advance → last.isRest = true →
        ∃ ending calls stage?, Rounded d target id t phase (polls ++ [more ++ [last]]) ending calls stage? := by
      intro more advance last hmore hlast
      rcases hpends.rounded with ⟨rfl, rfl⟩ | ⟨ending, calls, hrounded⟩
      · obtain ⟨ended, calls, hrounded⟩ := startPhase_rounded hmore hlast
        exact ⟨_, calls, _, hrounded⟩
      · obtain ⟨ended, calls', hrounded'⟩ := hrounded.again hmore hlast
        exact ⟨_, calls', _, hrounded'⟩
    cases pollFrom_phase_does hpoll with
    | waits hmore => exact hround hmore rfl
    | ends hmore => exact hround hmore rfl

end

/-- **The book of a phase is exact after each poll.** Whatever else is noted that does not touch the phase, the book
of a fresh transition tells of each identifier the value of the last callback that succeeded and the reason of the
first that failed, in the order in which they ended: each ends once, poll by poll, and in each poll by the turns of
the callbacks, which are in the order of the phase if it has no crowd of them. Nothing is told of any other
identifier, and the polls leave what is told of the other phases. -/
theorem book_tells {κ φ : Type} {d : Definition κ} {target : String} {f : FutureId} {id : TransitionId}
    {t : Transition} {phase : Phase} {polls : List (List (Act κ φ))} {polled : Polled}
    (h : Polls d target f id t (.phase phase) polls polled) :
    ∃ (ending : List (List Ending)) (calls : List (Call φ)),
      Rounds d target id t phase polls ending calls ∧ (Call.endings 0 calls).Perm ending.flatten ∧
        (ending.flatten.map Ending.position).Nodup ∧
        ((d.listed t.record phase).length ≤ crowdLimit → InOrder ending ending) ∧
        (∀ marks : List Mark, marks.filter (Mark.touches phase) =
            (polls.flatten.filterMap (Act.mark? id)).filter (Mark.touches phase) →
          (Progress.fresh.markAll marks).Tells phase ending.flatten) ∧
        ∀ (book : Progress) (other : Phase), other ≠ phase → ∀ callId,
          let book' := book.markAll (polls.flatten.filterMap (Act.mark? id))
          book'.resolutions.find? other callId = book.resolutions.find? other callId ∧
            book'.rejections.find? other callId = book.rejections.find? other callId := by
  obtain ⟨ending, calls, stage?, hrounded⟩ := h.rounded
  have hrounds := hrounded.rounds
  refine ⟨ending, calls, hrounds, hrounds.endings_perm, hrounds.positions_nodup, fun hle => ?_,
    fun marks => hrounds.tells, fun book other ho => hrounds.leaves book ho⟩
  exact List.forall₂_same.2 fun ended he => ⟨.refl _, hrounded.ordered hle ended he⟩

namespace Echo

/-- Four who answer by one name. -/
def record : Record :=
  ⟨"call", "near", "far", .none,
    .ofFn fun phase => if phase = .beforeEvent then List.replicate 4 "echo" else []⟩

def definition : Definition Unit :=
  ⟨"near", ["near", "far"].map (State.ofRecords [record]), [⟨"call", [record]⟩], []⟩

theorem compile_spec : Definition.compile (.object [
    ("states", .object [("initialState", .string "near")]),
    ("events", .object [("call", .object [("transition", .object [
      ("near", .string "far"),
      ("before", .array [.string "echo", .string "echo", .string "echo", .string "echo"])])])])]) [] =
    .ok definition := rfl

def transition : Transition := .fresh record []

def context : Context := ⟨"call", "near", "far", .beforeEvent, []⟩

/-- What is done in a first poll. The second one answers and the third one fails, and the others sleep. -/
def start : List (Act Unit Bool) :=
  List.replicate 4 (.asked (.callback "echo") (some ())) ++ [
  .made (.note 0 .begin),
  .asked (.call () context) (.pending true),
  .asked (.call () context) (.value (.string "quick")),
  .asked (.call () context) (.error (.string "hoarse")),
  .asked (.call () context) (.pending false),
  .asked (.poll true) (.sleeping true),
  .made (.note 0 (.settle .beforeEvent "transition:echo" (.ok (.string "quick")))),
  .made (.note 0 (.settle .beforeEvent "transition:echo" (.error (.string "hoarse")))),
  .asked (.poll false) (.sleeping false)]

/-- The calls that the first poll leaves. -/
def roster : Roster Bool :=
  ⟨[⟨"transition:echo", .asleep true⟩, ⟨"transition:echo", .noted (.ok (.string "quick"))⟩,
    ⟨"transition:echo", .noted (.error (.string "hoarse"))⟩, ⟨"transition:echo", .asleep false⟩],
    [0, 1, 2, 3], [], 0⟩

/-- What is done in a second poll. The first one answers, and the last one fails. -/
def rest : List (Act Unit Bool) := [
  .asked (.poll true) (.settled (.ok (.string "slow"))),
  .made (.note 0 (.settle .beforeEvent "transition:echo" (.ok (.string "slow")))),
  .asked (.poll false) (.settled (.error (.string "mute"))),
  .made (.note 0 (.settle .beforeEvent "transition:echo" (.error (.string "mute"))))]

def polls : List (List (Act Unit Bool)) :=
  [start ++ [.made (.setStage 0 (.waiting .beforeEvent roster))], rest ++ [.made (.closeFuture 0)]]

theorem serves : (Machine.start definition "cliff" toString "near" 0 : Machine Unit Bool).Serves definition "cliff" :=
  ⟨rfl, rfl⟩

theorem start_does : (pollFrom 0 0 transition (.phase .beforeEvent) .unpolled).Does
    (Machine.Serves definition "cliff") (start ++ [.made (.setStage 0 (.waiting .beforeEvent roster))]) .pending :=
  .look serves <| .ask <| .ask <| .ask <| .ask <| .change <| .ask <| .ask <| .ask <| .ask <|
    .ask <| .change <| .change <| .ask <| .change <| .done _

theorem rest_does : (pollFrom 0 0 transition (.phase .beforeEvent) (.waiting .beforeEvent roster)).Does
    (Machine.Serves definition "cliff") (rest ++ [.made (.closeFuture 0)])
    (.rejected (.callback (.string "mute"))) :=
  .ask <| .change <| .ask <| .change <| .change <| .done _

theorem polls_end : Polls definition "cliff" 0 0 transition (.phase .beforeEvent) polls
    (.rejected (.callback (.string "mute"))) :=
  .poll (.poll .unpolled start_does) rest_does

/-- The book after the polls. -/
def book : Progress := Progress.fresh.markAll (polls.flatten.filterMap (Act.mark? 0))

end Echo

/-- Of the four that answer by one name the book tells the slow answer, which came last, and the failure that came
first. -/
theorem book_tells_echo :
    Echo.book.resolutions.find? .beforeEvent "transition:echo" = some (.string "slow") ∧
      Echo.book.rejections.find? .beforeEvent "transition:echo" = some (.string "hoarse") ∧
      ∃ ending calls, Rounds Echo.definition "cliff" 0 Echo.transition .beforeEvent Echo.polls ending calls ∧
        InOrder ending ending ∧ Echo.book.Tells .beforeEvent ending.flatten := by
  obtain ⟨ending, calls, hrounds, -, -, hordered, htells, -⟩ := book_tells Echo.polls_end
  exact ⟨rfl, rfl, ending, calls, hrounds, hordered (by decide), htells _ rfl⟩

namespace Crowd

/-- The identifier that a named hook shares with an inline one. -/
def shared : String := "state:_inline:0-1_"

def spec : Json := .object [
  ("states", .object [("initialState", .string "off"),
    ("off", .object [("willExit", .string "_inline:0-1_")])]),
  ("events", .object [("run", .object [("transition", .object [
    ("off", .string "on"), ("willExit", .array (List.replicate 29 (.string "pad")))])])])]

def record : Record :=
  ⟨"run", "off", "on", .none,
    .ofFn fun phase => if phase = .willExit then List.replicate 29 "pad" else []⟩

def definition : Definition Unit :=
  ⟨"off", ["off", "on"].map (State.ofRecords [record]), [⟨"run", [record]⟩],
    [⟨"off", .willExit, .named "_inline:0-1_"⟩, ⟨"off", .willExit, .inline ()⟩]⟩

theorem compile_spec : Definition.compile spec [⟨"off", .willExit, ()⟩] = .ok definition := rfl

def transition : Transition := .fresh record []

/-- Those that have their values at once. -/
def prompt : List (Occurrence Unit × Json) :=
  (⟨.inlineHook 0 1 (), ()⟩, .string "inline") :: List.replicate 29 (⟨.transition "pad", ()⟩, .null)

/-- The named hook comes first, and yields. -/
def invoked : List (Occurrence Unit × Settlement Bool) :=
  (⟨.stateHook "off" "_inline:0-1_", ()⟩, .pending false) :: prompt.map fun a => (a.1, .value a.2)

/-- The prompt ones by their identifiers. -/
def values : List (String × Json) := prompt.map fun a => (a.1.listed.id, a.2)

def visits : List (Act Unit Bool) :=
  .asked (.poll false) (.yielding true) ::
    (values.map (Act.serve 0 .willExit) ++ Act.late 0 .willExit shared true (.string "named"))

def polls : List (List (Act Unit Bool)) :=
  [invokes 0 (transition.context .willExit) invoked visits ++ [.made (.closeFuture 0)]]

/-- The endings as they come: the named hook is the last. -/
def ended : List Ending := Ending.prompt 1 values ++ [⟨0, shared, .ok (.string "named")⟩]

/-- The endings in the order of the calls: the named hook is the first. -/
def sorted : List Ending := ⟨0, shared, .ok (.string "named")⟩ :: Ending.prompt 1 values

theorem serves : (Machine.start definition "shelf" toString "off" 0 : Machine Unit Bool).Serves definition "shelf" :=
  ⟨rfl, rfl⟩

theorem finds : Finds (definition.listed record .willExit) (invoked.map (·.1)) := by
  refine ⟨rfl, fun occurrence ho callback _ => Subsingleton.elim _ _⟩

/-- The calls when all have ended. -/
def calls : List (Call Bool) := Call.crowd ⟨shared, .noted (.ok (.string "named"))⟩ values []

theorem settling : Settling 0 .willExit (invoked.map Call.made) visits ended calls := by
  have hfirst : (invoked.map Call.made)[0]? = some ⟨shared, .due (.pending false)⟩ := rfl
  have hyields : Visit 0 .willExit ⟨shared, .due (.pending false)⟩
      [(.asked (.poll false) (.yielding true) : Act Unit Bool)] ⟨shared, .due (.pending true)⟩ := .yields true rfl
  exact .visit hfirst hyields (settling_prompt values [])

theorem rounds : Rounds definition "shelf" 0 transition .willExit polls [ended] calls :=
  .first finds settling rfl

theorem turns_do : (pollTurns 0 .willExit 31 31 yieldLimit (.start (invoked.map Call.made))).Does
    (Machine.Serves definition "shelf") visits ⟨calls, [], [], 0⟩ := by
  have hcall : (pollCall 0 .willExit ⟨shared, .due (.pending false)⟩).Does (Machine.Serves definition "shelf")
      [.asked (.poll false) (.yielding true)] ⟨shared, .due (.pending true)⟩ := .ask (.done _)
  have hrest : (pollTurns 0 .willExit 31 30 1
      ⟨Call.crowd ⟨shared, .due (.pending true)⟩ [] values, List.range' 1 30 ++ [0], [], 0⟩).Does
        (Machine.Serves definition "shelf") _ ⟨calls, [], [], 0⟩ :=
    pollTurns_prompt serves values [] 29 0
  exact pollTurns_yields serves rfl hcall hrest

theorem polls_end : Polls definition "shelf" 0 0 transition (.phase .willExit) polls .finished := by
  have hfound : (callbacksFor transition .willExit).Does (Machine.Serves definition "shelf")
      (invoked.flatMap fun a => a.1.lookups) (.ok (invoked.map fun a => (a.1.listed.id, a.1.callback))) :=
    .look_bind serves (findAll_of_finds (invoked.map (·.1)) finds.inline)
  have hpoll : (pollRoster 0 .willExit (.start (invoked.map Call.made))).Does (Machine.Serves definition "shelf")
      visits ⟨calls, [], [], 0⟩ := turns_do
  have hphase : (startPhase 0 transition .willExit).Does (Machine.Serves definition "shelf")
      (invokes 0 (transition.context .willExit) invoked visits) (.over (.ok ())) :=
    hfound.bind (.change ((callAll_calls invoked).bind hpoll.bind_pure))
  exact .poll .unpolled (hphase.bind (.change (.done _)))

end Crowd

/-- **In a crowd callbacks may end out of their order** in one poll. A named hook that yields ends after all others,
and the book tells its value; in the order of the phase it would be that of the inline hook that shares its
identifier. -/
theorem book_tells_out_of_order :
    Polls Crowd.definition "shelf" 0 0 Crowd.transition (.phase .willExit) Crowd.polls .finished ∧
      Rounds Crowd.definition "shelf" 0 Crowd.transition .willExit Crowd.polls [Crowd.ended] Crowd.calls ∧
      InOrder [Crowd.sorted] [Crowd.ended] ∧
      ¬(Progress.fresh.markAll (Crowd.polls.flatten.filterMap (Act.mark? 0))).Tells .willExit
        [Crowd.sorted].flatten := by
  refine ⟨Crowd.polls_end, Crowd.rounds, .cons ⟨?_, ?_⟩ .nil, fun htells => ?_⟩
  · exact (List.perm_append_singleton _ _).symm
  · decide
  · have hnamed : (Crowd.ended.filterMap (Ending.value? Crowd.shared)).getLast? = some (.string "named") := rfl
    have hinline : (Crowd.sorted.filterMap (Ending.value? Crowd.shared)).getLast? = some (.string "inline") := rfl
    have hbook := (Crowd.rounds.tells rfl).resolution Crowd.shared
    have heq := (hnamed.symm.trans hbook.symm).trans ((htells.resolution Crowd.shared).trans hinline)
    exact absurd (Json.string.inj (Option.some.inj heq)) (by decide)

end StateEngine
