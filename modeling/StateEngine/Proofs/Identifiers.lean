import Mathlib.Data.List.Nodup
import StateEngine.Proofs.Book

/-!
# The identifiers of a phase

The outcome of a callback is noted under an identifier, which tells whether a state hooks the callback in or the
record names it, and by which name. An inline hook has no name and goes by one that is made of its place. The places
of a phase are distinct, but nothing keeps a named hook from being called like one of them, and then the two share
their identifier and one place in the book.

* `Listed.id_eq_iff`: when two callbacks have the same identifier.
* `Definition.position_of_listed`: an inline hook goes by its own place in the phase.
* `Reading.Poses`: whether a named hook of a phase is called like the place of an inline one.
* `identifiers_own_iff`: **callbacks share identifiers only by their kind and name**, unless a named hook poses as an
  inline one.
-/

namespace StateEngine

variable {κ φ : Type}

/-! ## Two callbacks -/

namespace Listed

/-- The name that an inline hook goes by. -/
def placeName (stateIndex position : Nat) : String :=
  "_inline:" ++ toString stateIndex ++ "-" ++ toString position ++ "_"

/-- Whether two callbacks are of one kind and of one name. Inline hooks have no names. -/
def Alike : Listed κ → Listed κ → Prop
  | stateHook _ name, stateHook _ other => name = other
  | transition name, transition other => name = other
  | _, _ => False

/-- Whether a named hook is called like the place of an inline one. -/
def Poses : Listed κ → Listed κ → Prop
  | stateHook _ name, inlineHook stateIndex position _ => name = placeName stateIndex position
  | _, _ => False

/-- Whether two inline hooks go by one name. -/
def SamePlace : Listed κ → Listed κ → Prop
  | inlineHook stateIndex position _, inlineHook otherIndex otherPosition _ =>
    placeName stateIndex position = placeName otherIndex otherPosition
  | _, _ => False

theorem id_inlineHook (stateIndex position : Nat) (callback : κ) :
    (inlineHook stateIndex position callback).id = "state:" ++ placeName stateIndex position := by
  have hspaces : "state:_inline:" = "state:" ++ "_inline:" := rfl
  change "state:_inline:" ++ toString stateIndex ++ "-" ++ toString position ++ "_" = _
  rw [hspaces]
  simp only [placeName, String.append_assoc]

/-- The two kinds of names are told apart by how identifiers start. -/
theorem state_ne_transition (name other : String) : "state:" ++ name ≠ "transition:" ++ other := by
  intro h
  have hchars := congrArg String.toList h
  simp at hchars

/-- **Two callbacks have the same identifier** if they are alike, if one poses as the other, or if they are inline
hooks of one place. -/
theorem id_eq_iff {a b : Listed κ} : a.id = b.id ↔ a.Alike b ∨ a.Poses b ∨ b.Poses a ∨ a.SamePlace b := by
  have hstate : ∀ state name : String, (stateHook state name : Listed κ).id = "state:" ++ name := fun _ _ => rfl
  have htransition : ∀ name : String, (transition name : Listed κ).id = "transition:" ++ name := fun _ => rfl
  cases a with
  | stateHook state name =>
    cases b with
    | stateHook other name' => simp [hstate, Alike, Poses, SamePlace]
    | inlineHook index position callback => simp [hstate, id_inlineHook, Alike, Poses, SamePlace]
    | transition name' => simp [hstate, htransition, state_ne_transition, Alike, Poses, SamePlace]
  | inlineHook index position callback =>
    cases b with
    | stateHook other name' => simp [hstate, id_inlineHook, Alike, Poses, SamePlace, Eq.comm]
    | inlineHook index' position' callback' => simp [id_inlineHook, Alike, Poses, SamePlace]
    | transition name' => simp [htransition, id_inlineHook, state_ne_transition, Alike, Poses, SamePlace]
  | transition name =>
    have hkinds : ∀ other : String, "transition:" ++ name ≠ "state:" ++ other :=
      fun other => (state_ne_transition other name).symm
    cases b with
    | stateHook other name' => simp [hstate, htransition, hkinds, Alike, Poses, SamePlace]
    | inlineHook index position callback => simp [htransition, id_inlineHook, hkinds, Alike, Poses, SamePlace]
    | transition name' => simp [htransition, Alike, Poses, SamePlace]

/-- Places of one state have names of their own. -/
theorem placeName_inj {stateIndex position other : Nat} :
    placeName stateIndex position = placeName stateIndex other ↔ position = other := by
  refine ⟨fun h => ?_, fun h => h ▸ rfl⟩
  simp only [placeName, String.append_left_inj, String.append_right_inj] at h
  -- numbers are read back from their digits
  rw [Nat.toString_eq_ofList_toDigits, Nat.toString_eq_ofList_toDigits, String.ofList_inj] at h
  have hdigits := congrArg (Nat.ofDigitChars 10 · 0) h
  simpa only [Nat.ofDigitChars_ten_toDigits] using hdigits

variable {a b : Listed κ}

/-- Only inline hooks are posed as. -/
theorem Poses.inline (h : a.Poses b) : b.inline?.isSome := by
  cases a <;> cases b <;> first | exact h.elim | rfl

theorem Poses.not_alike (h : a.Poses b) : ¬ a.Alike b := by
  cases a <;> cases b <;> first | exact h.elim | exact not_false

theorem Poses.ne (h : a.Poses b) : a ≠ b := by
  rintro rfl
  cases a <;> exact h.elim

theorem Alike.not_inline (h : a.Alike b) : ¬ a.inline?.isSome := by
  cases a <;> cases b <;> first | exact h.elim | exact Bool.false_ne_true

end Listed

/-! ## The callbacks of a phase -/

section

variable {d : Definition κ} {record : Record} {phase : Phase}

/-- A phase that runs the hooks of a state is one that states may hook into. -/
theorem Record.mem_hooks_of_hookState {state : String} (h : record.hookState? phase = some state) :
    phase ∈ Phase.hooks := by
  cases phase <;> first | decide | exact nomatch h

theorem Definition.listed_of_hookState {state : String} (h : record.hookState? phase = some state) :
    d.listed record phase = d.listedHooks state phase ++ (record.callbacks.get phase).map .transition := by
  rw [listed, h]

theorem Definition.listed_of_no_hookState (h : record.hookState? phase = none) :
    d.listed record phase = (record.callbacks.get phase).map .transition := by
  rw [listed, h, List.nil_append]

/-- **An inline hook goes by its own place** among the callbacks of its phase. -/
theorem Definition.position_of_listed {i stateIndex position : Nat} {callback : κ}
    (h : (d.listed record phase)[i]? = some (.inlineHook stateIndex position callback)) :
    ∃ state, record.hookState? phase = some state ∧ stateIndex = (d.stateIndex? state).getD 0 ∧ position = i := by
  cases hstate : record.hookState? phase with
  | none => simp [listed_of_no_hookState hstate] at h
  | some state =>
    rw [listed_of_hookState hstate, List.getElem?_append] at h
    split at h
    · simp only [listedHooks, List.getElem?_mapIdx, Option.map_eq_some_iff] at h
      obtain ⟨hook, -, hhook⟩ := h
      cases hook with
      | named name => exact nomatch hhook
      | inline own =>
        cases hhook
        exact ⟨state, rfl, rfl, rfl⟩
    · simp at h

/-- Two inline hooks of a phase go by one name only if they are the same one. -/
theorem Definition.eq_of_samePlace {i j : Nat} {a b : Listed κ} (ha : (d.listed record phase)[i]? = some a)
    (hb : (d.listed record phase)[j]? = some b) (h : a.SamePlace b) : i = j := by
  cases a with
  | inlineHook index position callback =>
    cases b with
    | inlineHook index' position' callback' =>
      obtain ⟨state, hstate, rfl, rfl⟩ := Definition.position_of_listed ha
      obtain ⟨state', hstate', rfl, rfl⟩ := Definition.position_of_listed hb
      obtain rfl := Option.some.inj (hstate.symm.trans hstate')
      exact Listed.placeName_inj.1 h
    | _ => exact h.elim
  | _ => exact h.elim

/-- **Two callbacks of a phase share their identifier** if they are alike, or one poses as the other. -/
theorem Definition.id_eq_iff_of_listed {i j : Nat} {a b : Listed κ} (ha : (d.listed record phase)[i]? = some a)
    (hb : (d.listed record phase)[j]? = some b) (hne : i ≠ j) :
    a.id = b.id ↔ a.Alike b ∨ a.Poses b ∨ b.Poses a := by
  rw [Listed.id_eq_iff]
  have hplace : ¬ a.SamePlace b := fun h => hne (Definition.eq_of_samePlace ha hb h)
  tauto

/-! ## Hooks that pose -/

variable {spec : Json} {inline : List (InlineHook κ)}

/-- **Whether a named hook of a phase poses as an inline one**: it is called like the place of an inline hook of the
same state. The places of the inline hooks come after those of the named ones. -/
def Reading.Poses (spec : Json) (inline : List (InlineHook κ)) (stateIndex : String → Nat) (record : Record)
    (phase : Phase) : Prop :=
  ∃ state, record.hookState? phase = some state ∧ ∃ n < (inlineHooks inline state phase).length,
    Listed.placeName (stateIndex state) ((stateHooks spec state phase).length + n) ∈ stateHooks spec state phase

/-- The named hooks of a phase, by the value that was compiled. -/
theorem Definition.mem_listed_stateHook (h : Definition.compile spec inline = .ok d) {state name : String} :
    .stateHook state name ∈ d.listed record phase ↔
      record.hookState? phase = some state ∧ name ∈ Reading.stateHooks spec state phase := by
  cases hstate : record.hookState? phase with
  | none => simp [listed_of_no_hookState hstate]
  | some other =>
    rw [listed_of_hookState hstate, listedHooks_compile h other (Record.mem_hooks_of_hookState hstate),
      Reading.listedHooks]
    simp only [List.mem_append, List.mem_map, List.mem_mapIdx, Listed.stateHook.injEq, reduceCtorEq, and_false,
      exists_false, or_false, Option.some.injEq]
    constructor
    · rintro ⟨name, hname, rfl, rfl⟩
      exact ⟨rfl, hname⟩
    · rintro ⟨rfl, hname⟩
      exact ⟨name, hname, rfl, rfl⟩

/-- The inline hooks of a phase, by those that were given. -/
theorem Definition.mem_listed_inlineHook (h : Definition.compile spec inline = .ok d) {stateIndex position : Nat} :
    (∃ callback, .inlineHook stateIndex position callback ∈ d.listed record phase) ↔
      ∃ state, record.hookState? phase = some state ∧ stateIndex = (d.stateIndex? state).getD 0 ∧
        ∃ n < (Reading.inlineHooks inline state phase).length,
          position = (Reading.stateHooks spec state phase).length + n := by
  cases hstate : record.hookState? phase with
  | none => simp [listed_of_no_hookState hstate]
  | some state =>
    rw [listed_of_hookState hstate, listedHooks_compile h state (Record.mem_hooks_of_hookState hstate),
      Reading.listedHooks]
    simp only [List.mem_append, List.mem_map, List.mem_mapIdx, Listed.inlineHook.injEq, reduceCtorEq, and_false,
      exists_false, or_false, false_or, Option.some.injEq, exists_eq_left']
    constructor
    · rintro ⟨callback, n, hn, rfl, rfl, -⟩
      exact ⟨rfl, n, hn, rfl⟩
    · rintro ⟨rfl, n, hn, rfl⟩
      exact ⟨_, n, hn, rfl, rfl, rfl⟩

/-- One of the callbacks of a phase poses as another if a named hook does by its name. -/
theorem Definition.poses_iff (h : Definition.compile spec inline = .ok d) :
    (∃ a ∈ d.listed record phase, ∃ b ∈ d.listed record phase, a.Poses b) ↔
      Reading.Poses spec inline (fun state => (d.stateIndex? state).getD 0) record phase := by
  constructor
  · rintro ⟨a, ha, b, hb, hposes⟩
    match a, b, hposes with
    | .stateHook state name, .inlineHook index position callback, hname =>
      obtain ⟨hstate, hmem⟩ := (Definition.mem_listed_stateHook h).1 ha
      obtain ⟨other, hother, rfl, n, hn, rfl⟩ := (Definition.mem_listed_inlineHook h).1 ⟨callback, hb⟩
      obtain rfl := Option.some.inj (hstate.symm.trans hother)
      exact ⟨state, hstate, n, hn, hname ▸ hmem⟩
  · rintro ⟨state, hstate, n, hn, hmem⟩
    obtain ⟨callback, hb⟩ := (Definition.mem_listed_inlineHook h).2 ⟨state, hstate, rfl, n, hn, rfl⟩
    exact ⟨_, (Definition.mem_listed_stateHook h).2 ⟨hstate, hmem⟩, _, hb, rfl⟩

/-- Whether callbacks share identifiers only by their kind and name. -/
def Listed.ShareByName (listed : List (Listed κ)) : Prop :=
  ∀ (i j : Nat) (a b : Listed κ), listed[i]? = some a → listed[j]? = some b → i ≠ j → a.id = b.id → a.Alike b

/-- Whether each inline hook has its identifier for itself. -/
def Listed.InlineApart (listed : List (Listed κ)) : Prop :=
  ∀ (i j : Nat) (a b : Listed κ), listed[i]? = some a → listed[j]? = some b → i ≠ j → a.inline?.isSome →
    a.id ≠ b.id

/-- **Callbacks share identifiers only by their kind and name** in a phase in which no named hook poses. -/
theorem Definition.shareByName_iff (h : Definition.compile spec inline = .ok d) :
    Listed.ShareByName (d.listed record phase) ↔
      ¬ Reading.Poses spec inline (fun state => (d.stateIndex? state).getD 0) record phase := by
  rw [← Definition.poses_iff h]
  constructor
  · rintro hshare ⟨a, ha, b, hb, hposes⟩
    obtain ⟨i, hi⟩ := List.mem_iff_getElem?.1 ha
    obtain ⟨j, hj⟩ := List.mem_iff_getElem?.1 hb
    have hid : a.id = b.id := Listed.id_eq_iff.2 (.inr (.inl hposes))
    have hne : i ≠ j := by
      rintro rfl
      exact hposes.ne (Option.some.inj (hi.symm.trans hj))
    exact hposes.not_alike (hshare i j a b hi hj hne hid)
  · intro hnone i j a b hi hj hne hid
    rcases (Definition.id_eq_iff_of_listed hi hj hne).1 hid with halike | hposes | hposes
    · exact halike
    · exact (hnone ⟨a, List.mem_of_getElem? hi, b, List.mem_of_getElem? hj, hposes⟩).elim
    · exact (hnone ⟨b, List.mem_of_getElem? hj, a, List.mem_of_getElem? hi, hposes⟩).elim

/-- An inline hook has its identifier for itself in a phase in which no named hook poses. -/
theorem Definition.inlineApart_iff (h : Definition.compile spec inline = .ok d) :
    Listed.InlineApart (d.listed record phase) ↔
      ¬ Reading.Poses spec inline (fun state => (d.stateIndex? state).getD 0) record phase := by
  rw [← Definition.shareByName_iff h]
  constructor
  · intro hapart i j a b hi hj hne hid
    rcases (Definition.id_eq_iff_of_listed hi hj hne).1 hid with halike | hposes | hposes
    · exact halike
    · exact absurd hid.symm (hapart j i b a hj hi hne.symm hposes.inline)
    · exact absurd hid (hapart i j a b hi hj hne hposes.inline)
  · intro hshare i j a b hi hj hne hinline hid
    exact (hshare i j a b hi hj hne hid).not_inline hinline

/-! ## Outcomes of their own -/

variable {target : String} {f : FutureId} {id : TransitionId} {t : Transition}
  {polls : List (List (Act κ φ))} {ending : List (List Ending)} {calls : List (Call φ)}

/-- A call that has ended is the one at the position of its ending. -/
theorem Call.getElem_of_mem_endings {e : Ending} {first : Nat} (h : e ∈ Call.endings first calls) :
    ∃ call, calls[e.position - first]? = some call ∧ call.id = e.id := by
  induction calls generalizing first with
  | nil => exact nomatch h
  | cons call rest ih =>
    rw [endings, List.mem_append] at h
    rcases h with h | h
    · obtain ⟨outcome, -, rfl⟩ := Option.map_eq_some_iff.1 (Option.mem_toList.1 h)
      exact ⟨call, by simp, rfl⟩
    · obtain ⟨ended, hended, hid⟩ := ih h
      have hposition : e.position - first = e.position - (first + 1) + 1 := by
        have := le_of_mem_endings h
        omega
      exact ⟨ended, by rw [hposition, List.getElem?_cons_succ, hended], hid⟩

namespace Rounds

/-- The calls of a phase go by the identifiers of what it lists, if it comes to calls at all. -/
theorem ids_eq (h : Rounds d target id t phase polls ending calls) :
    calls = [] ∨ calls.map Call.id = (d.listed t.record phase).map Listed.id := by
  induction h with
  | missing _ _ => exact .inl rfl
  | @first invoked visits ended calls last hfinds hsettling _ =>
    right
    rw [hsettling.ids_eq, ← hfinds.all, List.map_map, List.map_map, List.map_map]
    rfl
  | @again polls ended calls calls' acts more last _ hsettling _ ih =>
    rw [hsettling.ids_eq]
    refine ih.imp (fun hnil => ?_) fun hids => hids
    have hlength := hsettling.length_eq
    rwa [hnil, List.length_nil, List.length_eq_zero_iff] at hlength

/-- A callback that has ended is the one that the phase lists at the position of its ending. -/
theorem listed_of_mem (h : Rounds d target id t phase polls ending calls) {e : Ending} (he : e ∈ ending.flatten) :
    ∃ a, (d.listed t.record phase)[e.position]? = some a ∧ a.id = e.id := by
  obtain ⟨call, hcall, hid⟩ := Call.getElem_of_mem_endings (h.endings_perm.mem_iff.2 he)
  rw [Nat.sub_zero] at hcall
  rcases h.ids_eq with rfl | hids
  · exact nomatch hcall
  · have hposition := congrArg (fun ids => ids[e.position]?) hids
    simp only [List.getElem?_map, hcall, Option.map_some] at hposition
    obtain ⟨a, ha, haid⟩ := Option.map_eq_some_iff.1 hposition.symm
    exact ⟨a, ha, haid.trans hid⟩

/-- A callback that has its identifier for itself has one ending of that identifier. -/
theorem eq_of_id_eq (h : Rounds d target id t phase polls ending calls) {e other : Ending}
    (he : e ∈ ending.flatten) (ho : other ∈ ending.flatten) {a : Listed κ}
    (ha : (d.listed t.record phase)[e.position]? = some a)
    (hown : ∀ j b, (d.listed t.record phase)[j]? = some b → e.position ≠ j → a.id ≠ b.id)
    (hid : other.id = e.id) : other = e := by
  obtain ⟨a', ha', haid⟩ := h.listed_of_mem he
  obtain rfl := Option.some.inj (ha.symm.trans ha')
  obtain ⟨b, hb, hbid⟩ := h.listed_of_mem ho
  have hposition : e.position = other.position := by
    by_contra hne
    exact hown _ b hb hne (haid.trans (hid.symm.trans hbid.symm))
  exact List.inj_on_of_nodup_map h.positions_nodup ho he hposition.symm

end Rounds

/-- The callbacks of a phase are found under the identifiers of what it lists. -/
theorem callbacksFor_ids {acts : List (Act κ φ)} {found : List (String × κ)}
    (h : (callbacksFor t phase).Does (Machine.Serves d target) acts (.ok found)) :
    found.map Prod.fst = (d.listed t.record phase).map Listed.id := by
  obtain ⟨m, hm, hall⟩ := h.look_inv
  rw [hm.definition] at hall
  rcases findAll_does hall with ⟨occurrences, hfinds, -, hfound⟩ | ⟨error, -, hfound⟩
  · rw [Except.ok.inj hfound, ← hfinds.all, List.map_map, List.map_map]
    rfl
  · exact nomatch hfound

/-- Whether a book tells the outcome of a callback under its identifier. -/
def Progress.Keeps (book : Progress) (phase : Phase) (callId : String) : Outcome → Prop
  | .ok value => book.resolutions.find? phase callId = some value
  | .error reason => book.rejections.find? phase callId = some reason

/-- Values that are all the same one start and end with it. -/
theorem head_getLast_of_forall_eq {values : List Json} {value : Json} (hmem : value ∈ values)
    (hall : ∀ other ∈ values, other = value) : values.head? = some value ∧ values.getLast? = some value := by
  have hne := List.ne_nil_of_mem hmem
  rw [List.head?_eq_some_head hne, List.getLast?_eq_some_getLast hne]
  exact ⟨congrArg some (hall _ (List.head_mem hne)), congrArg some (hall _ (List.getLast_mem hne))⟩

/-- A book keeps an ending if there is no other of its identifier. -/
theorem Progress.Tells.keeps {book : Progress} {ended : List Ending} (h : book.Tells phase ended) {e : Ending}
    (he : e ∈ ended) (hown : ∀ other ∈ ended, other.id = e.id → other = e) :
    book.Keeps phase e.id e.outcome := by
  have hends : ∀ {g : Ending → Option Json} {value : Json}, g e = some value →
      (∀ other, other.id ≠ e.id → g other = none) →
      (ended.filterMap g).head? = some value ∧ (ended.filterMap g).getLast? = some value := by
    intro g value hg hothers
    refine head_getLast_of_forall_eq (List.mem_filterMap.2 ⟨e, he, hg⟩) fun v hv => ?_
    obtain ⟨other, ho, hother⟩ := List.mem_filterMap.1 hv
    by_cases hid : other.id = e.id
    · rw [hown other ho hid, hg] at hother
      exact (Option.some.inj hother).symm
    · rw [hothers other hid] at hother
      exact nomatch hother
  obtain ⟨position, callId, outcome⟩ := e
  cases outcome with
  | ok value =>
    have hlast := hends (g := Ending.value? callId) (if_pos rfl) fun other hid => if_neg hid
    exact (h.resolution callId).trans hlast.2
  | error reason =>
    have hfirst := hends (g := Ending.reason? callId) (if_pos rfl) fun other hid => if_neg hid
    exact (h.rejection callId).trans hfirst.1

end

/-- **Callbacks share identifiers only by their kind and name, unless a named hook poses as an inline one.** What the
phase of a compiled definition lists is found under its identifiers, in order. Two entries have the same identifier
exactly if they are of one kind and name, or one is a state hook that is called like the place of the other one,
which is inline. Exactly if the value that was compiled has no such name, entries that share an identifier are always
of one kind and name, and inline hooks have theirs for themselves. Then the book of a transition keeps the outcome of
each inline hook. -/
theorem identifiers_own_iff {κ φ : Type} {spec : Json} {inline : List (InlineHook κ)} {d : Definition κ}
    (h : Definition.compile spec inline = .ok d) (record : Record) (phase : Phase) :
    let listed := d.listed record phase
    let posed := Reading.Poses spec inline (fun state => (d.stateIndex? state).getD 0) record phase
    (∀ {target : String} {t : Transition} {acts : List (Act κ φ)} {found : List (String × κ)}, t.record = record →
        (callbacksFor t phase).Does (Machine.Serves d target) acts (.ok found) →
        found.map Prod.fst = listed.map Listed.id) ∧
      (∀ (i j : Nat) (a b : Listed κ), listed[i]? = some a → listed[j]? = some b → i ≠ j →
        (a.id = b.id ↔ a.Alike b ∨ a.Poses b ∨ b.Poses a)) ∧
      (Listed.ShareByName listed ↔ ¬ posed) ∧ (Listed.InlineApart listed ↔ ¬ posed) ∧
      (¬ posed → ∀ {target : String} {f : FutureId} {id : TransitionId} {t : Transition}
        {polls : List (List (Act κ φ))} {polled : Polled}, t.record = record →
        Polls d target f id t (.phase phase) polls polled →
        ∃ ending calls, Rounds d target id t phase polls ending calls ∧
          ∀ e ∈ ending.flatten, ∀ hook, listed[e.position]? = some hook → hook.inline?.isSome →
            e.id = hook.id ∧
              ∀ marks : List Mark, marks.filter (Mark.touches phase) =
                  (polls.flatten.filterMap (Act.mark? id)).filter (Mark.touches phase) →
                (Progress.fresh.markAll marks).Keeps phase e.id e.outcome) := by
  refine ⟨fun hrecord hfound => ?_, fun i j a b hi hj hne => Definition.id_eq_iff_of_listed hi hj hne,
    Definition.shareByName_iff h, Definition.inlineApart_iff h, ?_⟩
  · subst hrecord
    exact callbacksFor_ids hfound
  · intro hnone target f id t polls polled hrecord hpolls
    subst hrecord
    obtain ⟨ending, calls, stage?, hrounded⟩ := hpolls.rounded
    refine ⟨ending, calls, hrounded.rounds, fun e he hook hhook hinline => ?_⟩
    obtain ⟨listed, hlisted, hid⟩ := hrounded.rounds.listed_of_mem he
    obtain rfl := Option.some.inj (hhook.symm.trans hlisted)
    have hapart := (Definition.inlineApart_iff h).2 hnone
    refine ⟨hid.symm, fun marks hmarks => (hrounded.rounds.tells hmarks).keeps he fun other ho hsame => ?_⟩
    exact hrounded.rounds.eq_of_id_eq he ho hhook (fun j b hb hne => hapart _ j _ b hhook hb hne hinline) hsame

namespace Shelf

/-- A hook that is named like the place of the one after it. -/
def spec : Json := .object [
  ("states", .object [("initialState", .string "off"), ("off", .object [("willExit", .string "_inline:0-1_")])]),
  ("events", .object [("run", .object [("transition", .object [("off", .string "on")])])])]

def inline : List (InlineHook Unit) := [⟨"off", .willExit, ()⟩]

def record : Record := ⟨"run", "off", "on", .none, .ofFn fun _ => []⟩

def definition : Definition Unit :=
  ⟨"off", ["off", "on"].map (State.ofRecords [record]), [⟨"run", [record]⟩],
    [⟨"off", .willExit, .named "_inline:0-1_"⟩, ⟨"off", .willExit, .inline ()⟩]⟩

theorem compile_spec : Definition.compile spec inline = .ok definition := rfl

def transition : Transition := .fresh record []

def context : Context := ⟨"run", "off", "on", .willExit, []⟩

/-- What is done in a first poll. The named hook yields, and the inline one has its value. -/
def start : List (Act Unit Bool) := [
  .asked (.callback "_inline:0-1_") (some ()),
  .made (.note 0 .begin),
  .asked (.call () context) (.pending false),
  .asked (.call () context) (.value (.string "inline")),
  .asked (.poll false) (.yielding true),
  .made (.note 0 (.settle .willExit "state:_inline:0-1_" (.ok (.string "inline"))))]

/-- The calls that the first poll leaves. -/
def roster : Roster Bool :=
  ⟨[⟨"state:_inline:0-1_", .due (.pending true)⟩, ⟨"state:_inline:0-1_", .noted (.ok (.string "inline"))⟩],
    [0, 1], [], 0⟩

/-- What is done in a second poll. -/
def rest : List (Act Unit Bool) := [
  .asked (.poll true) (.settled (.ok (.string "named"))),
  .made (.note 0 (.settle .willExit "state:_inline:0-1_" (.ok (.string "named"))))]

def polls : List (List (Act Unit Bool)) :=
  [start ++ [.made (.setStage 0 (.waiting .willExit roster))], rest ++ [.made (.closeFuture 0)]]

theorem serves : (Machine.start definition "shelf" toString "off" 0 : Machine Unit Bool).Serves definition "shelf" :=
  ⟨rfl, rfl⟩

theorem start_does : (pollFrom 0 0 transition (.phase .willExit) .unpolled).Does
    (Machine.Serves definition "shelf") (start ++ [.made (.setStage 0 (.waiting .willExit roster))]) .pending :=
  .look serves <| .ask <| .change <| .ask <| .ask <| .ask <| .change <| .change <| .done _

theorem rest_does : (pollFrom 0 0 transition (.phase .willExit) (.waiting .willExit roster)).Does
    (Machine.Serves definition "shelf") (rest ++ [.made (.closeFuture 0)]) .finished :=
  .ask <| .change <| .change <| .done _

theorem polls_end : Polls definition "shelf" 0 0 transition (.phase .willExit) polls .finished :=
  .poll (.poll .unpolled start_does) rest_does

/-- The book after the polls. -/
def book : Progress := Progress.fresh.markAll (polls.flatten.filterMap (Act.mark? 0))

theorem poses : Reading.Poses spec inline (fun state => (definition.stateIndex? state).getD 0) record .willExit :=
  ⟨"off", rfl, 0, by decide, by decide⟩

end Shelf

/-- On the shelf the named hook and the inline one share their identifier, and the value of the named one, which comes
later, takes the place of the other. -/
theorem identifiers_own_iff_shelf :
    ¬ Listed.ShareByName (Shelf.definition.listed Shelf.record .willExit) ∧
      ¬ Listed.InlineApart (Shelf.definition.listed Shelf.record .willExit) ∧
      Polls Shelf.definition "shelf" 0 0 Shelf.transition (.phase .willExit) Shelf.polls .finished ∧
      (Shelf.definition.listed Shelf.record .willExit)[1]? = some (.inlineHook 0 1 ()) ∧
      Act.asked (.call () Shelf.context) (.value (.string "inline")) ∈ Shelf.start ∧
      Shelf.book.Keeps .willExit (Listed.id (.inlineHook 0 1 ())) (.ok (.string "named")) ∧
      ¬ Shelf.book.Keeps .willExit (Listed.id (.inlineHook 0 1 ())) (.ok (.string "inline")) := by
  obtain ⟨-, -, hshare, hapart, -⟩ := identifiers_own_iff (φ := Bool) Shelf.compile_spec Shelf.record .willExit
  have hkept : Shelf.book.Keeps .willExit "state:_inline:0-1_" (.ok (.string "named")) := rfl
  refine ⟨fun h => hshare.1 h Shelf.poses, fun h => hapart.1 h Shelf.poses, Shelf.polls_end, rfl, ?_, hkept, ?_⟩
  · exact .tail _ (.tail _ (.tail _ (.head _)))
  · intro hlost
    exact absurd (Json.string.inj (Option.some.inj (Eq.trans (Eq.symm hkept) hlost))) (by decide)

end StateEngine
