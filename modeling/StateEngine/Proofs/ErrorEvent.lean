import Mathlib.Data.List.Basic
import Mathlib.Data.List.Flatten
import StateEngine.Machine.Build
import StateEngine.Proofs.Acceptance
import StateEngine.Proofs.Hooks

/-!
# The default error event

A value with events but no error event gets one, which leads from every state to the failed one. So there
may be one more state, and every event that leads from all states has one more to lead from. Nothing else
changes: a value that compiles still does, and no event selects another record than before.

* `Members.lookup_change`, `Reading.member_change`: the members of an object of which one was changed.
* `Reading.LacksError`: the values that get the event, and what they say with it, part by part.
* `Definition.recordsFor_in`: the records from a state of a definition, as its value says them.
* `compile_withErrorEvent`: **a value that compiles still does so with the default error event**.
* `Definition.recordsFor_errorEvent`: **the records of the default error event**.
* `errorEvent_conservative`: **the default error event is a conservative extension**.
-/

namespace StateEngine

open Reading

variable {κ φ : Type}

/-! ## Members that are changed -/

theorem Members.change_cons (k : String) (value : Json) (rest : Members) (key : String) (f : Json → Json) :
    Members.change ((k, value) :: rest) key f =
      (k, if k = key then f value else value) :: Members.change rest key f := by
  by_cases hk : k = key <;> simp [Members.change, hk]

theorem Members.lookup_change (members : Members) (key : String) (f : Json → Json) (k : String) :
    (Members.change members key f).lookup k =
      if k = key then (members.lookup k).map f else members.lookup k := by
  induction members with
  | nil => simp [Members.change]
  | cons member rest ih =>
    obtain ⟨k', value⟩ := member
    rw [Members.change_cons, List.lookup_cons, List.lookup_cons]
    by_cases hk : k = k'
    · subst hk
      by_cases hkey : k = key <;> simp [hkey]
    · rw [beq_eq_false_iff_ne.2 hk]
      exact ih

/-- A member that was not changed is there with its own value. -/
theorem Members.mem_of_change {members : Members} {key : String} {f : Json → Json}
    {entry : String × Json} (h : entry ∈ members.change key f) (hkey : entry.1 ≠ key) :
    entry ∈ members := by
  obtain ⟨⟨k, value⟩, hmem, rfl⟩ := List.mem_map.1 h
  dsimp only at hkey ⊢
  split at hkey
  · rename_i hk
    exact absurd hk hkey
  · rename_i hk
    rw [if_neg hk]
    exact hmem

/-- What is picked by keys that were not changed is as it was. -/
theorem Members.filter_change (members : Members) {key : String} (f : Json → Json) {p : String → Bool}
    (hp : p key = false) : (Members.change members key f).filter (fun entry => p entry.1) =
      members.filter fun entry => p entry.1 := by
  induction members with
  | nil => rfl
  | cons member rest ih =>
    obtain ⟨k, value⟩ := member
    rw [Members.change_cons, List.filter_cons, List.filter_cons, ih]
    by_cases hk : k = key
    · simp [hk, hp]
    · simp [hk]

namespace Reading

theorem member_change_ne (members : Members) {key k : String} (f : Json → Json) (hk : k ≠ key) :
    member (.object (Members.change members key f)) k = member (.object members) k := by
  change ((Members.change members key f).lookup k).getD .null = _
  rw [Members.lookup_change, if_neg hk]
  rfl

theorem member_change {members : Members} {key : String} {f : Json → Json}
    (h : f .null = .null ∨ key ∈ members.map (·.1)) :
    member (.object (Members.change members key f)) key = f (member (.object members) key) := by
  change ((Members.change members key f).lookup key).getD .null = f ((members.lookup key).getD .null)
  rw [Members.lookup_change, if_pos rfl]
  cases hk : members.lookup key with
  | some value => rfl
  | none =>
    refine (h.resolve_right fun hkey => ?_).symm
    obtain ⟨entry, hentry, rfl⟩ := List.mem_map.1 hkey
    exact absurd (List.lookup_eq_none_iff.1 hk entry hentry) (by simp)

/-! ## Values that get the event -/

/-- A list of names with the failed state in it, as the last one unless it was there. -/
def withFailed (names : List String) : List String :=
  names ++ if failedState ∈ names then [] else [failedState]

theorem mem_withFailed {names : List String} {name : String} :
    name ∈ withFailed names ↔ name ∈ names ∨ name = failedState := by
  unfold withFailed
  by_cases h : failedState ∈ names
  · rw [if_pos h, List.append_nil]
    exact ⟨.inl, fun hn => hn.elim id fun hn => hn ▸ h⟩
  · rw [if_neg h, List.mem_append, List.mem_singleton]

/-- The failed state is the last to be listed, or was listed before. -/
theorem eraseDups_withFailed (names : List String) :
    (withFailed names).eraseDups = withFailed names.eraseDups := by
  unfold withFailed
  simp only [List.mem_eraseDups]
  by_cases h : failedState ∈ names
  · simp only [if_pos h, List.append_nil]
  · rw [if_neg h, List.eraseDups_append]
    simp [List.removeAll, h, List.eraseDups_cons]

theorem eraseDups_concat_failed (names : List String) :
    (names ++ [failedState]).eraseDups = withFailed names.eraseDups := by
  rw [← eraseDups_withFailed]
  unfold withFailed
  by_cases h : failedState ∈ names
  · rw [if_pos h, List.append_nil, List.eraseDups_append]
    simp [List.removeAll, h]
  · rw [if_neg h]

theorem allowFailed_ofStrings (names : List String) :
    allowFailed (.ofStrings names) = .ofStrings (withFailed names) := by
  have hany : (names.map Json.string).any (·.isString failedState) = decide (failedState ∈ names) := by
    rw [List.any_map, Bool.eq_iff_iff]
    simp [Json.isString, Json.string?]
  unfold Json.ofStrings withFailed allowFailed
  dsimp only
  rw [hany]
  by_cases h : failedState ∈ names <;> simp [h]

theorem allowFailed_array (items : List Json) : ∃ allowed, allowFailed (.array items) = .array allowed := by
  unfold allowFailed
  dsimp only
  split
  · exact ⟨_, rfl⟩
  · exact ⟨_, rfl⟩

/-- Whether a value has events, and no error event among them. -/
structure LacksError (spec : Json) : Prop where
  nonempty : events spec ≠ []
  lacks : errorEvent ∉ (events spec).map (·.1)

variable {spec : Json}

/-- The events of a value, if it has any, are those of the object under their key. -/
theorem member_events (h : events spec ≠ []) : member spec "events" = .object (events spec) := by
  unfold events at h ⊢
  cases hm : member spec "events" with
  | object members => rfl
  | _ => exact absurd (by rw [hm]; rfl) h

theorem LacksError.eq (h : LacksError spec) : ∃ root, spec = .object root ∧
    "events" ∈ root.map (·.1) ∧
      withErrorEvent spec = .object (Members.change
        (Members.change root "events" fun _ => .object (events spec ++ [(errorEvent, defaultErrorEvent)]))
        "states" allowFailedIn) := by
  have hmember := member_events h.nonempty
  cases spec with
  | object root =>
    have hlookup : root.lookup "events" = some (.object (events (.object root))) := by
      cases hl : root.lookup "events" with
      | some value =>
        rw [member_object, hl] at hmember
        exact congrArg some hmember
      | none =>
        rw [member_object, hl] at hmember
        exact nomatch hmember
    have hadd : Members.addErrorEvent? (events (.object root)) =
        some (events (.object root) ++ [(errorEvent, defaultErrorEvent)]) := by
      unfold Members.addErrorEvent?
      rw [if_neg]
      simp [h.nonempty, h.lacks]
    refine ⟨root, rfl, ?_, ?_⟩
    · obtain ⟨l₁, l₂, hroot, -⟩ := List.lookup_eq_some_iff.1 hlookup
      rw [hroot]
      simp
    · unfold withErrorEvent
      dsimp only
      rw [hlookup, Option.bind_some, show (Json.object (events (.object root))).members? = some _ from rfl,
        Option.bind_some, hadd]
  | _ => cases hmember

namespace LacksError

theorem isObject (h : LacksError spec) : IsObject (withErrorEvent spec) := by
  obtain ⟨root, -, -, heq⟩ := h.eq
  exact ⟨_, heq⟩

theorem member_events (h : LacksError spec) : member (withErrorEvent spec) "events" =
    .object (events spec ++ [(errorEvent, defaultErrorEvent)]) := by
  obtain ⟨root, -, hkey, heq⟩ := h.eq
  rw [heq, member_change_ne _ _ (by decide), member_change (.inr hkey)]

/-- The error event is the last one. -/
theorem events_eq (h : LacksError spec) :
    events (withErrorEvent spec) = events spec ++ [(errorEvent, defaultErrorEvent)] := by
  unfold events
  rw [h.member_events]
  rfl

/-- The other events are as they were. -/
theorem event_eq (h : LacksError spec) {name : String} (hname : name ≠ errorEvent) :
    event (withErrorEvent spec) name = event spec name := by
  change ((events (withErrorEvent spec)).lookup name).getD .null = ((events spec).lookup name).getD .null
  rw [h.events_eq, List.lookup_append, List.lookup_cons, beq_eq_false_iff_ne.2 hname]
  simp

theorem event_error (h : LacksError spec) : event (withErrorEvent spec) errorEvent = defaultErrorEvent := by
  change ((events (withErrorEvent spec)).lookup errorEvent).getD .null = _
  have hnone : (events spec).lookup errorEvent = none := by
    refine List.lookup_eq_none_iff.2 fun entry hentry => bne_iff_ne.2 fun heq => h.lacks ?_
    exact heq ▸ List.mem_map_of_mem hentry
  rw [h.events_eq, List.lookup_append, hnone, List.lookup_cons, beq_self_eq_true]
  rfl

theorem member_states (h : LacksError spec) :
    member (withErrorEvent spec) "states" = allowFailedIn (member spec "states") := by
  obtain ⟨root, rfl, -, heq⟩ := h.eq
  rw [heq, member_change (.inl rfl), member_change_ne _ _ (by decide)]

/-- The object of states keeps its members, but for the lists of allowed states. -/
theorem states_eq (h : LacksError spec) : states (withErrorEvent spec) =
    Members.change (Members.change (states spec) "knownStates" allowFailed) "explicitStates" allowFailed := by
  unfold states
  rw [h.member_states]
  cases member spec "states" <;> rfl

theorem mem_states (h : LacksError spec) {entry : String × Json} (hentry : entry ∈ states (withErrorEvent spec))
    (hkey : entry.1 ∉ stateKeys) : entry ∈ states spec := by
  rw [h.states_eq] at hentry
  refine Members.mem_of_change (Members.mem_of_change hentry fun he => hkey ?_) fun he => hkey ?_
  · rw [he]
    decide
  · rw [he]
    decide

end LacksError

/-- A member of the object of states. -/
theorem member_allowFailedIn (value : Json) {key : String} (hkey : key ∉ ["knownStates", "explicitStates"]) :
    member (allowFailedIn value) key = member value key := by
  cases value with
  | object members =>
    unfold allowFailedIn
    dsimp only
    rw [member_change_ne _ _ fun he => hkey (by simp [he]), member_change_ne _ _ fun he => hkey (by simp [he])]
  | _ => rfl

/-- Both lists of allowed states take the failed state in. -/
theorem first_allowFailedIn (value : Json) :
    first (allowFailedIn value) "knownStates" "explicitStates" =
      allowFailed (first value "knownStates" "explicitStates") := by
  have hmember : ∀ key ∈ ["knownStates", "explicitStates"],
      member (allowFailedIn value) key = allowFailed (member value key) := by
    intro key hkey
    cases value with
    | object members =>
      unfold allowFailedIn
      dsimp only
      rcases List.mem_cons.1 hkey with rfl | hkey
      · rw [member_change_ne _ _ (by decide), member_change (.inl rfl)]
      · rw [List.mem_singleton.1 hkey, member_change (.inl rfl), member_change_ne _ _ (by decide)]
    | _ => rfl
  unfold first
  rw [hmember _ (by decide), hmember _ (by decide)]
  cases member value "knownStates" with
  | array items =>
    obtain ⟨allowed, hallowed⟩ := allowFailed_array items
    dsimp only
    rw [hallowed]
  | _ => rfl

namespace LacksError
theorem initialState_eq (h : LacksError spec) : initialState (withErrorEvent spec) = initialState spec := by
  unfold initialState
  rw [h.member_states, member_allowFailedIn _ (by decide)]

theorem allowList_eq (h : LacksError spec) : allowList (withErrorEvent spec) = allowFailed (allowList spec) := by
  unfold allowList
  rw [h.member_states, first_allowFailedIn]

/-- **The failed state may be the only one that is mentioned anew.** -/
theorem mentions_iff (h : LacksError spec) {state : String} :
    Mentions (withErrorEvent spec) state ↔ Mentions spec state ∨ state = failedState := by
  unfold Mentions
  rw [h.initialState_eq, h.events_eq]
  -- of what the event says, only its target is the name of a state
  have herror : (∃ object ∈ objects defaultErrorEvent, state ∈ entries object ∨ state = target object) ↔
      state = everyState ∨ state = failedState := by
    rw [show objects defaultErrorEvent = [.object [(everyState, .string failedState)]] from rfl]
    simp only [List.mem_singleton, exists_eq_left]
    rw [show entries (.object [(everyState, .string failedState)]) = [everyState] from rfl,
      show target (.object [(everyState, .string failedState)]) = failedState from rfl, List.mem_singleton]
  simp only [List.mem_append, List.mem_singleton, or_and_right, exists_or, exists_eq_left, herror]
  constructor
  · rintro (hinitial | ⟨hevery, hsame, hentry | hfailed⟩)
    · exact .inl (.inl hinitial)
    · exact .inl (.inr ⟨hevery, hsame, hentry⟩)
    · exact .inr (hfailed.resolve_left hevery)
  · rintro ((hinitial | ⟨hevery, hsame, hentry⟩) | rfl)
    · exact .inl hinitial
    · exact .inr ⟨hevery, hsame, .inl hentry⟩
    · exact .inr ⟨by decide, by decide, .inr (.inr rfl)⟩

/-- The hooks of states are as they were. -/
theorem stateHooks_eq (h : LacksError spec) (state : String) (phase : Phase) :
    stateHooks (withErrorEvent spec) state phase = stateHooks spec state phase := by
  have hfilter : (states (withErrorEvent spec)).filter
        (fun entry => entry.1 = state ∧ entry.1 ∉ stateKeys) =
      (states spec).filter fun entry => entry.1 = state ∧ entry.1 ∉ stateKeys := by
    -- the members that change are lists, which are no states
    have hlist : ∀ key ∈ stateKeys, decide (key = state ∧ key ∉ stateKeys) = false :=
      fun key hkey => decide_eq_false fun h => h.2 hkey
    rw [h.states_eq,
      Members.filter_change (p := fun key => decide (key = state ∧ key ∉ stateKeys)) _ _
        (hlist "explicitStates" (by decide)),
      Members.filter_change (p := fun key => decide (key = state ∧ key ∉ stateKeys)) _ _
        (hlist "knownStates" (by decide))]
  exact congrArg (List.flatMap fun entry => callbacks entry.2 phase) hfilter

end LacksError

/-! ## The records of the event -/

/-- The record that leads from a state to the failed one. -/
def failure (state : String) : Record := ⟨errorEvent, state, failedState, .none, .ofFn fun _ => []⟩

theorem recordsFrom_errorEvent (state : String) :
    recordsFrom errorEvent defaultErrorEvent state = [failure state] := by
  have hrecord : record errorEvent defaultErrorEvent (.object [(everyState, .string failedState)]) state =
      failure state := rfl
  unfold recordsFrom
  rw [show objects defaultErrorEvent = [.object [(everyState, .string failedState)]] from rfl,
    List.flatMap_singleton,
    show entries (.object [(everyState, .string failedState)]) = ["$all"] from rfl,
    hrecord]
  simp

theorem accepts_errorEvent : AcceptsEvent defaultErrorEvent where
  isObject := ⟨_, rfl⟩
  oneKey := iff_of_false nofun fun h => h rfl
  nonempty := List.cons_ne_nil _ _
  transitions := by
    intro object hobject
    obtain rfl := List.mem_singleton.1 hobject
    have hfree : freeKeys (.object [(everyState, .string failedState)]) = [everyState] := rfl
    exact ⟨⟨_, rfl⟩, .free hfree ⟨failedState, rfl⟩ rfl rfl, by decide, .inl rfl, .inl rfl,
      fun phase => .inl (by cases phase <;> rfl)⟩
  names := ⟨.inl rfl, .inl rfl, fun phase => .inl (by cases phase <;> rfl)⟩

/-- An event that mentions a state nowhere has no more ways to leave it than to leave any other one. -/
theorem recordsFrom_sublist {name : String} {event : Json} {state other : String}
    (h : ∀ object ∈ objects event, state ∉ entries object) :
    ((recordsFrom name event state).map (·.guards)).Sublist
      ((recordsFrom name event other).map (·.guards)) := by
  unfold recordsFrom
  rw [List.map_flatMap, List.map_flatMap]
  refine List.Sublist.flatMap_right _ fun object hobject => ?_
  rw [List.map_map, List.map_map]
  refine List.Sublist.map _ ?_
  -- an entry that means the state stands for every state
  have hmeans : ∀ entry ∈ entries object, (entry = state ∨ entry = "$all") → entry = "$all" :=
    fun entry hentry hcases => hcases.resolve_left fun he => h object hobject (he ▸ hentry)
  rw [List.filter_congr (q := fun entry => decide (entry = "$all")) fun entry hentry => ?_]
  · exact List.monotone_filter_right _ fun entry he => by simpa using .inr (of_decide_eq_true he)
  · exact decide_eq_decide.2 ⟨hmeans entry hentry, .inr⟩

end Reading

/-! ## What was compiled -/

/-- The states of a declaration are those that it lists, or those that it mentions. -/
theorem Declaration.stateNames_eq {declaration : Declaration} {known : List String}
    (h : declaration.stateNames = .ok known) :
    known = declaration.allowed.getD declaration.mentioned := by
  unfold stateNames at h
  cases hallowed : declaration.allowed with
  | none =>
    rw [hallowed] at h
    exact (Except.ok.inj h).symm
  | some allowed =>
    rw [hallowed] at h
    dsimp only at h
    split at h
    · exact nomatch h
    · split at h
      · exact nomatch h
      · exact (Except.ok.inj h).symm

section

variable {spec : Json} {inline : List (InlineHook κ)} {definition : Definition κ}

theorem Definition.initialState_compile (h : Definition.compile spec inline = .ok definition) :
    definition.initialState = Reading.initialState spec := by
  obtain ⟨declaration, hread, -, hinitial, -⟩ := Definition.compile_eq_ok h
  rw [hinitial, Declaration.initial_eq_ok hread]

theorem Definition.eventNames_compile (h : Definition.compile spec inline = .ok definition) :
    definition.eventNames = (Reading.events spec).map (·.1) := by
  obtain ⟨declaration, hread, -, -, hevents⟩ := Definition.compile_eq_ok h
  unfold eventNames
  rw [hevents, Declaration.events_eq_ok hread, List.map_map, List.map_map]
  rfl

/-- The records of an event from a state of the definition, as its value says them. -/
theorem Definition.recordsFor_in (h : Definition.compile spec inline = .ok definition) (name : String)
    {state : String} (hstate : state ∈ definition.stateNames) :
    definition.recordsFor name (some state) = recordsFrom name (Reading.event spec name) state := by
  rw [Definition.recordsFor_compile h]
  exact filter_objects (Definition.compile_states h).1 hstate name (Reading.event spec name)

/-! ## Compiling with the event -/

/-- What is read has the error event as its last one, and the failed state among those it allows. -/
theorem Declaration.read_withErrorEvent (hl : LacksError spec) {declaration extended : Declaration}
    (h : Declaration.read spec = .ok declaration)
    (h' : Declaration.read (withErrorEvent spec) = .ok extended) :
    extended.mentioned = withFailed declaration.mentioned ∧
      extended.allowed = declaration.allowed.map withFailed := by
  constructor
  · -- the event comes last and mentions the failed state alone
    have herror : (declared errorEvent defaultErrorEvent).mentioned = [failedState] := rfl
    have hevents : extended.events = declaration.events ++ [declared errorEvent defaultErrorEvent] := by
      rw [Declaration.events_eq_ok h', hl.events_eq, List.map_append, ← Declaration.events_eq_ok h]
      rfl
    unfold mentioned
    rw [Declaration.initial_eq_ok h', hl.initialState_eq, ← Declaration.initial_eq_ok h, hevents,
      List.flatMap_append, List.flatMap_singleton, herror, ← List.cons_append, eraseDups_concat_failed]
  · obtain ⟨root, -, hroot, -, hstates, -, -, hallowed, -⟩ := Declaration.read_iff.1 h
    obtain ⟨root', -, hroot', -, hstates', -, -, hallowed', -⟩ := Declaration.read_iff.1 h'
    -- both declarations have their lists from the same member, which takes the failed state in
    have hlist := Declaration.readAllowed_eq_ok.1 hallowed
    have hlist' := Declaration.readAllowed_eq_ok.1 hallowed'
    rw [first_readStates hstates, ← hroot] at hlist
    rw [first_readStates hstates', ← hroot'] at hlist'
    change (allowList spec = .null ∧ _) ∨ (∃ names, allowList spec = .ofStrings names ∧ _) at hlist
    change (allowList (withErrorEvent spec) = .null ∧ _) ∨
      (∃ names, allowList (withErrorEvent spec) = .ofStrings names ∧ _) at hlist'
    rw [hl.allowList_eq] at hlist'
    rcases hlist with ⟨hnull, hnone⟩ | ⟨names, hnames, hsome⟩
    · rw [hnull] at hlist'
      rcases hlist' with ⟨-, hnone'⟩ | ⟨names, hnames, -⟩
      · rw [hnone, hnone']
        rfl
      · exact nomatch hnames
    · rw [hnames, allowFailed_ofStrings] at hlist'
      rcases hlist' with ⟨hnull, -⟩ | ⟨names', hnames', hsome'⟩
      · exact nomatch hnull
      · obtain rfl := Json.ofStrings_inj.1 hnames'
        rw [hsome, hsome', Option.map_some, eraseDups_withFailed]

/-- The conditions under which a value can be read hold with the error event as well. -/
theorem Declaration.read_withErrorEvent_succeeds (hl : LacksError spec)
    (h : Succeeds (Declaration.read spec)) : Succeeds (Declaration.read (withErrorEvent spec)) := by
  obtain ⟨-, -, hstates, hinitial, hallowed, hevents⟩ := declaration_succeeds.1 h
  have hmember : ∃ entry others, member (withErrorEvent spec) "events" = .object (entry :: others) := by
    obtain ⟨entry, others, hevents⟩ := List.exists_cons_of_ne_nil hl.nonempty
    rw [hl.member_events, hevents]
    exact ⟨entry, _, rfl⟩
  -- in turn: the object of states, the initial state, the list of allowed states, and the events
  refine declaration_succeeds.2 ⟨hl.isObject, hmember, ?_, ?_, ?_, ?_⟩
  · rw [hl.member_states]
    rcases hstates with hnull | ⟨members, hobject⟩
    · exact .inl (by rw [hnull]; rfl)
    · exact .inr ⟨_, by rw [hobject]; rfl⟩
  · rw [hl.member_states, member_allowFailedIn _ (by decide)]
    exact hinitial
  · rw [hl.allowList_eq]
    rcases hallowed with hnull | ⟨names, hnames⟩
    · exact .inl (by rw [hnull]; rfl)
    · exact .inr ⟨_, by rw [hnames, allowFailed_ofStrings]⟩
  · rw [hl.events_eq]
    intro entry hentry
    rcases List.mem_append.1 hentry with hentry | hentry
    · exact hevents entry hentry
    · rw [List.mem_singleton.1 hentry]
      exact accepts_errorEvent

/-- **A value that compiles still does so with the default error event.** -/
theorem compile_withErrorEvent (hl : LacksError spec)
    (h : Definition.compile spec inline = .ok definition) :
    ∃ extended, Definition.compile (withErrorEvent spec) inline = .ok extended := by
  obtain ⟨declaration, hread, hcompile⟩ := except_bind_eq_ok.1 h
  obtain ⟨hallowed, hclash, hhooks, hinline⟩ := (compile_declaration_succeeds hread).1 ⟨_, hcompile⟩
  obtain ⟨extended, hread'⟩ := Declaration.read_withErrorEvent_succeeds hl ⟨_, hread⟩
  refine succeeds_bind.2 ⟨extended, hread', (compile_declaration_succeeds hread').2 ⟨?_, ?_, ?_, ?_⟩⟩
  · -- the list of allowed states takes in just what is mentioned anew
    intro names hnames state
    rw [hl.mentions_iff]
    obtain ⟨-, -, -, -, hlist, -⟩ := declaration_succeeds.1 ⟨_, hread⟩
    rw [hl.allowList_eq] at hnames
    rcases hlist with hnull | ⟨listed, hlisted⟩
    · rw [hnull] at hnames
      exact nomatch hnames
    · rw [hlisted, allowFailed_ofStrings] at hnames
      rw [← Json.ofStrings_inj.1 hnames, mem_withFailed, hallowed listed hlisted state]
  · -- no event has two records without guards from one state
    intro entry hentry state hstate
    rw [hl.events_eq] at hentry
    rcases List.mem_append.1 hentry with hentry | hentry
    · by_cases hold : Mentions spec state
      · exact hclash entry hentry state hold
      · -- the failed state is new: there is no more to clash in it than in the initial state
        have hfailed := (hl.mentions_iff.1 hstate).resolve_left hold
        have hnowhere : ∀ object ∈ objects entry.2, state ∉ entries object := by
          intro object hobject hmem
          refine hold (.inr ⟨?_, ?_, entry, hentry, object, hobject, .inl hmem⟩) <;>
            · rw [hfailed]
              decide
        have hsublist : ((recordsFrom entry.1 entry.2 state).map (·.guards)).Sublist
            ((recordsFrom entry.1 entry.2 (Reading.initialState spec)).map (·.guards)) :=
          recordsFrom_sublist hnowhere
        have hle := hsublist.countP_le (p := fun guards => guards = ⟨none, none⟩)
        rw [List.countP_map, List.countP_map, List.countP_eq_length_filter,
          List.countP_eq_length_filter] at hle
        exact Nat.le_trans hle (hclash entry hentry _ (.inl rfl))
    · rw [List.mem_singleton.1 hentry, recordsFrom_errorEvent]
      exact List.length_filter_le ..
  · -- hooks hang on states that were mentioned before
    intro entry hentry hkey hnull
    obtain ⟨haccepts, hmentions⟩ := hhooks entry (hl.mem_states hentry hkey) hkey hnull
    exact ⟨haccepts, hl.mentions_iff.2 (.inl hmentions)⟩
  · intro hook hhook
    obtain ⟨hphase, hmentions⟩ := hinline hook hhook
    exact ⟨hphase, hl.mentions_iff.2 (.inl hmentions)⟩

theorem Definition.stateNames_withErrorEvent (hl : LacksError spec) {extended : Definition κ}
    (h : Definition.compile spec inline = .ok definition)
    (h' : Definition.compile (withErrorEvent spec) inline = .ok extended) :
    extended.stateNames = withFailed definition.stateNames := by
  obtain ⟨declaration, hread, hnames, -, -⟩ := Definition.compile_eq_ok h
  obtain ⟨declaration', hread', hnames', -, -⟩ := Definition.compile_eq_ok h'
  obtain ⟨hmentioned, hallowed⟩ := Declaration.read_withErrorEvent hl hread hread'
  rw [Declaration.stateNames_eq hnames, Declaration.stateNames_eq hnames', hmentioned, hallowed]
  cases declaration.allowed <;> rfl

/-- **The records of the default error event**: from each state one, to the failed state. -/
theorem Definition.recordsFor_errorEvent (hl : LacksError spec)
    (h : Definition.compile (withErrorEvent spec) inline = .ok definition) {state : String}
    (hstate : state ∈ definition.stateNames) :
    definition.recordsFor errorEvent (some state) = [failure state] := by
  rw [Definition.recordsFor_in h errorEvent hstate, hl.event_error, recordsFrom_errorEvent]

/-! ## The definition that is extended -/

/-- **Whether a definition is another one with the default error event**: that event is its last one, the
failed state may be new and is the last one then, and all that could be asked before has the same answer. -/
structure Definition.ExtendsByError (extended definition : Definition κ) : Prop where
  initialState_eq : extended.initialState = definition.initialState
  eventNames_eq : extended.eventNames = definition.eventNames ++ [errorEvent]
  stateNames_eq : extended.stateNames =
    definition.stateNames ++ if failedState ∈ definition.stateNames then [] else [failedState]
  recordsFor_eq : ∀ event ∈ definition.eventNames, ∀ state ∈ definition.stateNames,
    extended.recordsFor event (some state) = definition.recordsFor event (some state)
  failures : ∀ state ∈ extended.stateNames,
    extended.recordsFor errorEvent (some state) = [failure state] ∧ (failure state).isGuarded = false
  hooksOf_eq : ∀ state, ∀ phase ∈ Phase.hooks, extended.hooksOf state phase = definition.hooksOf state phase

theorem Definition.extendsByError (hl : LacksError spec) {extended : Definition κ}
    (h : Definition.compile spec inline = .ok definition)
    (h' : Definition.compile (withErrorEvent spec) inline = .ok extended) :
    extended.ExtendsByError definition where
  initialState_eq := by
    rw [Definition.initialState_compile h, Definition.initialState_compile h', hl.initialState_eq]
  eventNames_eq := by
    rw [Definition.eventNames_compile h, Definition.eventNames_compile h', hl.events_eq, List.map_append]
    rfl
  stateNames_eq := Definition.stateNames_withErrorEvent hl h h'
  recordsFor_eq event hevent state hstate := by
    have hstate' : state ∈ extended.stateNames := by
      rw [Definition.stateNames_withErrorEvent hl h h', mem_withFailed]
      exact .inl hstate
    have hname : event ≠ errorEvent := by
      rintro rfl
      rw [Definition.eventNames_compile h] at hevent
      exact hl.lacks hevent
    rw [Definition.recordsFor_in h event hstate, Definition.recordsFor_in h' event hstate', hl.event_eq hname]
  failures state hstate := ⟨Definition.recordsFor_errorEvent hl h' hstate, rfl⟩
  hooksOf_eq state phase hphase := by
    rw [Definition.hooksOf_compile h state hphase, Definition.hooksOf_compile h' state hphase,
      hl.stateHooks_eq]

/-- A value that compiles has events. -/
theorem events_ne_nil (h : Definition.compile spec inline = .ok definition) : events spec ≠ [] := by
  obtain ⟨declaration, hread, -⟩ := except_bind_eq_ok.1 h
  obtain ⟨-, ⟨entry, others, hmember⟩, -⟩ := declaration_succeeds.1 ⟨_, hread⟩
  unfold events
  rw [hmember]
  exact List.cons_ne_nil _ _

/-- A value without events is left alone. -/
theorem withErrorEvent_of_nil (h : events spec = []) : withErrorEvent spec = spec := by
  unfold withErrorEvent
  cases spec with
  | object root =>
    dsimp only
    cases hl : root.lookup "events" with
    | none => rfl
    | some value =>
      cases value with
      | object members =>
        have hnil : members = [] := by
          unfold events at h
          rwa [member_object, hl] at h
        rw [hnil]
        rfl
      | _ => rfl
  | _ => rfl

/-- **A machine has the default error event** if the value that it was built from has none of its own. -/
theorem Reading.LacksError.of_compile (hlacks : errorEvent ∉ (events spec).map (·.1))
    (h : Definition.compile (withErrorEvent spec) inline = .ok definition) : LacksError spec := by
  refine ⟨fun hnil => ?_, hlacks⟩
  rw [withErrorEvent_of_nil hnil] at h
  exact events_ne_nil h hnil

/-- A value that has an error event is left alone. -/
theorem withErrorEvent_eq_self (h : errorEvent ∈ (events spec).map (·.1)) : withErrorEvent spec = spec := by
  have hmember := member_events fun hnil => by rw [hnil] at h; exact nomatch h
  unfold withErrorEvent
  cases spec with
  | object root =>
    dsimp only
    cases hl : root.lookup "events" with
    | none => rfl
    | some value =>
      have hvalue : value = .object (events (.object root)) := by
        rwa [member_object, hl] at hmember
      have hnone : Members.addErrorEvent? (events (.object root)) = none := by
        unfold Members.addErrorEvent?
        rw [if_pos]
        simp only [Bool.or_eq_true, List.contains_iff_mem]
        exact .inr h
      rw [hvalue, Option.bind_some, show (Json.object (events (.object root))).members? = some _ from rfl,
        Option.bind_some, hnone]
  | _ => rfl

end

/-- **The default error event is a conservative extension.** If a value without an error event compiles,
the machine is built as well, it starts in the same state, and its definition is that of the value with the
event added. For a value with an error event of its own, a machine is built just from the definition of the
value as it is. -/
theorem errorEvent_conservative (spec : Json) (inline : List (InlineHook κ)) (targetName : String)
    (idText : TransitionId → String) (listeners : Nat) :
    (errorEvent ∉ (events spec).map (·.1) → ∀ definition, Definition.compile spec inline = .ok definition →
        ∃ extended, (Machine.build spec inline targetName idText none listeners :
              Except BuildError (Machine κ φ)) =
            .ok (.start extended targetName idText definition.initialState listeners) ∧
          extended.ExtendsByError definition) ∧
      (errorEvent ∈ (events spec).map (·.1) →
        (∀ definition, Definition.compile spec inline = .ok definition →
          (Machine.build spec inline targetName idText none listeners : Except BuildError (Machine κ φ)) =
            .ok (.start definition targetName idText definition.initialState listeners)) ∧
        ∀ initialState (m : Machine κ φ),
          Machine.build spec inline targetName idText initialState listeners = .ok m →
          Definition.compile spec inline = .ok m.definition) := by
  refine ⟨fun hlacks definition h => ?_, fun hhas => ⟨fun definition h => ?_, fun initialState m h => ?_⟩⟩
  · have hl : LacksError spec := ⟨events_ne_nil h, hlacks⟩
    obtain ⟨extended, h'⟩ := compile_withErrorEvent hl h
    have hextends := Definition.extendsByError hl h h'
    refine ⟨extended, ?_, hextends⟩
    unfold Machine.build
    rw [h', ← hextends.initialState_eq]
    rfl
  · unfold Machine.build
    rw [withErrorEvent_eq_self hhas, h]
    rfl
  · have hcompile := Machine.compile_of_build h
    rwa [withErrorEvent_eq_self hhas] at hcompile

namespace Door

/-- A door that lists its states, and that the wind may slam from all of them. -/
def spec : Json := .object [
  ("states", .object [("initialState", .string "shut"),
    ("explicitStates", .array [.string "open", .string "shut"])]),
  ("events", .object [
    ("open", .object [("transition", .object [("shut", .string "open")])]),
    ("slam", .object [("transitions", .array [
      .object [(everyState, .string "shut"), ("guard", .string "windy")],
      .object [("open", .string sameState)]])])])]

def records : List Record :=
  [⟨"slam", "open", "shut", ⟨some "windy", none⟩, .ofFn fun _ => []⟩,
    ⟨"slam", "shut", "shut", ⟨some "windy", none⟩, .ofFn fun _ => []⟩,
    ⟨"slam", "open", "open", .none, .ofFn fun _ => []⟩]

def definition : Definition Unit :=
  let run : Record := ⟨"open", "shut", "open", .none, .ofFn fun _ => []⟩
  ⟨"shut", ["open", "shut"].map (State.ofRecords (run :: records)), [⟨"open", [run]⟩, ⟨"slam", records⟩], []⟩

theorem compile_spec : Definition.compile spec [] = .ok definition := rfl

end Door

/-- The door may fail, and is slammed in the same two ways as before. -/
theorem errorEvent_conservative_door :
    errorEvent ∉ (events Door.spec).map (·.1) ∧
      ∃ extended : Definition Unit,
        (Machine.build Door.spec [] "door" toString none 0 : Except BuildError (Machine Unit Unit)) =
            .ok (.start extended "door" toString "shut" 0) ∧
          extended.stateNames = ["open", "shut", "failed"] ∧ extended.eventNames = ["open", "slam", "error"] ∧
          (extended.recordsFor "slam" (some "open")).map (·.toState) = ["shut", "open"] ∧
          extended.recordsFor "error" (some "failed") = [failure "failed"] := by
  have hlacks : errorEvent ∉ (events Door.spec).map (·.1) := by decide
  obtain ⟨extended, hbuild, hextends⟩ :=
    (errorEvent_conservative (φ := Unit) Door.spec [] "door" toString 0).1 hlacks Door.definition Door.compile_spec
  have hstates : extended.stateNames = ["open", "shut", "failed"] := hextends.stateNames_eq
  refine ⟨hlacks, extended, hbuild, hstates, hextends.eventNames_eq, ?_, ?_⟩
  · rw [hextends.recordsFor_eq "slam" (by decide) "open" (by decide)]
    rfl
  · exact (hextends.failures "failed" (by rw [hstates]; decide)).1

end StateEngine
