import StateEngine.Definition.Compile
import StateEngine.Definition.Reading
import StateEngine.Proofs.Build

/-!
# Compilation follows the reading

Compilation works in passes: defaults are filled in, every object fans out into its sources, states are
collected from all events, and only then the names for every state and for the same state are
replaced. All of this together gives what the value says when it is read one state at a time.

* `Declaration.read_eq_ok`: what is read from a value, event by event.
* `Definition.compile_eq_ok`: the states and the records of a compiled definition.
* `recordsFor_eq_reading`: **the records of an event, from one state or from all, are what the value
  says**.
-/

namespace StateEngine

variable {κ : Type}

theorem eq_map_of_mapM {ε α β : Type} {f : α → Except ε β} {g : α → β}
    (hf : ∀ a b, f a = .ok b → b = g a) {l : List α} :
    ∀ {l' : List β}, l.mapM f = .ok l' → l' = l.map g := by
  induction l with
  | nil =>
    intro l' h
    cases h
    rfl
  | cons a rest ih =>
    intro l' h
    rw [List.mapM_cons] at h
    obtain ⟨b, hb, h⟩ := except_bind_eq_ok.1 h
    obtain ⟨bs, hbs, h⟩ := except_bind_eq_ok.1 h
    cases h
    rw [List.map_cons, hf a b hb, ih hbs]

theorem nodup_eraseDups {α : Type} [BEq α] [LawfulBEq α] (l : List α) : l.eraseDups.Nodup := by
  induction hn : l.length using Nat.strongRecOn generalizing l with
  | _ n ih =>
    subst hn
    cases l with
    | nil => exact .nil
    | cons a rest =>
      rw [List.eraseDups_cons, List.nodup_cons]
      refine ⟨fun ha => ?_, ih _ ?_ _ rfl⟩
      · rw [List.mem_eraseDups, List.mem_filter] at ha
        simp at ha
      · exact Nat.lt_succ_of_le (List.length_filter_le ..)

/-! ## Members -/

theorem Json.members?_eq_some {value : Json} {members : Members} :
    value.members? = some members ↔ value = .object members := by
  cases value <;> simp [Json.members?]

theorem Json.string?_eq_some {value : Json} {name : String} :
    value.string? = some name ↔ value = .string name := by
  cases value <;> simp [Json.string?]

theorem orError_eq_ok {α : Type} {error : DefinitionError} {a? : Option α} {a : α}
    (h : orError error a? = .ok a) : a? = some a := by
  cases a? with
  | none => exact nomatch h
  | some b => exact congrArg some (Except.ok.inj h)

/-- A list is read as strings if it is a list of just these. -/
theorem stringsOr_eq_ok_iff {error : DefinitionError} {items : List Json} {names : List String} :
    stringsOr error items = .ok names ↔ items = names.map .string := by
  unfold stringsOr
  induction items generalizing names with
  | nil =>
    constructor
    · intro h
      cases h
      rfl
    · intro h
      rw [List.map_eq_nil_iff.1 h.symm]
      rfl
  | cons item rest ih =>
    rw [List.mapM_cons, except_bind_eq_ok]
    constructor
    · rintro ⟨name, hname, hrest⟩
      obtain ⟨others, hothers, hlast⟩ := except_bind_eq_ok.1 hrest
      cases hlast
      cases hs : item.string? with
      | none => rw [hs] at hname; exact nomatch hname
      | some found =>
        rw [hs] at hname
        cases hname
        rw [Json.string?_eq_some.1 hs, ih.1 hothers, List.map_cons]
    · intro h
      cases names with
      | nil => exact nomatch h
      | cons name others =>
        obtain ⟨rfl, hrest⟩ := List.cons.inj h
        exact ⟨name, rfl, except_bind_eq_ok.2 ⟨others, ih.2 hrest, rfl⟩⟩

theorem stringsOr_eq_ok {error : DefinitionError} {items : List Json} {names : List String}
    (h : stringsOr error items = .ok names) : names = items.filterMap Json.string? := by
  rw [stringsOr_eq_ok_iff.1 h, List.filterMap_map]
  exact List.filterMap_some.symm

theorem PhaseTable.get_of_ofFnM {ε α : Type} {f : Phase → Except ε α}
    {table : PhaseTable α} (h : PhaseTable.ofFnM f = .ok table) (phase : Phase) :
    f phase = .ok (table.get phase) := by
  obtain ⟨a, ha, h⟩ := except_bind_eq_ok.1 h
  obtain ⟨b, hb, h⟩ := except_bind_eq_ok.1 h
  obtain ⟨c, hc, h⟩ := except_bind_eq_ok.1 h
  obtain ⟨d, hd, h⟩ := except_bind_eq_ok.1 h
  obtain ⟨e, he, h⟩ := except_bind_eq_ok.1 h
  obtain ⟨f', hf, h⟩ := except_bind_eq_ok.1 h
  cases h
  cases phase with
  | beforeEvent => exact ha
  | willExit => exact hb
  | willEnter => exact hc
  | didExit => exact hd
  | didEnter => exact he
  | afterEvent => exact hf

namespace Reading

variable {members : Members} {key : String}

/-! ## What is read -/

theorem members_eq (value : Json) : Reading.members value = value.members?.getD [] := by
  cases value <;> rfl

theorem member_object (root : Members) (key : String) :
    member (.object root) key = (root.lookup key).getD .null := rfl

theorem items_eq (value : Json) : items value = value.toItems := by
  cases value <;> rfl

theorem text?_eq (value : Json) : text? value = value.string? := by
  cases value <;> rfl

theorem strings_eq (value : Json) : strings value = value.toItems.filterMap Json.string? := by
  unfold strings
  rw [items_eq, funext text?_eq]

theorem keys_object (members : Members) : keys (.object members) = members.presentKeys := by
  induction members with
  | nil => rfl
  | cons member rest ih =>
    obtain ⟨key, value⟩ := member
    cases value with
    | null => exact ih
    | _ => exact congrArg (key :: ·) ih

/-- The keys that declare callbacks are those that are compiled. -/
theorem phaseKey_eq (phase : Phase) : phaseKey phase = phase.key := by
  cases phase <;> rfl

theorem hookPhases_eq : hookPhases = Phase.hooks := rfl

/-- A key is never a from-state just if compilation reserves it. -/
theorem transitionKey_iff : (decide (key ∉ transitionKeys)) = !reservedTransitionKeys.contains key := by
  rw [List.contains_eq_mem, decide_not]
  rfl

theorem stateKey_iff : (decide (key ∉ stateKeys)) = !reservedStateKeys.contains key := by
  rw [List.contains_eq_mem, decide_not]
  rfl

theorem callbacks_eq (object : Json) (phase : Phase) :
    callbacks object phase = (member object phase.key).toItems.filterMap Json.string? := by
  unfold callbacks
  rw [phaseKey_eq, strings_eq]

theorem record_callbacks (name : String) (event object : Json) (state : String) (phase : Phase) :
    (record name event object state).callbacks.get phase = callbacks event phase ++ callbacks object phase := by
  cases phase <;> rfl

/-! ## Members -/

theorem member_of_present {value : Json} (h : members.present? key = some value) :
    member (.object members) key = value := by
  change (members.lookup key).getD .null = value
  rw [(Option.filter_eq_some_iff.1 h).1]
  rfl

theorem member_of_absent (h : members.present? key = none) :
    member (.object members) key = .null := by
  change (members.lookup key).getD .null = .null
  unfold Members.present? at h
  cases hl : members.lookup key with
  | none => rfl
  | some value =>
    rw [hl] at h
    -- what is there and counts as absent is null
    cases value with
    | null => rfl
    | _ => exact nomatch h

theorem guardName_eq_ok {name other : String} {guard : Option String}
    (h : guardName name members key other = .ok guard) :
    guard = ((member (.object members) key).string? <|> (member (.object members) other).string?) := by
  unfold guardName Members.firstPresent? at h
  rw [List.findSome?_cons, List.findSome?_cons, List.findSome?_nil] at h
  -- a key that is present has a string, and hides the other one
  have hfound : ∀ value : Json, (orError (.invalidProperty name key .guardName) value.string?).map some =
      .ok guard → ∃ s, value.string? = some s ∧ guard = some s := by
    intro value hv
    cases hs : value.string? with
    | none => rw [hs] at hv; exact nomatch hv
    | some s => rw [hs] at hv; exact ⟨s, rfl, (Except.ok.inj hv).symm⟩
  cases hk : members.present? key with
  | some value =>
    rw [hk] at h
    obtain ⟨s, hs, rfl⟩ := hfound value h
    rw [member_of_present hk, hs]
    rfl
  | none =>
    rw [hk] at h
    rw [member_of_absent hk]
    cases ho : members.present? other with
    | some value =>
      rw [ho] at h
      obtain ⟨s, hs, rfl⟩ := hfound value h
      rw [member_of_present ho, hs]
      rfl
    | none =>
      rw [ho] at h
      rw [member_of_absent ho]
      exact (Except.ok.inj h).symm

theorem guards_eq_ok {name : String} {own : Guards} (h : Guards.read name members = .ok own) :
    own = guards (.object members) := by
  obtain ⟨doIf, hif, h⟩ := except_bind_eq_ok.1 h
  obtain ⟨doUnless, hunless, h⟩ := except_bind_eq_ok.1 h
  cases h
  unfold guards
  rw [guardName_eq_ok hif, guardName_eq_ok hunless]
  simp only [text?_eq]

theorem any_eq_false {own : Guards} : own.any = false ↔ own = ⟨none, none⟩ := by
  obtain ⟨doIf, doUnless⟩ := own
  cases doIf <;> cases doUnless <;> simp [Guards.any]

/-- Guards of its own replace those of the event. -/
theorem if_any (own others : Guards) :
    (if own.any then own else others) = if own = ⟨none, none⟩ then others else own := by
  cases hany : own.any with
  | false => rw [if_pos (any_eq_false.1 hany), if_neg Bool.false_ne_true]
  | true =>
    have hsome : own ≠ ⟨none, none⟩ := fun h => Bool.false_ne_true ((any_eq_false.2 h).symm.trans hany)
    rw [if_neg hsome, if_pos rfl]

theorem callbackNames_eq_ok {name : String} {phase : Phase} {names : List String}
    (h : callbackNames name members phase = .ok names) : names = callbacks (.object members) phase :=
  (stringsOr_eq_ok h).trans (callbacks_eq (.object members) phase).symm

theorem sources_eq_ok {name : String} {value : Json} {sources : List String}
    (h : Mapping.readSources name value = .ok sources) : sources = strings value := by
  unfold Mapping.readSources at h
  dsimp only at h
  split at h
  · exact nomatch h
  · exact (stringsOr_eq_ok h).trans (strings_eq value).symm

theorem implicit_object (members : Members) : implicit? (.object members) =
    (members.presentKeys.filter fun key => !reservedTransitionKeys.contains key).head? := by
  unfold implicit?
  rw [keys_object, List.head?_filter]
  simp only [transitionKey_iff]

theorem entries_eq_ok {name : String} {states : List String × String}
    (h : Mapping.readStates name members = .ok states) :
    states = (entries (.object members), target (.object members)) := by
  unfold Mapping.readStates at h
  dsimp only at h
  generalize List.length _ + _ = count at h
  split at h
  · exact nomatch h
  unfold entries target
  rw [implicit_object, text?_eq]
  cases hsources : members.presentKeys.filter fun key => !reservedTransitionKeys.contains key with
  | cons source others =>
    -- the only key that is not reserved is the source, and its value the target
    rw [hsources] at h
    obtain ⟨state, hto, h⟩ := except_bind_eq_ok.1 h
    cases h
    obtain ⟨value, hvalue, hs⟩ := Option.bind_eq_some_iff.1 (orError_eq_ok hto)
    simp only [List.head?_cons, Option.getD_some]
    rw [member_of_present hvalue, hs]
    rfl
  | nil =>
    rw [hsources] at h
    simp only [List.head?_nil, Option.getD_none]
    cases hfrom : members.present? "from" with
    | none => rw [hfrom] at h; exact nomatch h
    | some source =>
      cases hto : members.present? "to" with
      | none => rw [hfrom, hto] at h; exact nomatch h
      | some value =>
        rw [hfrom, hto] at h
        obtain ⟨state, hs, h⟩ := except_bind_eq_ok.1 h
        obtain ⟨sources, hread, h⟩ := except_bind_eq_ok.1 h
        cases h
        rw [member_of_present hfrom, member_of_present hto, orError_eq_ok hs, sources_eq_ok hread]
        rfl

/-- The mapping that a transition object stands for. -/
def mapping (event object : Json) : Mapping :=
  ⟨entries object, target object, if guards object = ⟨none, none⟩ then guards event else guards object,
    (record "" event object "").callbacks⟩

/-- A transition object is read as the mapping that it stands for, and its sources are states. -/
theorem mapping_eq_ok {name : String} {event : Json} {names : CallbackNames} {read : Mapping}
    (hnames : ∀ phase, names.get phase = callbacks event phase)
    (h : Mapping.read name (guards event) names members = .ok read) :
    read = mapping event (.object members) ∧ sameState ∉ read.sources := by
  obtain ⟨states, hstates, h⟩ := except_bind_eq_ok.1 h
  obtain rfl := entries_eq_ok hstates
  dsimp only at h
  split at h
  · exact nomatch h
  rename_i hsame
  obtain ⟨own, hown, h⟩ := except_bind_eq_ok.1 h
  obtain ⟨table, htable, h⟩ := except_bind_eq_ok.1 h
  cases h
  refine ⟨?_, fun hs => hsame (List.contains_iff_mem.2 hs)⟩
  have htable' : table = (mapping event (.object members)).callbacks := by
    ext1 phase
    have hphase := PhaseTable.get_of_ofFnM htable phase
    cases hc : callbackNames name members phase with
    | error error => rw [hc] at hphase; exact nomatch hphase
    | ok own =>
      rw [hc] at hphase
      refine (Except.ok.inj hphase).symm.trans ?_
      rw [mapping, record_callbacks, ← callbackNames_eq_ok hc, ← hnames phase]
  rw [htable', guards_eq_ok hown, if_any]
  rfl

theorem objects_eq_ok {name : String} {items : List Json}
    (h : EventDeclaration.transitionItems name members = .ok items) :
    items = objects (.object members) := by
  unfold EventDeclaration.transitionItems at h
  unfold objects
  rw [items_eq, items_eq]
  cases hone : members.present? "transition" with
  | none =>
    rw [hone] at h
    cases hmany : members.present? "transitions" with
    | none => rw [hmany] at h; exact nomatch h
    | some value =>
      rw [hmany] at h
      rw [member_of_absent hone, member_of_present hmany]
      exact (Except.ok.inj h).symm
  | some value =>
    rw [hone] at h
    cases hmany : members.present? "transitions" with
    | some other => rw [hmany] at h; exact nomatch h
    | none =>
      rw [hmany] at h
      rw [member_of_present hone, member_of_absent hmany]
      exact (Except.ok.inj h).symm.trans (List.append_nil _).symm

/-- The mappings that an event stands for. -/
def declared (name : String) (event : Json) : EventDeclaration :=
  ⟨name, (objects event).map (mapping event)⟩

/-- An event is read as the mappings that it stands for. -/
theorem declared_eq_ok {name : String} {event : Json} {declaration : EventDeclaration}
    (h : EventDeclaration.read name event = .ok declaration) :
    declaration = declared name event ∧ ∀ read ∈ declaration.mappings, sameState ∉ read.sources := by
  obtain ⟨members, hmembers, h⟩ := except_bind_eq_ok.1 h
  have hevent : event = .object members := Json.members?_eq_some.1 (orError_eq_ok hmembers)
  obtain ⟨items, hitems, h⟩ := except_bind_eq_ok.1 h
  dsimp only at h
  split at h
  · exact nomatch h
  obtain ⟨own, hown, h⟩ := except_bind_eq_ok.1 h
  obtain ⟨names, hnames, h⟩ := except_bind_eq_ok.1 h
  obtain ⟨mappings, hmappings, h⟩ := except_bind_eq_ok.1 h
  cases h
  subst hevent
  rw [guards_eq_ok hown] at hmappings
  have hread : ∀ item read, (do
      let inner ← orError (.invalidTransition name) item.members?
      Mapping.read name (guards (.object members)) names inner) = .ok read →
      read = mapping (.object members) item ∧ sameState ∉ read.sources := by
    intro item read h
    obtain ⟨inner, hinner, h⟩ := except_bind_eq_ok.1 h
    obtain rfl := Json.members?_eq_some.1 (orError_eq_ok hinner)
    exact mapping_eq_ok (fun phase => callbackNames_eq_ok (PhaseTable.get_of_ofFnM hnames phase)) h
  refine ⟨?_, forall_of_mapM (fun item read h => (hread item read h).2) items hmappings⟩
  rw [eq_map_of_mapM (fun item read h => (hread item read h).1) hmappings, objects_eq_ok hitems]
  rfl

end Reading

/-! ## Declarations -/

/-- A value is read part by part. -/
theorem Declaration.read_iff {spec : Json} {declaration : Declaration} :
    Declaration.read spec = .ok declaration ↔ ∃ root events, spec = .object root ∧
      readEvents root = .ok events ∧ readStates root = .ok declaration.states ∧ events ≠ [] ∧
        readInitial declaration.states = .ok declaration.initialState ∧
          readAllowed declaration.states = .ok declaration.allowed ∧
            (events.mapM fun (name, entry) => EventDeclaration.read name entry) =
              .ok declaration.events := by
  constructor
  · intro h
    obtain ⟨root, hroot, hread⟩ := except_bind_eq_ok.1 h
    obtain ⟨events, hevents, hread⟩ := except_bind_eq_ok.1 hread
    obtain ⟨states, hstates, hread⟩ := except_bind_eq_ok.1 hread
    have hspec : spec = .object root := Json.members?_eq_some.1 (orError_eq_ok hroot)
    dsimp only at hread
    split at hread
    · exact nomatch hread
    rename_i hsome
    obtain ⟨initial, hinitial, hread⟩ := except_bind_eq_ok.1 hread
    obtain ⟨allowed, hallowed, hread⟩ := except_bind_eq_ok.1 hread
    obtain ⟨declarations, hdeclarations, hread⟩ := except_bind_eq_ok.1 hread
    cases hread
    exact ⟨root, events, hspec, hevents, hstates, fun h => hsome (List.isEmpty_iff.2 h), hinitial, hallowed,
      hdeclarations⟩
  · rintro ⟨root, events, rfl, hevents, hstates, hsome, hinitial, hallowed, hdeclarations⟩
    have hfull : ¬ events.isEmpty = true := fun h => hsome (List.isEmpty_iff.1 h)
    refine except_bind_eq_ok.2 ⟨root, rfl, except_bind_eq_ok.2 ⟨events, hevents,
      except_bind_eq_ok.2 ⟨declaration.states, hstates, ?_⟩⟩⟩
    dsimp only
    rw [if_neg hfull]
    exact except_bind_eq_ok.2 ⟨_, hinitial, except_bind_eq_ok.2 ⟨_, hallowed,
      except_bind_eq_ok.2 ⟨_, hdeclarations, rfl⟩⟩⟩

theorem Declaration.readEvents_eq_ok {root events : Members} (h : readEvents root = .ok events) :
    Reading.member (.object root) "events" = .object events := by
  unfold readEvents at h
  cases hpresent : Members.present? root "events" with
  | none => rw [hpresent] at h; exact nomatch h
  | some value =>
    rw [hpresent] at h
    rw [Reading.member_of_present hpresent]
    exact Json.members?_eq_some.1 (orError_eq_ok h)

theorem Declaration.readAllowed_nodup {states : Members} {names : List String}
    (h : readAllowed states = .ok (some names)) : names.Nodup := by
  unfold readAllowed at h
  dsimp only at h
  split at h
  · exact nomatch h
  · rename_i items _
    cases hitems : stringsOr (.invalidStateProperty "knownStates" .stateNameList) items with
    | error error => rw [hitems] at h; exact nomatch h
    | ok listed =>
      rw [hitems] at h
      cases h
      exact nodup_eraseDups listed
  · exact nomatch h

/-- **What is read from a value**: the events that it has, as they are written. No source is the name
that stands for the same state, and allowed states are listed once. -/
theorem Declaration.read_eq_ok {spec : Json} {declaration : Declaration}
    (h : Declaration.read spec = .ok declaration) :
    (∃ events, Reading.member spec "events" = .object events ∧
        declaration.events = events.map fun (name, event) => Reading.declared name event) ∧
      (∀ event ∈ declaration.events, ∀ read ∈ event.mappings, sameState ∉ read.sources) ∧
      ∀ allowed, declaration.allowed = some allowed → allowed.Nodup := by
  obtain ⟨root, events, rfl, hevents, -, -, -, hallowed, hdeclarations⟩ := Declaration.read_iff.1 h
  refine ⟨⟨events, readEvents_eq_ok hevents,
    eq_map_of_mapM (fun event read h => (Reading.declared_eq_ok h).1) hdeclarations⟩,
    forall_of_mapM (fun event read h => (Reading.declared_eq_ok h).2) events hdeclarations, ?_⟩
  intro names hnames
  exact readAllowed_nodup (hallowed.trans (congrArg Except.ok hnames))

/-- The states of a declaration are all those that it mentions, each once. -/
theorem Declaration.stateNames_eq_ok {declaration : Declaration} {known : List String}
    (h : declaration.stateNames = .ok known)
    (hallowed : ∀ allowed, declaration.allowed = some allowed → allowed.Nodup) :
    known.Nodup ∧ ∀ name ∈ declaration.mentioned, name ∈ known := by
  unfold stateNames at h
  split at h
  · cases h
    exact ⟨nodup_eraseDups _, fun _ hn => hn⟩
  · rename_i allowed hlist
    split at h
    · exact nomatch h
    rename_i hmissing
    split at h
    · exact nomatch h
    · cases h
      refine ⟨hallowed _ hlist, fun name hn => ?_⟩
      have hin := List.find?_eq_none.1 hmissing name hn
      simpa using hin

/-- Every record of an event starts at a known state, and leads to one unless its target is the name
that stands for every state. -/
theorem EventDeclaration.states_mem {event : EventDeclaration} {known : List String}
    (hsame : ∀ read ∈ event.mappings, sameState ∉ read.sources)
    (hknown : ∀ name ∈ event.mentioned, name ∈ known) {record : Record}
    (h : record ∈ event.records known) :
    record.fromState ∈ known ∧ (record.toState ∈ known ∨ record.toState = everyState) := by
  obtain ⟨read, hread, h⟩ := List.mem_flatMap.1 h
  obtain ⟨state, hstate, rfl⟩ := List.mem_map.1 h
  obtain ⟨source, hsource, hstate⟩ := List.mem_flatMap.1 hstate
  have hmentioned : ∀ name ∈ [source, read.target], name ≠ everyState → name ≠ sameState →
      name ∈ known := fun name hname hevery hother =>
    hknown name (List.mem_flatMap.2 ⟨read, hread, List.mem_filter.2
      ⟨List.mem_flatMap.2 ⟨source, hsource, hname⟩, by simp [hevery, hother]⟩⟩)
  have hfrom : state ∈ known := by
    unfold Mapping.expandSource at hstate
    split at hstate
    · exact hstate
    · rename_i hevery
      rw [List.mem_singleton.1 hstate]
      refine hmentioned source List.mem_cons_self hevery ?_
      rintro rfl
      exact hsame read hread hsource
  refine ⟨hfrom, ?_⟩
  change read.expandTarget state ∈ known ∨ read.expandTarget state = everyState
  unfold Mapping.expandTarget
  split
  · exact .inl hfrom
  · rename_i hother
    by_cases hevery : read.target = everyState
    · exact .inr hevery
    · exact .inl (hmentioned _ (List.mem_cons_of_mem _ List.mem_cons_self) hevery hother)

/-! ## Definitions -/

/-- The states of a declaration that was read are listed once each. -/
theorem Declaration.nodup_stateNames {spec : Json} {declaration : Declaration} {known : List String}
    (hread : Declaration.read spec = .ok declaration) (hknown : declaration.stateNames = .ok known) : known.Nodup :=
  (Declaration.stateNames_eq_ok hknown (Declaration.read_eq_ok hread).2.2).1

theorem Definition.compile_eq_ok {spec : Json} {inline : List (InlineHook κ)}
    {definition : Definition κ} (h : Definition.compile spec inline = .ok definition) :
    ∃ declaration, Declaration.read spec = .ok declaration ∧
      declaration.stateNames = .ok definition.stateNames ∧
      definition.initialState = declaration.initialState ∧
      definition.events =
        declaration.events.map fun event => ⟨event.name, event.records definition.stateNames⟩ := by
  obtain ⟨declaration, hread, h⟩ := except_bind_eq_ok.1 h
  obtain ⟨known, hknown, h⟩ := except_bind_eq_ok.1 h
  obtain ⟨events, hevents, h⟩ := except_bind_eq_ok.1 h
  obtain ⟨hooks, -, h⟩ := except_bind_eq_ok.1 h
  obtain ⟨attached, -, h⟩ := except_bind_eq_ok.1 h
  cases h
  have hnames := State.name_table (Declaration.nodup_stateNames hread hknown) (events.flatMap (·.records))
  refine ⟨declaration, hread, hknown.trans (congrArg Except.ok hnames.symm), rfl, ?_⟩
  unfold stateNames
  rw [hnames]
  refine eq_map_of_mapM (fun event compiled hcompiled => ?_) hevents
  obtain ⟨-, -, rfl⟩ := EventDeclaration.compile_eq_ok.1 hcompiled
  rfl

/-- **The states of a compiled definition**: each is listed once, every record starts at one, and leads
to one unless it was declared to lead to the name that stands for every state. -/
theorem Definition.compile_states {spec : Json} {inline : List (InlineHook κ)}
    {definition : Definition κ} (h : Definition.compile spec inline = .ok definition) :
    definition.stateNames.Nodup ∧ definition.initialState ∈ definition.stateNames ∧
      ∀ event ∈ definition.events, ∀ record ∈ event.records,
        record.fromState ∈ definition.stateNames ∧
          (record.toState ∈ definition.stateNames ∨ record.toState = everyState) := by
  obtain ⟨declaration, hread, hknown, hinitial, hevents⟩ := Definition.compile_eq_ok h
  obtain ⟨-, hsame, hallowed⟩ := Declaration.read_eq_ok hread
  obtain ⟨hnodup, hmentioned⟩ := Declaration.stateNames_eq_ok hknown hallowed
  refine ⟨hnodup, ?_, fun event hevent record hrecord => ?_⟩
  · rw [hinitial]
    exact hmentioned _ (List.mem_eraseDups.2 List.mem_cons_self)
  · rw [hevents] at hevent
    obtain ⟨declared, hdeclared, rfl⟩ := List.mem_map.1 hevent
    refine EventDeclaration.states_mem (hsame declared hdeclared) (fun name hname => ?_) hrecord
    refine hmentioned name (List.mem_eraseDups.2 (List.mem_cons_of_mem _ ?_))
    exact List.mem_flatMap.2 ⟨declared, hdeclared, hname⟩

namespace Reading

/-- The records of the mappings that an event stands for. -/
theorem records_declared (known : List String) (name : String) (event : Json) :
    (declared name event).records known = (objects event).flatMap fun object =>
      (entries object).flatMap fun entry =>
        (if entry = "$all" then known else [entry]).map (record name event object) := by
  unfold EventDeclaration.records declared
  rw [List.flatMap_map]
  congr 1
  funext object
  exact List.map_flatMap

theorem find_declared (known : List String) (name : String) (events : Members) :
    ((events.map fun (key, event) => declared key event).map fun event =>
        (⟨event.name, event.records known⟩ : Event)).find? (·.name == name) =
      (events.lookup name).map fun event => ⟨name, (declared name event).records known⟩ := by
  induction events with
  | nil => rfl
  | cons member rest ih =>
    obtain ⟨key, event⟩ := member
    rw [List.map_cons, List.map_cons, List.find?_cons, List.lookup_cons]
    by_cases hkey : key = name
    · subst hkey
      simp [declared]
    · have hname : (name == key) = false := beq_eq_false_iff_ne.2 fun h => hkey h.symm
      have hkey : ((declared key event).name == name) = false := beq_eq_false_iff_ne.2 hkey
      simp only [hkey, hname]
      exact ih

end Reading

/-- The records of a compiled definition, as the value says them. -/
theorem Definition.recordsFor_compile {spec : Json} {inline : List (InlineHook κ)}
    {definition : Definition κ} (h : Definition.compile spec inline = .ok definition) (name : String)
    (source : Option String) :
    definition.recordsFor name source =
      (Reading.recordsOf spec name definition.stateNames).filter fun record =>
        source.all (record.fromState == ·) := by
  obtain ⟨declaration, hread, -, -, hevents⟩ := Definition.compile_eq_ok h
  obtain ⟨⟨events, hmember, hdeclared⟩, -, -⟩ := Declaration.read_eq_ok hread
  have hfind := Reading.find_declared definition.stateNames name events
  rw [← hdeclared, ← hevents] at hfind
  unfold recordsFor Reading.recordsOf Reading.event
  rw [hfind, hmember, show Reading.member (.object events) name = (events.lookup name).getD .null
    from rfl]
  cases events.lookup name with
  | none => rfl
  | some event =>
    simp only [Option.map_some, Option.getD_some]
    rw [Reading.records_declared]

namespace Reading

/-- The records of one entry that start at a state. -/
theorem filter_entry {known : List String} (hnodup : known.Nodup) {state : String}
    (hstate : state ∈ known) (name : String) (event object : Json) (entry : String) :
    ((if entry = "$all" then known else [entry]).map (record name event object)).filter
        (·.fromState == state) =
      if entry = state ∨ entry = "$all" then [record name event object state] else [] := by
  rw [List.filter_map]
  change List.map _ (List.filter (· == state) _) = _
  by_cases hevery : entry = "$all"
  · -- among the known states the state is listed once
    have hcount : known.count state = 1 :=
      Nat.le_antisymm (List.nodup_iff_count.1 hnodup state) (List.count_pos_iff.2 hstate)
    rw [if_pos hevery, if_pos (.inr hevery), List.filter_beq, hcount]
    rfl
  · rw [if_neg hevery]
    by_cases hentry : entry = state
    · subst hentry
      simp
    · simp [hentry, hevery]

/-- The records of an event that start at a state, entry by entry. -/
theorem filter_objects {known : List String} (hnodup : known.Nodup) {state : String}
    (hstate : state ∈ known) (name : String) (event : Json) :
    ((objects event).flatMap fun object => (entries object).flatMap fun entry =>
        (if entry = "$all" then known else [entry]).map (record name event object)).filter
        (·.fromState == state) =
      (objects event).flatMap fun object =>
        ((entries object).filter fun entry => entry = state ∨ entry = "$all").map fun _ =>
          record name event object state := by
  rw [List.filter_flatMap]
  congr 1
  funext object
  rw [List.filter_flatMap]
  simp only [filter_entry hnodup hstate]
  induction entries object with
  | nil => rfl
  | cons entry rest ih =>
    rw [List.flatMap_cons, ih, List.filter_cons]
    by_cases hentry : entry = state ∨ entry = "$all"
    · simp [hentry]
    · simp [hentry]

theorem recordsOf_filter {known : List String} (hnodup : known.Nodup) {state : String}
    (hstate : state ∈ known) (spec : Json) (name : String) :
    (recordsOf spec name known).filter (·.fromState == state) = recordsIn spec name state :=
  filter_objects hnodup hstate name (event spec name)

end Reading

/-- **The records of an event are what the value of the definition says.** From a state of the
definition there is one record for each entry that means it, in the order of objects and entries; from
anything else there is none; and in all, an entry for every state gives a record for each of them. -/
theorem recordsFor_eq_reading {spec : Json} {inline : List (InlineHook κ)}
    {definition : Definition κ} (h : Definition.compile spec inline = .ok definition) (name : String) :
    (∀ state ∈ definition.stateNames,
        definition.recordsFor name (some state) = Reading.recordsIn spec name state) ∧
      (∀ state, state ∉ definition.stateNames → definition.recordsFor name (some state) = []) ∧
      definition.recordsFor name none = Reading.recordsOf spec name definition.stateNames ∧
      ∀ record ∈ definition.recordsFor name none,
        record.isGuarded = true ↔
          ∃ guard, record.guards.doIf = some guard ∨ record.guards.doUnless = some guard := by
  obtain ⟨hnodup, -, hstates⟩ := Definition.compile_states h
  refine ⟨fun state hstate => ?_, fun state hstate => ?_, ?_, fun record _ => ?_⟩
  · rw [Definition.recordsFor_compile h]
    exact Reading.recordsOf_filter hnodup hstate spec name
  · unfold Definition.recordsFor
    cases hf : definition.events.find? (·.name == name) with
    | none => rfl
    | some event =>
      refine List.filter_eq_nil_iff.2 fun record hrecord hfrom => hstate ?_
      have hsource := (hstates event (List.mem_of_find?_eq_some hf) record hrecord).1
      rwa [show record.fromState = state by simpa using hfrom] at hsource
  · rw [Definition.recordsFor_compile h]
    exact List.filter_eq_self.2 fun _ _ => rfl
  · unfold Record.isGuarded Guards.any
    rw [Bool.or_eq_true, Option.isSome_iff_exists, Option.isSome_iff_exists]
    exact ⟨fun h => h.elim (fun ⟨g, hg⟩ => ⟨g, .inl hg⟩) fun ⟨g, hg⟩ => ⟨g, .inr hg⟩,
      fun ⟨g, hg⟩ => hg.elim (fun h => .inl ⟨g, h⟩) fun h => .inr ⟨g, h⟩⟩

namespace Heater

/-- A heater that runs only with power, and has to warm up first unless it is warm. Something is called in
every phase of running, and warming up adds to each of them. -/
def spec : Json := .object [
  ("states", .object [("initialState", .string "off")]),
  ("events", .object [("run", .object [
    ("guard", .null), ("doIf", .string "hasPower"),
    ("before", .string "log"), ("willExit", .string "part"), ("willEnter", .array [.string "arrive"]),
    ("didExit", .string "parted"), ("didEnter", .array [.string "arrived", .string "hum"]),
    ("after", .string "settle"),
    ("transitions", .array [
      .object [("on", .string "$same")],
      .object [("guard", .null), ("off", .string "warming"), ("unless", .string "isWarm"),
        ("doUnless", .string "isHot"), ("before", .array [.string "warm"]), ("willExit", .string "open"),
        ("willEnter", .string "heat"), ("didExit", .string "close"), ("didEnter", .string "glow"),
        ("after", .string "report")],
      .object [("from", .array [.string "off", .string "$all"]), ("to", .string "on")]])])])]

/-- A record that needs power, with what is called in every phase of running. -/
def powered (source : String) : Record :=
  ⟨"run", source, "on", ⟨some "hasPower", none⟩,
    ⟨["log"], ["part"], ["arrive"], ["parted"], ["arrived", "hum"], ["settle"]⟩⟩

def warming : Record :=
  ⟨"run", "off", "warming", ⟨none, some "isWarm"⟩,
    ⟨["log", "warm"], ["part", "open"], ["arrive", "heat"], ["parted", "close"], ["arrived", "hum", "glow"],
      ["settle", "report"]⟩⟩

def records : List Record :=
  [powered "on", warming, powered "off", powered "off", powered "on", powered "warming"]

def definition : Definition Unit :=
  ⟨"off", ["off", "on", "warming"].map (State.ofRecords records), [⟨"run", records⟩], []⟩

theorem compile_spec : Definition.compile spec [] = .ok definition := rfl

end Heater

/-- The heater has three ways to run from off, in the order in which they are written, and one from warming. -/
theorem recordsFor_eq_reading_heater :
    "off" ∈ Heater.definition.stateNames ∧
      Heater.definition.recordsFor "run" (some "off") = Reading.recordsIn Heater.spec "run" "off" ∧
      Reading.recordsIn Heater.spec "run" "off" =
        [Heater.warming, Heater.powered "off", Heater.powered "off"] ∧
      Heater.definition.recordsFor "run" (some "warming") = Reading.recordsIn Heater.spec "run" "warming" ∧
      Reading.recordsIn Heater.spec "run" "warming" = [Heater.powered "warming"] ∧
      Heater.definition.recordsFor "run" (some "hot") = [] ∧
      Heater.definition.recordsFor "run" none =
        Reading.recordsOf Heater.spec "run" ["off", "on", "warming"] ∧
      Reading.recordsOf Heater.spec "run" ["off", "on", "warming"] = Heater.records ∧
      Heater.warming.isGuarded = true := by
  obtain ⟨hstate, hnone, hall, hguarded⟩ := recordsFor_eq_reading Heater.compile_spec "run"
  refine ⟨by decide, hstate "off" (by decide), rfl, hstate "warming" (by decide), rfl, hnone "hot" (by decide),
    hall, rfl, ?_⟩
  exact (hguarded Heater.warming (by decide)).2 ⟨"isWarm", .inr rfl⟩

end StateEngine
