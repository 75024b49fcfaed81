import StateEngine.Proofs.Entering

/-!
# The tables of a definition

A compiled definition has its records in two tables: by event, and by state. The table of states is filled
record by record, each of which is entered where the names of its states stand. Nothing is lost, doubled or moved
on the way, for each name stands once.

* `Definition.filter_records`: the records of an event among those of all events.
* `Definition.Indexed`, `compile_indexed`: **what holds of the tables of every compiled definition.**
-/

namespace StateEngine

/-! ## What the tables hold -/

variable {κ : Type} {d : Definition κ} {spec : Json} {inline : List (InlineHook κ)}

/-- All records, event by event. -/
def Definition.records (d : Definition κ) : List Record := d.events.flatMap (·.records)

namespace Definition

/-- **The tables of a definition**, and how they fit together and to the value that it was compiled from. -/
structure Indexed (d : Definition κ) (spec : Json) : Prop where
  /-- The states are those that are listed, or else those that are mentioned, in the order of first mention. -/
  states_declared : ∃ declaration, Declaration.read spec = .ok declaration ∧
    d.states.map (·.name) = declaration.allowed.getD declaration.mentioned
  states_nodup : d.stateNames.Nodup
  stateNames_eq : d.stateNames = d.states.map (·.name)
  initial_mem : d.initialState ∈ d.stateNames
  events_declared : d.events.map (·.name) = (Reading.events spec).map (·.1)
  events_nodup : d.eventNames.Nodup
  eventNames_eq : d.eventNames = d.events.map (·.name)
  records_ne_nil : ∀ event ∈ d.events, event.records ≠ []
  event_eq : ∀ event ∈ d.events, ∀ record ∈ event.records, record.event = event.name
  fromState_mem : ∀ event ∈ d.events, ∀ record ∈ event.records, record.fromState ∈ d.stateNames
  isGuarded_iff : ∀ event ∈ d.events, ∀ record ∈ event.records, record.isGuarded = true ↔
    ∃ guard, record.guards.doIf = some guard ∨ record.guards.doUnless = some guard
  unguarded_le_one : ∀ event ∈ d.events, ∀ name,
    ((event.records.filter (·.fromState == name)).filter fun record => !record.isGuarded).length ≤ 1
  states_filled : d.states = d.records.foldl (State.index d.stateNames) (d.stateNames.map State.bare)
  exits_eq : ∀ state ∈ d.states, state.exits = d.records.filter (·.fromState == state.name)
  enters_eq : ∀ state ∈ d.states, state.enters = d.records.filter (·.toState == state.name)
  exits_event : ∀ state ∈ d.states, ∀ event,
    state.exits.filter (·.event == event) = d.recordsFor event (some state.name)
  exits_reading : ∀ state ∈ d.states,
    state.exits = d.eventNames.flatMap fun event => Reading.recordsIn spec event state.name

/-- The records of an event are those that are found for it. -/
theorem records_eq_recordsFor (hnodup : d.eventNames.Nodup) {event : Event} (hevent : event ∈ d.events)
    (source : Option String) :
    d.recordsFor event.name source = event.records.filter fun r => source.all (r.fromState == ·) := by
  unfold recordsFor
  rw [find_event hnodup hevent]

/-- **The records of an event among those of all events** are those that are found for it, in their order. -/
theorem filter_records (hnodup : d.eventNames.Nodup) (hnamed : d.Named) (name : String) :
    d.records.filter (·.event == name) = d.recordsFor name none := by
  have hnone : ∀ event ∈ d.events, event.name ≠ name → event.records.filter (·.event == name) = [] :=
    fun event hevent hne => List.filter_eq_nil_iff.2 fun r hr => by
      rw [hnamed event hevent r hr]
      simpa using hne
  by_cases hname : ∃ event ∈ d.events, event.name = name
  · obtain ⟨event, hevent, rfl⟩ := hname
    obtain ⟨before, after, hsplit⟩ := List.append_of_mem hevent
    -- the events on both sides have other names
    have hothers : ∀ other ∈ before ++ after, other.name ≠ event.name := by
      rw [eventNames, hsplit, List.map_append, List.map_cons] at hnodup
      have hmiddle := (List.nodup_cons.1 (List.nodup_middle.1 hnodup)).1
      rw [← List.map_append] at hmiddle
      exact fun other hother heq => hmiddle (heq ▸ List.mem_map_of_mem hother)
    have hside : ∀ side : List Event, side ⊆ before ++ after →
        side.flatMap (fun e => e.records.filter (·.event == event.name)) = [] := fun side hside =>
      List.flatMap_eq_nil_iff.2 fun other hother => hnone other
        (by rw [hsplit]; simpa using (List.mem_append.1 (hside hother)).imp_right .inr)
        (hothers other (hside hother))
    have hall : event.records.filter (·.event == event.name) = event.records :=
      List.filter_eq_self.2 fun r hr => by rw [hnamed event hevent r hr]; exact BEq.rfl
    rw [records_eq_recordsFor hnodup hevent, records, List.filter_flatMap, hsplit, List.flatMap_append,
      List.flatMap_cons, hside before (List.subset_append_left ..), hside after (List.subset_append_right ..),
      hall]
    simp
  · have hfind : d.events.find? (·.name == name) = none :=
      List.find?_eq_none.2 fun event hevent heq => hname ⟨event, hevent, by simpa using heq⟩
    rw [recordsFor, hfind, records, List.filter_flatMap]
    exact List.flatMap_eq_nil_iff.2 fun event hevent => hnone event hevent fun heq => hname ⟨event, hevent, heq⟩

/-- The records that leave a state, among those of all events, are what the value says of each event in turn. -/
theorem filter_records_reading (h : Definition.compile spec inline = .ok d) (hnodup : d.eventNames.Nodup)
    {name : String} (hname : name ∈ d.stateNames) :
    d.records.filter (·.fromState == name) =
      d.eventNames.flatMap fun event => Reading.recordsIn spec event name := by
  rw [records, List.filter_flatMap, eventNames, List.flatMap_map]
  refine List.flatMap_congr fun event hevent => ?_
  have hread := Definition.recordsFor_in h event.name hname
  rw [records_eq_recordsFor hnodup hevent] at hread
  exact hread

/-- Every event of a compiled definition has records, and leaves no state unguarded in two ways. -/
theorem compile_events (h : Definition.compile spec inline = .ok d) : ∀ event ∈ d.events,
    event.records ≠ [] ∧ Record.clash? [] event.records = none := by
  obtain ⟨declaration, -, h⟩ := except_bind_eq_ok.1 h
  obtain ⟨known, -, h⟩ := except_bind_eq_ok.1 h
  obtain ⟨events, hevents, h⟩ := except_bind_eq_ok.1 h
  obtain ⟨hooks, -, h⟩ := except_bind_eq_ok.1 h
  obtain ⟨attached, -, h⟩ := except_bind_eq_ok.1 h
  cases h
  refine forall_of_mapM (fun declared event hcompiled => ?_) declaration.events hevents
  obtain ⟨hne, hclash, rfl⟩ := EventDeclaration.compile_eq_ok.1 hcompiled
  exact ⟨hne, hclash⟩

end Definition

/-- **The tables of every compiled definition fit.** No event and no state is there twice, and each record stands
in the table of states exactly where its states say, in the order of events and of the records of each. -/
theorem compile_indexed (hs : spec.WellFormed) (h : Definition.compile spec inline = .ok d) : d.Indexed spec := by
  obtain ⟨hstates, hinitial, hrecords⟩ := Definition.compile_states h
  have hnames := Definition.eventNames_compile h
  have hevents : d.eventNames.Nodup := hnames ▸ Reading.events_nodup hs
  have hnamed := Definition.compile_named h
  have htable := Definition.states_compile h
  have hentry : ∀ state ∈ d.states, state = State.ofRecords d.records state.name := by
    intro state hstate
    rw [htable] at hstate
    obtain ⟨name, -, rfl⟩ := List.mem_map.1 hstate
    rfl
  have hexits : ∀ state ∈ d.states, state.exits = d.records.filter (·.fromState == state.name) :=
    fun state hstate => congrArg State.exits (hentry state hstate)
  refine
    { states_declared := ?_
      states_nodup := hstates
      stateNames_eq := rfl
      initial_mem := hinitial
      events_declared := hnames
      events_nodup := hevents
      eventNames_eq := rfl
      records_ne_nil := fun event hevent => (Definition.compile_events h event hevent).1
      event_eq := hnamed
      fromState_mem := fun event hevent record hrecord => (hrecords event hevent record hrecord).1
      isGuarded_iff := fun event _ record _ => ?_
      unguarded_le_one := fun event hevent => clash_iff.1 (Definition.compile_events h event hevent).2
      states_filled := htable.trans (State.table_eq hstates d.records).symm
      exits_eq := hexits
      enters_eq := fun state hstate => congrArg State.enters (hentry state hstate)
      exits_event := fun state hstate event => ?_
      exits_reading := fun state hstate => ?_ }
  · obtain ⟨declaration, hread, hknown, -⟩ := Definition.compile_eq_ok h
    exact ⟨declaration, hread, Declaration.stateNames_eq hknown⟩
  · unfold Record.isGuarded Guards.any
    rw [Bool.or_eq_true, Option.isSome_iff_exists, Option.isSome_iff_exists, ← exists_or]
  · -- it does not matter whether the state or the event is looked for first
    rw [hexits state hstate, List.filter_comm, Definition.filter_records hevents hnamed]
    unfold Definition.recordsFor
    cases d.events.find? (·.name == event) with
    | none => rfl
    | some found => simp
  · rw [hexits state hstate]
    exact Definition.filter_records_reading h hevents (List.mem_map_of_mem hstate)

/-- The heater runs from each of its three states, and it gets on in four of its six records. -/
theorem compile_indexed_heater :
    Heater.spec.WellFormed ∧ Definition.compile Heater.spec [] = .ok Heater.definition ∧
      Heater.definition.Indexed Heater.spec ∧
      ∃ state ∈ Heater.definition.states, state.name = "off" ∧
        state.exits = [Heater.warming, Heater.powered "off", Heater.powered "off"] ∧ state.enters = [] := by
  have hs : Heater.spec.WellFormed := by
    simp [Heater.spec, Json.WellFormed, Json.MembersWellFormed, Json.AllWellFormed]
  exact ⟨hs, Heater.compile_spec, compile_indexed hs Heater.compile_spec,
    State.ofRecords Heater.records "off", List.mem_map_of_mem (by decide), rfl, rfl, rfl⟩

end StateEngine
