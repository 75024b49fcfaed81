import Mathlib.Data.List.Nodup
import Mathlib.Tactic.Tauto
import StateEngine.Machine.Entering
import StateEngine.Proofs.ErrorEvent
import StateEngine.Proofs.Known
import StateEngine.Proofs.Selection

/-!
# What it takes to enter a state

A state can be entered, as the machine answers, if one of the records that lead there passes. An event leads
there if the first of its records that pass does. So every state that an event leads to can be entered, but not
the other way round: a record that passes may come after another one of its event, which leads elsewhere.

* `firstPassing_alone`: with guards that are predicates the search finds the first record that passes.
* `Definition.mem_between`: the records between two states are those that some event has.
* `canEnter_iff`: **when a state can be entered, and when no event leads there although it can**.
-/

namespace StateEngine

section

variable {κ φ α β : Type} {m : Machine κ φ} {answers : (request : Request κ φ) → request.Reply}
  {holds : String → String → Bool} {state target event : String} {args : List Json} {record : Record}

/-! ## Programs alone -/

theorem Program.alone_bind (p : Program κ φ α) (f : α → Program κ φ β) (m : Machine κ φ) :
    (p >>= f).alone answers m = (f (p.alone answers m).1).alone answers (p.alone answers m).2 := by
  change (p.bind f).alone answers m = _
  induction p generalizing m with
  | done a => rfl
  | look next ih => exact ih m m
  | change c next ih => exact ih (c.apply m)
  | ask request resume ih => exact ih (answers request) m

theorem Program.alone_look (m : Machine κ φ) :
    (StateEngine.look : Program κ φ (Machine κ φ)).alone answers m = (m, m) := rfl

theorem checkGuard_alone (hg : GuardsAre holds answers) (name state : String) (m : Machine κ φ) :
    (checkGuard name state).alone answers m = (.ok (holds name state), m) := by
  have hask : (ask (.guard name state)).alone answers m = (some (holds name state), m) :=
    congrArg (·, m) (hg name state)
  rw [checkGuard, Program.alone_bind, hask]
  rfl

theorem passesUnless_alone (hg : GuardsAre holds answers) (guards : Guards) (state : String)
    (m : Machine κ φ) :
    (passesUnless guards state).alone answers m =
      (.ok (guards.doUnless.any (!holds · state)), m) := by
  unfold passesUnless
  cases guards.doUnless with
  | none => rfl
  | some name =>
    dsimp only
    rw [Program.alone_bind, checkGuard_alone hg]
    rfl

theorem passes_alone (hg : GuardsAre holds answers) (guards : Guards) (state : String) (m : Machine κ φ) :
    (passes guards state).alone answers m = (.ok (guards.pass holds state), m) := by
  have hunless := passesUnless_alone hg guards state m
  unfold passes Guards.pass
  cases guards.doIf with
  | none => exact hunless
  | some name =>
    dsimp only
    rw [Program.alone_bind, checkGuard_alone hg, Option.any_some]
    cases holds name state with
    | true => rfl
    | false => exact hunless

/-- **With guards that are predicates the search finds the first record that passes.** -/
theorem firstPassing_alone (hg : GuardsAre holds answers) (state : String) (records : List Record)
    (m : Machine κ φ) :
    (firstPassing state records).alone answers m = (.ok (records.find? (·.passes holds state)), m) := by
  induction records with
  | nil => rfl
  | cons record rest ih =>
    unfold firstPassing
    rw [List.find?_cons, Record.passes]
    cases record.isGuarded with
    | false => rfl
    | true =>
      rw [if_pos rfl, Program.alone_bind, passes_alone hg]
      cases record.guards.pass holds state with
      | true => rfl
      | false => exact ih

/-- Whether a state can be entered is whether one of the records that lead there passes. -/
theorem canEnter_alone (hg : GuardsAre holds answers) (target : String) (m : Machine κ φ) :
    (canEnter target).alone answers m =
      (.ok ((m.definition.between m.state target).find? (·.passes holds m.state)).isSome, m) := by
  rw [canEnter, Program.alone_bind, Program.alone_look, Program.alone_bind, firstPassing_alone hg]
  rfl

/-- An event resolves to the first of its records that pass. -/
theorem resolve_alone (hg : GuardsAre holds answers) (event : String) (m : Machine κ φ) :
    ∃ resolved, (resolve event).alone answers m = (resolved, m) ∧
      resolved.toOption = (m.candidates event).find? (·.passes holds m.state) := by
  rw [resolve, Program.alone_bind, Program.alone_look, Machine.candidates]
  dsimp only
  cases hc : m.definition.recordsFor event (some m.state) with
  | nil => exact ⟨_, rfl, rfl⟩
  | cons first others =>
    dsimp only
    rw [Program.alone_bind, firstPassing_alone hg]
    cases List.find? (·.passes holds m.state) (first :: others) with
    | none => exact ⟨_, rfl, rfl⟩
    | some record => exact ⟨_, rfl, rfl⟩

/-- **An event leads where the first of its records leads that pass.** -/
theorem Machine.leads_iff (hg : GuardsAre holds answers) :
    m.Leads answers event args target ↔
      ∃ record, (m.candidates event).find? (·.passes holds m.state) = some record ∧
        record.toState = target := by
  obtain ⟨resolved, hresolve, hfound⟩ := resolve_alone hg event m
  unfold Leads
  rw [transitionFor, Program.alone_bind, hresolve, ← hfound]
  cases resolved with
  | error error =>
    constructor
    · rintro ⟨_, _, _, h, -⟩
      cases h
    · rintro ⟨_, h, -⟩
      cases h
  | ok record =>
    have hadded : (m.addTransition (.fresh record args)).transition? m.nextTransition =
        some (.fresh record args) := List.getElem?_concat_length
    constructor
    · rintro ⟨id, after, t, h, ht, htarget⟩
      cases h
      cases hadded.symm.trans ht
      exact ⟨record, rfl, htarget⟩
    · rintro ⟨_, ⟨⟩, htarget⟩
      exact ⟨_, _, _, rfl, hadded, htarget⟩

/-! ## The records between two states -/

theorem Json.MembersWellFormed.lookup {members : Members} (h : MembersWellFormed members) {key : String}
    {value : Json} (hl : members.lookup key = some value) : value.WellFormed := by
  induction members with
  | nil => exact nomatch hl
  | cons member rest ih =>
    obtain ⟨k, v⟩ := member
    rw [List.lookup_cons] at hl
    split at hl
    · cases hl
      exact h.1
    · exact ih h.2 hl

/-- A well formed value declares no event twice. -/
theorem Reading.events_nodup {spec : Json} (h : spec.WellFormed) : ((events spec).map (·.1)).Nodup := by
  cases spec with
  | object root =>
    change ((members ((root.lookup "events").getD .null)).map (·.1)).Nodup
    cases hl : root.lookup "events" with
    | none => exact List.nodup_nil
    | some value =>
      have hvalue := h.2.lookup hl
      cases value with
      | object members => exact hvalue.1
      | _ => exact List.nodup_nil
  | _ => exact List.nodup_nil

/-- The machine of a well formed value has each event once. -/
theorem Machine.eventNames_nodup {spec : Json} {inline : List (InlineHook κ)} {targetName : String}
    {idText : TransitionId → String} {initialState : Option String} {listeners : Nat} (hs : spec.WellFormed)
    (hb : Machine.build spec inline targetName idText initialState listeners = .ok m) :
    m.definition.eventNames.Nodup := by
  have hcompile := Machine.compile_of_build hb
  have hnodup := Reading.events_nodup hs
  rw [Definition.eventNames_compile hcompile]
  by_cases hhas : errorEvent ∈ (Reading.events spec).map (·.1)
  · rwa [withErrorEvent_eq_self hhas]
  · rw [(Reading.LacksError.of_compile hhas hcompile).events_eq, List.map_append]
    refine List.Nodup.append hnodup (List.nodup_singleton _) fun name hname herror => ?_
    have heq : name = errorEvent := List.mem_singleton.1 herror
    exact hhas (heq ▸ hname)

namespace Definition

variable {d : Definition κ} {spec : Json} {inline : List (InlineHook κ)}

/-- Each state of a compiled definition has the records of all events that start there or lead there. -/
theorem states_compile (h : Definition.compile spec inline = .ok d) :
    d.states = d.stateNames.map (State.ofRecords (d.events.flatMap (·.records))) := by
  obtain ⟨declaration, hread, h⟩ := except_bind_eq_ok.1 h
  obtain ⟨known, hknown, h⟩ := except_bind_eq_ok.1 h
  obtain ⟨events, -, h⟩ := except_bind_eq_ok.1 h
  obtain ⟨hooks, -, h⟩ := except_bind_eq_ok.1 h
  obtain ⟨attached, -, h⟩ := except_bind_eq_ok.1 h
  cases h
  have hnodup := Declaration.nodup_stateNames hread hknown
  have hnames := State.name_table hnodup (events.flatMap (·.records))
  refine (State.table_eq hnodup (events.flatMap (·.records))).trans ?_
  exact congrArg (List.map _) hnames.symm

/-- The records between two states are among those of the events. -/
theorem mem_between_iff_declared (h : Definition.compile spec inline = .ok d) :
    record ∈ d.between state target ↔
      (record.fromState = state ∧ ∃ event ∈ d.events, record ∈ event.records) ∧ record.toState = target := by
  unfold between lookupState
  cases hf : d.states.find? (·.name == state) with
  | none =>
    refine ⟨fun hr => (nomatch hr), ?_⟩
    rintro ⟨⟨rfl, event, hevent, hr⟩, -⟩
    -- no record starts at a state that the definition lacks
    obtain ⟨found, hfound, hname⟩ :=
      List.mem_map.1 (((Definition.compile_states h).2.2 event hevent record hr).1)
    exact absurd hname (by simpa using List.find?_eq_none.1 hf found hfound)
  | some found =>
    have hmem := List.mem_of_find?_eq_some hf
    rw [states_compile h] at hmem
    obtain ⟨name, -, rfl⟩ := List.mem_map.1 hmem
    have hname : name = state := by simpa [State.ofRecords] using List.find?_some hf
    simp only [State.ofRecords, hname, List.mem_filter, List.mem_flatMap, beq_iff_eq]
    tauto

/-- An event is found under its name, if no other one has the same. -/
theorem find_event (hnodup : d.eventNames.Nodup) {event : Event} (hevent : event ∈ d.events) :
    d.events.find? (·.name == event.name) = some event := by
  cases hf : d.events.find? (·.name == event.name) with
  | none => exact absurd (List.find?_eq_none.1 hf event hevent) (by simp)
  | some found =>
    have hname : found.name = event.name := by simpa using List.find?_some hf
    exact congrArg some (List.inj_on_of_nodup_map hnodup (List.mem_of_find?_eq_some hf) hevent hname)

theorem fromState_of_recordsFor {name : String} (h : record ∈ d.recordsFor name (some state)) :
    record.fromState = state := by
  unfold recordsFor at h
  split at h
  · exact nomatch h
  · simpa using (List.mem_filter.1 h).2

/-- **The records between two states** are those that lead from one to the other, whichever event they are
found for. -/
theorem mem_between (h : Definition.compile spec inline = .ok d) (hnodup : d.eventNames.Nodup) :
    record ∈ d.between state target ↔
      (∃ event, record ∈ d.recordsFor event (some state)) ∧ record.toState = target := by
  rw [mem_between_iff_declared h]
  refine and_congr_left fun _ => ⟨?_, ?_⟩
  · rintro ⟨rfl, event, hevent, hr⟩
    refine ⟨event.name, ?_⟩
    unfold recordsFor
    rw [find_event hnodup hevent]
    exact List.mem_filter.2 ⟨hr, by simp⟩
  · rintro ⟨name, hr⟩
    obtain ⟨event, hevent, -, hrecord⟩ := Definition.mem_of_recordsFor hr
    exact ⟨Definition.fromState_of_recordsFor hr, event, hevent, hrecord⟩

end Definition

/-! ## What it takes -/

/-- Some event leads to a state exactly if a record leads there before which no other one of its event
passes. -/
theorem Machine.exists_leads_iff (hg : GuardsAre holds answers) :
    (∃ event, m.Leads answers event args target) ↔
      ∃ event before record after, m.candidates event = before ++ record :: after ∧
        record.toState = target ∧ record.passes holds m.state = true ∧
        ∀ other ∈ before, other.passes holds m.state = false := by
  refine exists_congr fun event => ?_
  rw [leads_iff hg]
  constructor
  · rintro ⟨record, hfind, htarget⟩
    obtain ⟨hpasses, before, after, hsplit, hbefore⟩ := List.find?_eq_some_iff_append.1 hfind
    exact ⟨before, record, after, hsplit, htarget, hpasses, fun other ho => by simpa using hbefore other ho⟩
  · rintro ⟨before, record, after, hsplit, htarget, hpasses, hbefore⟩
    refine ⟨record, List.find?_eq_some_iff_append.2 ⟨hpasses, before, after, hsplit, ?_⟩, htarget⟩
    exact fun other ho => by simpa using hbefore other ho

/-- No record passes, or there is a first one that does. -/
theorem exists_first_passing (holds : String → String → Bool) (state : String) (records : List Record) :
    (∀ other ∈ records, other.passes holds state = false) ∨
      ∃ first other rest, records = first ++ other :: rest ∧ other.passes holds state = true ∧
        ∀ r ∈ first, r.passes holds state = false := by
  cases hf : records.find? (·.passes holds state) with
  | none => exact .inl fun other ho => by simpa using List.find?_eq_none.1 hf other ho
  | some other =>
    obtain ⟨hother, first, rest, rfl, hfirst⟩ := List.find?_eq_some_iff_append.1 hf
    exact .inr ⟨first, other, rest, rfl, hother, fun r hr => by simpa using hfirst r hr⟩

/-- No event leads to a state that can be entered exactly if all records that would lead there are
displaced. -/
theorem Machine.displaces_iff (hg : GuardsAre holds answers) :
    m.Displaces holds target ↔ ¬∃ event, m.Leads answers event args target := by
  rw [exists_leads_iff hg]
  constructor
  · rintro hdisplaces ⟨event, before, record, after, hsplit, htarget, hpasses, hbefore⟩
    obtain ⟨other, hother, hpass, -⟩ := hdisplaces event before record after hsplit htarget hpasses
    exact Bool.false_ne_true ((hbefore other hother).symm.trans hpass)
  · intro hnone event before record after hsplit htarget hpasses
    rcases exists_first_passing holds m.state before with
      hbefore | ⟨first, other, rest, rfl, hother, hfirst⟩
    · exact absurd ⟨event, before, record, after, hsplit, htarget, hpasses, hbefore⟩ hnone
    · refine ⟨other, List.mem_append_right _ List.mem_cons_self, hother, fun hleads => hnone ?_⟩
      refine ⟨event, first, other, rest ++ record :: after, ?_, hleads, hother, hfirst⟩
      rw [hsplit, List.append_assoc, List.cons_append]

/-- **When a state can be entered**, with guards that are predicates of the state: exactly if a record that
some event has in the current state leads there and passes. Every state that an event leads to can be entered.
The converse fails exactly if each of the records that pass comes after one of the same event that passes too,
and that leads elsewhere. -/
theorem canEnter_iff {spec : Json} {inline : List (InlineHook κ)} {targetName : String}
    {idText : TransitionId → String} {initialState : Option String} {listeners : Nat} (hs : spec.WellFormed)
    (hb : Machine.build spec inline targetName idText initialState listeners = .ok m) {w : World κ φ}
    (h : Reaches m w) (hg : GuardsAre holds answers) (target : String) (args : List Json) :
    ∃ enters, (canEnter target).alone answers w.machine = (.ok enters, w.machine) ∧
      (enters = true ↔ w.machine.Admits holds target) ∧
      ((∃ event, w.machine.Leads answers event args target) → enters = true) ∧
      ((enters = true ↔ ∃ event, w.machine.Leads answers event args target) ↔
        ¬(w.machine.Admits holds target ∧ w.machine.Displaces holds target)) := by
  have hdefinition : w.machine.definition = m.definition := h.sound.trail.definition_eq
  have hadmits : ((w.machine.definition.between w.machine.state target).find?
      (·.passes holds w.machine.state)).isSome = true ↔ w.machine.Admits holds target := by
    simp only [List.find?_isSome, hdefinition, Machine.Admits, Machine.candidates,
      Definition.mem_between (Machine.compile_of_build hb) (Machine.eventNames_nodup hs hb)]
    constructor
    · rintro ⟨record, ⟨⟨event, hr⟩, htarget⟩, hpasses⟩
      exact ⟨event, record, hr, htarget, hpasses⟩
    · rintro ⟨event, record, hr, htarget, hpasses⟩
      exact ⟨record, ⟨⟨event, hr⟩, htarget⟩, hpasses⟩
  have hleads : (∃ event, w.machine.Leads answers event args target) → w.machine.Admits holds target := by
    rw [Machine.exists_leads_iff hg]
    rintro ⟨event, before, record, after, hsplit, htarget, hpasses, -⟩
    exact ⟨event, record, hsplit ▸ List.mem_append_right _ List.mem_cons_self, htarget, hpasses⟩
  refine ⟨_, canEnter_alone hg target w.machine, hadmits, fun hl => hadmits.2 (hleads hl), ?_⟩
  -- the converse fails if the state is admitted and no event leads there, and only then
  have hdisplaces : w.machine.Displaces holds target ↔ ¬∃ event, w.machine.Leads answers event args target :=
    Machine.displaces_iff hg
  rw [hadmits, hdisplaces]
  tauto

end

namespace Fork

/-- A fork that leads to the left if the way is clear, and else to the right. -/
def spec : Json := .object [
  ("states", .object [("initialState", .string "off")]),
  ("events", .object [("go", .object [("transitions", .array [
    .object [("off", .string "left"), ("guard", .string "clear")],
    .object [("off", .string "right")]])])])]

def records : List Record :=
  [⟨"go", "off", "left", ⟨some "clear", none⟩, .ofFn fun _ => []⟩,
    ⟨"go", "off", "right", .none, .ofFn fun _ => []⟩]

def events : List Event :=
  [⟨"go", records⟩,
    ⟨"error", ["off", "left", "right", "failed"].map Reading.failure⟩]

def machine : Machine Unit Unit :=
  .start ⟨"off", ["off", "left", "right", "failed"].map (State.ofRecords (events.flatMap (·.records))), events, []⟩
    "fork" toString "off" 0

theorem build_spec : Machine.build spec [] "fork" toString none 0 = .ok machine := rfl

/-- The way is clear. -/
def answers : (request : Request Unit Unit) → request.Reply
  | .guard _ _ => some true
  | .callback _ => none
  | .call _ _ => .unit
  | .poll _ => .settled (.ok .null)
  | .notify _ _ => ()

theorem guardsAre : GuardsAre (fun _ _ => true) answers := fun _ _ => rfl

theorem candidates_eq (event : String) : machine.candidates event =
    if event = "go" then records else if event = "error" then [Reading.failure "off"] else [] := by
  unfold Machine.candidates Definition.recordsFor
  rw [show machine.definition.events = events from rfl]
  split_ifs with hgo herror
  · subst hgo
    rfl
  · subst herror
    rfl
  · rw [List.find?_eq_none.2]
    intro found hfound
    rcases List.mem_cons.1 hfound with rfl | hfound
    · simpa using Ne.symm hgo
    · rw [List.mem_singleton.1 hfound]
      simpa using Ne.symm herror

/-- The left comes first. -/
theorem displaces : machine.Displaces (fun _ _ => true) "right" := by
  intro event before record after hsplit htarget _
  rw [candidates_eq] at hsplit
  cases before with
  | nil =>
    split_ifs at hsplit <;> cases hsplit <;> exact absurd htarget (by decide)
  | cons other rest =>
    refine ⟨other, List.mem_cons_self, ?_⟩
    split_ifs at hsplit
    · obtain ⟨hother, -⟩ := List.cons.inj hsplit
      rw [← hother]
      exact ⟨rfl, by decide⟩
    · obtain ⟨-, hrest⟩ := List.cons.inj hsplit
      simp at hrest
    · exact nomatch hsplit

end Fork

/-- The right can be entered although the way to the left is clear, and no event leads there. -/
theorem canEnter_iff_fork :
    Fork.spec.WellFormed ∧ Machine.build Fork.spec [] "fork" toString none 0 = .ok Fork.machine ∧
      Reaches Fork.machine (.start Fork.machine) ∧ GuardsAre (fun _ _ => true) Fork.answers ∧
      (canEnter "right").alone Fork.answers Fork.machine = (.ok true, Fork.machine) ∧
      ¬∃ event, Fork.machine.Leads Fork.answers event [] "right" := by
  have hs : Fork.spec.WellFormed := by
    simp [Fork.spec, Json.WellFormed, Json.MembersWellFormed, Json.AllWellFormed]
  have hright : (canEnter "right").alone Fork.answers Fork.machine = (.ok true, Fork.machine) := rfl
  obtain ⟨enters, hruns, hadmits, -, hiff⟩ :=
    canEnter_iff hs Fork.build_spec Reaches.start Fork.guardsAre "right" []
  have henters : enters = true := by
    rw [show (World.start Fork.machine).machine = Fork.machine from rfl, hright] at hruns
    simpa using hruns.symm
  refine ⟨hs, Fork.build_spec, .start, Fork.guardsAre, hright, fun hleads => ?_⟩
  exact hiff.1 (iff_of_true henters hleads) ⟨hadmits.1 henters, Fork.displaces⟩

end StateEngine
