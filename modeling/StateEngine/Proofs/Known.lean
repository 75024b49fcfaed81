import StateEngine.Proofs.Commit
import StateEngine.Proofs.Reading

/-!
# States that the definition knows

A machine starts in a state of its definition, and is only ever set to one. A commit is not checked:
it leads where its record leads. That is a state as well, but for a record that was declared to lead to
the name that stands for every state. This name is taken for a state then, and the definition has none
of that name.

* `Definition.lookupState_iff`: the states that are found are those that the definition lists.
* `Machine.build_states`: where a machine starts, and where its records lead.
* `state_known_iff`: **the current state is known exactly if** the last move was no commit of such a
  record.
-/

namespace StateEngine

variable {κ φ : Type} {m : Machine κ φ}

theorem Definition.lookupState_iff {d : Definition κ} {name : String} :
    (∃ state, d.lookupState name = .ok state) ↔ name ∈ d.stateNames := by
  constructor
  · rintro ⟨state, h⟩
    exact List.contains_iff_mem.1 (Definition.hasState_of_lookupState h)
  · intro h
    obtain ⟨state, hstate, rfl⟩ := List.mem_map.1 h
    unfold lookupState
    cases hf : d.states.find? (·.name == state.name) with
    | some found => exact ⟨found, rfl⟩
    | none => exact absurd (List.find?_eq_none.1 hf state hstate) (by simp)

/-! ## What was built -/

/-- The records of an event are among those of the events of the definition. -/
theorem Definition.mem_of_recordsFor {d : Definition κ} {name : String} {source : Option String}
    {record : Record} (h : record ∈ d.recordsFor name source) :
    ∃ event ∈ d.events, event.name = name ∧ record ∈ event.records := by
  unfold recordsFor at h
  cases hf : d.events.find? (·.name == name) with
  | none => rw [hf] at h; exact nomatch h
  | some event =>
    rw [hf] at h
    have hname : event.name = name := by simpa using List.find?_some hf
    exact ⟨event, List.mem_of_find?_eq_some hf, hname, (List.mem_filter.1 h).1⟩

theorem Definition.startState_mem {d : Definition κ} {initial : Option String} {state : String}
    (h : d.startState initial = .ok state) (hd : d.initialState ∈ d.stateNames) :
    state ∈ d.stateNames := by
  unfold startState at h
  cases initial with
  | none =>
    cases h
    exact hd
  | some name =>
    dsimp only at h
    split at h
    · rename_i hname
      cases h
      exact List.contains_iff_mem.1 hname
    · exact nomatch h

/-- **A machine that was built** starts in a state of its definition, and its records lead to such
states, unless they were declared to lead to the name that stands for every state. -/
theorem Machine.build_states {spec : Json} {inline : List (InlineHook κ)} {targetName : String}
    {idText : TransitionId → String} {initialState : Option String} {listeners : Nat}
    (h : Machine.build spec inline targetName idText initialState listeners = .ok m) :
    m.state ∈ m.definition.stateNames ∧ ∀ record, m.definition.Declares record →
      record.toState ∈ m.definition.stateNames ∨ record.toState = everyState := by
  have hcompile := Machine.compile_of_build h
  obtain ⟨definition, -, h⟩ := except_bind_eq_ok.1 h
  obtain ⟨state, hstate, h⟩ := except_bind_eq_ok.1 h
  cases h
  obtain ⟨-, hinitial, hrecords⟩ := Definition.compile_states hcompile
  refine ⟨Definition.startState_mem hstate hinitial, ?_⟩
  rintro record ⟨event, hr⟩
  obtain ⟨found, hfound, -, hrecord⟩ := Definition.mem_of_recordsFor hr
  exact (hrecords found hfound record hrecord).2

/-! ## Moves -/

/-- Whether a deed moved the machine: a commit, or setting its state. -/
def Deed.moves (d : Deed κ φ) : Bool := d.commit?.isSome || d.setsState

/-- The last deed that moved the machine. -/
def Scene.lastMove? (s : Scene κ φ) : Option (Deed κ φ) := (s.trace.filter Deed.moves).getLast?

/-- Whether the last move was a commit of a record that leads to the name that stands for every
state. -/
def Scene.Astray (s : Scene κ φ) : Prop :=
  ∃ before f i record, s.lastMove? = some (.changed before (.commit f i record)) ∧
    record.toState = everyState

theorem Scene.lastMove_of_moves {s : Scene κ φ} {c : Change φ}
    (h : (Deed.changed s.machine c).moves = true) :
    (s.make c).lastMove? = some (.changed s.machine c) := by
  unfold lastMove? make
  rw [List.filter_append, List.filter_cons_of_pos h, List.filter_nil, List.getLast?_concat]

theorem Scene.lastMove_of_still {s : Scene κ φ} {c : Change φ}
    (h : (Deed.changed s.machine c).moves = false) : (s.make c).lastMove? = s.lastMove? := by
  unfold lastMove? make
  rw [List.filter_append, List.filter_cons_of_neg (by rw [h]; exact Bool.noConfusion),
    List.filter_nil, List.append_nil]

theorem Scene.lastMove_ask (s : Scene κ φ) (request : Request κ φ) :
    (s.ask request).lastMove? = s.lastMove? := by
  unfold lastMove? ask
  rw [List.filter_append]
  simp [Deed.moves, Deed.commit?, Deed.setsState]

/-- A change that moves nothing leaves the state alone. -/
theorem Change.moves_cases (c : Change φ) :
    ((c.apply m).state = m.state ∧ (Deed.changed m c).moves = false) ∨
      (∃ name, c = .setState name) ∨ ∃ f i record, c = .commit f i record := by
  rcases c.state_cases (m := m) with ⟨hs, -, hn⟩ | hset | hcommit
  · cases hset : (Deed.changed m c).setsState with
    | false => exact .inl ⟨hs, by simp [Deed.moves, hn, hset]⟩
    | true =>
      cases c with
      | setState name => exact .inr (.inl ⟨name, rfl⟩)
      | _ => exact nomatch hset
  · exact .inr (.inl hset)
  · exact .inr (.inr hcommit)

variable {definition : Definition κ} {targetName state : String} {idText : TransitionId → String} {listeners : Nat}

/-- **Where the machine is**: in a state of its definition, unless a commit led it astray, and then a
record was declared to lead there. -/
theorem Trail.state_cases {s : Scene κ φ}
    (h : Trail (.start definition targetName idText state listeners) s)
    (hstart : state ∈ definition.stateNames)
    (hrecords : ∀ record, definition.Declares record →
      record.toState ∈ definition.stateNames ∨ record.toState = everyState) :
    (s.machine.state ∈ definition.stateNames ∧ ¬ s.Astray) ∨
      (s.machine.state = everyState ∧ s.Astray ∧
        ∃ record, definition.Declares record ∧ record.toState = everyState) := by
  induction h with
  | start => exact .inl ⟨hstart, fun ⟨_, _, _, _, h, _⟩ => nomatch h⟩
  | @ask s request _ _ ih =>
    unfold Scene.Astray
    rw [s.lastMove_ask request]
    exact ih
  | @make s own c ht hc ih =>
    rcases c.moves_cases (m := s.machine) with ⟨hs, hn⟩ | ⟨name, rfl⟩ | ⟨f, i, record, rfl⟩
    · -- nothing moves
      unfold Scene.Astray
      rw [Scene.lastMove_of_still hn, show (s.make c).machine.state = _ from hs]
      exact ih
    · -- the state is only set to one of the definition
      have hmove := Scene.lastMove_of_moves (s := s) (c := .setState name) rfl
      cases hc with
      | setState hname =>
        rw [ht.definition_eq] at hname
        refine .inl ⟨List.contains_iff_mem.1 hname, ?_⟩
        rintro ⟨before, f, i, record, hlast, -⟩
        exact nomatch hmove.symm.trans hlast
    · -- a commit leads where its record was declared to lead
      have hmove := Scene.lastMove_of_moves (s := s) (c := .commit f i record) rfl
      cases hc with
      | commit _ _ _ hrec _ _ =>
        have hdeclared := ht.declares hrec
        by_cases hall : record.toState = everyState
        · exact .inr ⟨hall, ⟨s.machine, f, i, record, hmove, hall⟩, record, hdeclared, hall⟩
        · refine .inl ⟨(hrecords record hdeclared).resolve_right hall, ?_⟩
          rintro ⟨before, f', i', record', hlast, hall'⟩
          cases hmove.symm.trans hlast
          exact hall hall'

/-- **When the current state is known.** It is one of the definition, and is found there, exactly if the
last move was no commit of a record that was declared to lead to the name that stands for every state.
Only where the initial state has this very name it is a state. -/
theorem state_known_iff {spec : Json} {inline : List (InlineHook κ)} {initialState : Option String}
    (hb : Machine.build spec inline targetName idText initialState listeners = .ok m) {w : World κ φ}
    (h : Reaches m w) :
    (w.machine.state ∈ m.definition.stateNames ↔
        (w.scene.Astray → everyState ∈ m.definition.stateNames)) ∧
      ((∃ found, m.definition.lookupState w.machine.state = .ok found) ↔
        w.machine.state ∈ m.definition.stateNames) ∧
      (w.scene.Astray → w.machine.state = everyState ∧
        ∃ record, m.definition.Declares record ∧ record.toState = everyState) := by
  obtain ⟨hstart, hrecords⟩ := Machine.build_states hb
  obtain ⟨definition, state, rfl, -⟩ := Machine.build_eq_ok hb
  rcases h.sound.trail.state_cases hstart hrecords with ⟨hs, hn⟩ | ⟨hs, ha, hdeclared⟩
  · exact ⟨⟨fun _ ha => absurd ha hn, fun _ => hs⟩, Definition.lookupState_iff, fun ha => absurd ha hn⟩
  · refine ⟨⟨fun hknown _ => ?_, fun hall => ?_⟩, Definition.lookupState_iff, fun _ => ⟨hs, hdeclared⟩⟩
    · exact hs ▸ hknown
    · exact (show w.machine.state = _ from hs) ▸ hall ha

/-! ## A lamp -/

namespace Lamp

/-- A lamp that is to be turned on, but leads to every state. -/
def spec : Json := .object [
  ("states", .object [("initialState", .string "off")]),
  ("events", .object [("run", .object [("transition", .object [("off", .string everyState)])])])]

/-- The lamp, with nothing active and nobody who listens. -/
def machine : Machine Unit Unit :=
  let run : Record := Switch.record "run" "off" everyState []
  let error := ["off", "failed"].map fun state => Switch.record "error" state "failed" []
  .start ⟨"off", ["off", "failed"].map (State.ofRecords (run :: error)),
    [⟨"run", [run]⟩, ⟨"error", error⟩], []⟩ "lamp" toString "off" 0

theorem build_spec : Machine.build spec [] "lamp" toString none 0 = .ok machine := rfl

/-- The lamp is turned on. -/
def lit : World Unit Unit := ((World.start machine).begin (.send "run" [])).begin (.poll 0)

theorem reaches_lit : Reaches machine lit := (Reaches.start.begin (.send "run" [])).begin (.poll 0)

end Lamp

/-- The lamp that was turned on is in no state of its definition. -/
theorem state_known_iff_lit :
    Lamp.lit.scene.Astray ∧ Lamp.lit.machine.state = "$all" ∧
      Lamp.lit.machine.state ∉ Lamp.machine.definition.stateNames ∧
      ¬ ∃ found, Lamp.machine.definition.lookupState Lamp.lit.machine.state = .ok found := by
  have hastray : Lamp.lit.scene.Astray := ⟨_, _, _, _, rfl, rfl⟩
  obtain ⟨hknown, hfound, hstate⟩ := state_known_iff Lamp.build_spec Lamp.reaches_lit
  have hunknown : Lamp.lit.machine.state ∉ Lamp.machine.definition.stateNames := fun h =>
    absurd (hknown.1 h hastray) (by decide)
  exact ⟨hastray, (hstate hastray).1, hunknown, fun h => hunknown (hfound.1 h)⟩

end StateEngine
