import StateEngine.Machine.Build
import StateEngine.Proofs.Filling
import StateEngine.Proofs.Conduct

/-!
# Machines that were built

* `Machine.compile_of_build`: the definition of a machine that was built.
* `Machine.build_eq_ok`: a machine that was built is a fresh one, and its records know their events.
* `Definition.Declares.event`: a declared record is found under its own event.
* `Switch.build_spec`: a switch that the theorems are tried on.
-/

namespace StateEngine

variable {κ φ : Type}

/-- Whether every record carries the name of its event. -/
def Definition.Named (definition : Definition κ) : Prop :=
  ∀ event ∈ definition.events, ∀ record ∈ event.records, record.event = event.name

theorem except_bind_eq_ok {ε α β : Type} {x : Except ε α} {f : α → Except ε β} {b : β} :
    (x >>= f) = .ok b ↔ ∃ a, x = .ok a ∧ f a = .ok b := by
  cases x with
  | error error => exact ⟨fun h => (nomatch h), fun ⟨_, h, _⟩ => nomatch h⟩
  | ok a => exact ⟨fun h => ⟨a, rfl, h⟩, fun ⟨_, h, hf⟩ => Except.ok.inj h ▸ hf⟩

theorem forall_of_mapM {ε α β : Type} {f : α → Except ε β} {P : β → Prop}
    (hf : ∀ a b, f a = .ok b → P b) (l : List α) :
    ∀ {l' : List β}, l.mapM f = .ok l' → ∀ b ∈ l', P b := by
  induction l with
  | nil =>
    intro l' h
    cases h
    exact fun _ hb => nomatch hb
  | cons a rest ih =>
    intro l' h
    rw [List.mapM_cons] at h
    obtain ⟨b, hb, h⟩ := except_bind_eq_ok.1 h
    obtain ⟨bs, hbs, h⟩ := except_bind_eq_ok.1 h
    cases h
    exact List.forall_mem_cons.2 ⟨hf a b hb, ih hbs⟩

theorem EventDeclaration.records_named (known : List String) (event : EventDeclaration) :
    ∀ record ∈ event.records known, record.event = event.name := by
  intro record h
  obtain ⟨mapping, -, h⟩ := List.mem_flatMap.1 h
  obtain ⟨source, -, rfl⟩ := List.mem_map.1 h
  rfl

/-- An event compiles to its records, if it has some and they do not clash. -/
theorem EventDeclaration.compile_eq_ok {known : List String} {declaration : EventDeclaration}
    {event : Event} : declaration.compile known = .ok event ↔
      declaration.records known ≠ [] ∧ Record.clash? [] (declaration.records known) = none ∧
        event = ⟨declaration.name, declaration.records known⟩ := by
  unfold compile
  cases hr : declaration.records known with
  | nil => exact ⟨fun h => (nomatch h), fun h => absurd rfl h.1⟩
  | cons first rest =>
    cases hc : Record.clash? [] (first :: rest) with
    | some state => exact ⟨fun h => (nomatch h), fun h => nomatch h.2.1⟩
    | none =>
      refine ⟨fun h => ⟨List.cons_ne_nil _ _, rfl, (Except.ok.inj h).symm⟩, ?_⟩
      rintro ⟨-, -, rfl⟩
      rfl

theorem EventDeclaration.compile_named {known : List String} {declaration : EventDeclaration}
    {event : Event} (h : declaration.compile known = .ok event) :
    ∀ record ∈ event.records, record.event = event.name := by
  obtain ⟨-, -, rfl⟩ := EventDeclaration.compile_eq_ok.1 h
  exact declaration.records_named known

theorem Definition.compile_named {spec : Json} {inline : List (InlineHook κ)}
    {definition : Definition κ} (h : Definition.compile spec inline = .ok definition) :
    definition.Named := by
  obtain ⟨declaration, -, h⟩ := except_bind_eq_ok.1 h
  obtain ⟨known, -, h⟩ := except_bind_eq_ok.1 h
  obtain ⟨events, hevents, h⟩ := except_bind_eq_ok.1 h
  obtain ⟨declared, -, h⟩ := except_bind_eq_ok.1 h
  obtain ⟨attached, -, h⟩ := except_bind_eq_ok.1 h
  cases h
  exact forall_of_mapM (fun _ _ => EventDeclaration.compile_named) declaration.events hevents

/-- The definition of a machine that was built is that of the value with the default error event. -/
theorem Machine.compile_of_build {spec : Json} {inline : List (InlineHook κ)} {targetName : String}
    {idText : TransitionId → String} {initialState : Option String} {listeners : Nat} {m : Machine κ φ}
    (h : Machine.build spec inline targetName idText initialState listeners = .ok m) :
    Definition.compile (withErrorEvent spec) inline = .ok m.definition := by
  obtain ⟨definition, hd, h⟩ := except_bind_eq_ok.1 h
  obtain ⟨state, -, h⟩ := except_bind_eq_ok.1 h
  cases h
  cases hc : Definition.compile (withErrorEvent spec) inline with
  | error error => rw [hc] at hd; exact nomatch hd
  | ok compiled => rw [hc] at hd; cases hd; rfl

/-- **A machine that was built** is a fresh one, and its records carry the names of their events. -/
theorem Machine.build_eq_ok {spec : Json} {inline : List (InlineHook κ)} {targetName : String}
    {idText : TransitionId → String} {initialState : Option String} {listeners : Nat} {m : Machine κ φ}
    (h : Machine.build spec inline targetName idText initialState listeners = .ok m) :
    ∃ definition state, m = .start definition targetName idText state listeners ∧ definition.Named := by
  have hcompile := Machine.compile_of_build h
  obtain ⟨definition, -, h⟩ := except_bind_eq_ok.1 h
  obtain ⟨state, -, h⟩ := except_bind_eq_ok.1 h
  cases h
  exact ⟨definition, state, rfl, Definition.compile_named hcompile⟩

/-- A record that is found for an event is one of this event. -/
theorem Definition.Named.event_eq {definition : Definition κ} (hn : definition.Named) {event : String}
    {record : Record} (h : record ∈ definition.recordsFor event none) : record.event = event := by
  unfold recordsFor at h
  cases hf : definition.events.find? (·.name == event) with
  | none => rw [hf] at h; exact nomatch h
  | some found =>
    rw [hf] at h
    have hname : found.name = event := by simpa using List.find?_some hf
    exact (hn found (List.mem_of_find?_eq_some hf) record (List.mem_filter.1 h).1).trans hname

/-- A declared record is found for its own event. -/
theorem Definition.Declares.event {definition : Definition κ} {record : Record}
    (h : definition.Declares record) (hn : definition.Named) :
    record ∈ definition.recordsFor record.event none := by
  obtain ⟨event, h⟩ := h
  rw [hn.event_eq h]
  exact h

/-! ## A switch -/

namespace Switch

/-- A switch that can be turned on, poked while it is off, and halted by a callback. -/
def spec : Json := .object [
  ("states", .object [("initialState", .string "off")]),
  ("events", .object [
    ("run", .object [("transition", .object [("off", .string "on")])]),
    ("poke", .object [("transition", .object [("off", .string sameState)])]),
    ("halt", .object [("transition", .object
      [("off", .string "stopped"), ("willEnter", .string "explode")])])])]

/-- A record without guards, with callbacks for one phase. -/
def record (event source target : String) (willEnter : List String) : Record :=
  ⟨event, source, target, .none, .ofFn fun phase => if phase = .willEnter then willEnter else []⟩

def events : List Event :=
  [⟨"run", [record "run" "off" "on" []]⟩, ⟨"poke", [record "poke" "off" "off" []]⟩,
    ⟨"halt", [record "halt" "off" "stopped" ["explode"]]⟩,
    ⟨"error", ["off", "on", "stopped", "failed"].map fun state => record "error" state "failed" []⟩]

def definition : Definition Unit :=
  ⟨"off", ["off", "on", "stopped", "failed"].map (State.ofRecords (events.flatMap (·.records))),
    events, []⟩

/-- The switch, with nothing active and nobody who listens. -/
def machine : Machine Unit Unit := .start definition "switch" toString "off" 0

/-- A host whose callbacks all fail. -/
def answers : (request : Request Unit Unit) → request.Reply
  | .guard _ _ => none
  | .callback _ => some ()
  | .call _ _ => .error (.string "boom")
  | .poll _ => .settled (.error (.string "boom"))
  | .notify _ _ => ()

theorem build_spec : Machine.build spec [] "switch" toString none 0 = .ok machine := rfl

end Switch

end StateEngine
