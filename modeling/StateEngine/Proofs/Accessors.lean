import Mathlib.Data.List.Nodup
import StateEngine.Proofs.Known

/-!
# The names of accessors

Each namespace and each state has an accessor, which is asked for by a name in camel case. What separates the words
of a path is not in the name, nor is it told from a capital, so that two paths may come to one name. Then the first
of their accessors answers for both.

* `isWithin_of_mem_namespaces`: a state lies in each of its namespaces.
* `Machine.inState_of_mem_paths`: **whether the machine is in a path can be told** for each namespace and state.
* `Machine.accessor_eq_first`: an accessor answers for the path of the first one of its name.
* `accessor_faithful_iff`: **when every accessor answers for its own path**, and when no two have the same name.
-/

namespace StateEngine

/-! ## Paths -/

theorem isWithinChars_refl (path : List Char) : isWithinChars path path = true := by
  induction path with
  | nil => rfl
  | cons c rest ih => simp [isWithinChars, ih]

theorem isWithin_refl (path : String) : isWithin path path = true := isWithinChars_refl path.toList

/-- A name lies in each path that is followed by a point in it. -/
theorem isWithinChars_append (path rest : List Char) : isWithinChars (path ++ '.' :: rest) path = true := by
  induction path with
  | nil => rfl
  | cons c path ih => simp [isWithinChars, ih]

/-- A namespace is what was passed, up to some point that is still to come. -/
theorem exists_of_mem_namespaceChars {path : List Char} :
    ∀ {passed chars : List Char}, path ∈ namespaceChars passed chars →
      ∃ before after, chars = before ++ '.' :: after ∧ path = passed.reverse ++ before := by
  intro passed chars h
  induction chars generalizing passed with
  | nil => exact nomatch h
  | cons c rest ih =>
    have hlater : path ∈ namespaceChars (c :: passed) rest →
        ∃ before after, c :: rest = before ++ '.' :: after ∧ path = passed.reverse ++ before := by
      intro hrest
      obtain ⟨before, after, rfl, rfl⟩ := ih hrest
      exact ⟨c :: before, after, rfl, by simp⟩
    unfold namespaceChars at h
    split at h
    · rename_i hpoint
      rcases List.mem_cons.1 h with heq | hrest
      · exact ⟨[], rest, by rw [hpoint.1]; rfl, by rw [heq, List.append_nil]⟩
      · exact hlater hrest
    · exact hlater h

/-- **A state lies in each of its namespaces.** -/
theorem isWithin_of_mem_namespaces {name path : String} (h : path ∈ namespacesOf name) :
    isWithin name path = true := by
  obtain ⟨chars, hchars, rfl⟩ := List.mem_map.1 h
  obtain ⟨before, after, hname, hbefore⟩ := exists_of_mem_namespaceChars hchars
  rw [isWithin, hname, String.toList_ofList, hbefore]
  exact isWithinChars_append before after

namespace Definition

variable {κ : Type} {d : Definition κ} {path : String}

/-- Some state lies in each path of a definition. -/
theorem exists_within_of_mem_paths (h : path ∈ d.paths) : ∃ state ∈ d.states, isWithin state.name path = true := by
  have hstate : ∀ name ∈ d.stateNames, isWithin name path = true →
      ∃ state ∈ d.states, isWithin state.name path = true := by
    intro name hname hwithin
    obtain ⟨state, hmem, rfl⟩ := List.mem_map.1 hname
    exact ⟨state, hmem, hwithin⟩
  rcases List.mem_append.1 h with hnamespace | hname
  · obtain ⟨name, hname, hpath⟩ := List.mem_flatMap.1 (List.mem_eraseDups.1 hnamespace)
    exact hstate name hname (isWithin_of_mem_namespaces hpath)
  · exact hstate path (List.mem_filter.1 hname).1 (isWithin_refl path)

/-- No path is there twice, if no state is. -/
theorem paths_nodup (h : d.stateNames.Nodup) : d.paths.Nodup := by
  refine List.Nodup.append (nodup_eraseDups _) (h.filter _) fun path hnamespace hname => ?_
  have hnone := (List.mem_filter.1 hname).2
  rw [List.contains_iff_mem.2 hnamespace] at hnone
  exact nomatch hnone

/-- The accessors are those of the paths. -/
theorem mem_accessors {a : Accessor} :
    a ∈ d.accessors ↔ a.path ∈ d.paths ∧ a.name = "isIn" ++ camelized a.path := by
  constructor
  · intro h
    obtain ⟨path, hpath, rfl⟩ := List.mem_map.1 h
    exact ⟨hpath, rfl⟩
  · rintro ⟨hpath, hname⟩
    refine List.mem_map.2 ⟨a.path, hpath, ?_⟩
    rw [← hname]

/-- Two paths have accessors of one name exactly if they come to the same in camel case. -/
theorem accessorName_inj {p q : String} : "isIn" ++ camelized p = "isIn" ++ camelized q ↔ camelized p = camelized q :=
  String.append_right_inj _

end Definition

/-! ## Answers -/

variable {κ φ : Type} {m : Machine κ φ}

/-- **Whether the machine is in a path can be told**, for each path of its definition. -/
theorem Machine.inState_of_mem_paths {path : String} (h : path ∈ m.definition.paths) :
    m.inState path = .ok (isWithin m.state path) := by
  obtain ⟨state, hstate, hwithin⟩ := Definition.exists_within_of_mem_paths h
  unfold inState Definition.stateMatches Definition.lookupStates
  cases hfound : m.definition.states.filter fun state => isWithin state.name path with
  | nil => exact absurd hwithin (List.filter_eq_nil_iff.1 hfound state hstate)
  | cons first others => rfl

/-- **An accessor answers for the path of the first one of its name.** -/
theorem Machine.accessor_eq_first {a : Accessor} (ha : a ∈ m.definition.accessors) :
    ∃ before first after, m.definition.accessors = before ++ first :: after ∧
      (∀ other ∈ before, other.name ≠ a.name) ∧ first.name = a.name ∧
      m.accessor? a.name = some (isWithin m.state first.path) := by
  cases hfind : m.definition.accessors.find? (·.name == a.name) with
  | none => exact absurd (List.find?_eq_none.1 hfind a ha) (by simp)
  | some first =>
    obtain ⟨hname, before, after, hsplit, hbefore⟩ := List.find?_eq_some_iff_append.1 hfind
    have hpath := (Definition.mem_accessors.1 (List.mem_of_find?_eq_some hfind)).1
    refine ⟨before, first, after, hsplit, fun other hother => by simpa using hbefore other hother,
      by simpa using hname, ?_⟩
    unfold accessor?
    rw [hfind, Option.bind_eq_bind, Option.bind_some, Machine.inState_of_mem_paths hpath]
    rfl

/-- Telling listeners leaves the machine alone, as far as a move goes. -/
theorem World.machine_notifyAll {op : Operation} (change : StateChange) (listeners : List Nat)
    {next : Unit → Program κ φ op.Result} {w : World κ φ} (hnext : (proceed op (next ()) w).machine = w.machine) :
    (proceed op ((notifyAll change listeners).bind next) w).machine = w.machine := by
  cases listeners with
  | nil => exact hnext
  | cons listener others => rfl

/-- A state that can be found is set at once, before any listener is told. -/
theorem World.state_setState {w : World κ φ} {name : String}
    (h : ∃ found, w.machine.definition.lookupState name = .ok found) :
    (w.begin (.setState name)).machine.state = name := by
  obtain ⟨found, hfound⟩ := h
  simp only [begin, Operation.program, setState, look, bind, Program.bind, World.proceed, hfound]
  have hquiet : (World.proceed (.setState name) ((notifyAll ⟨none, w.machine.state, name⟩
      (List.range w.machine.listeners)).bind fun _ => pure (.ok ()))
        ⟨w.scene.make (.setState name), w.waiting⟩).machine =
      (w.scene.make (.setState name)).machine := machine_notifyAll _ _ rfl
  exact congrArg (·.state) hquiet

/-- **Every state of the definition can be got into.** -/
theorem Reaches.exists_state {name : String} (h : name ∈ m.definition.stateNames) :
    ∃ w, Reaches m w ∧ w.machine.state = name :=
  ⟨_, Reaches.start.begin (.setState name), World.state_setState (Definition.lookupState_iff.2 h)⟩

/-! ## When names tell paths -/

section

variable {spec : Json} {inline : List (InlineHook κ)} {targetName : String}
  {idText : TransitionId → String} {initialState : Option String} {listeners : Nat}

/-- Accessors have names of their own exactly if no two paths come to the same in camel case. -/
theorem Definition.accessorNames_nodup_iff {d : Definition κ} (h : d.stateNames.Nodup) :
    (d.accessors.map (·.name)).Nodup ↔ ∀ p ∈ d.paths, ∀ q ∈ d.paths, camelized p = camelized q → p = q := by
  have hnames : d.accessors.map (·.name) = d.paths.map fun path => "isIn" ++ camelized path := by
    rw [accessors, List.map_map]
    rfl
  rw [hnames]
  constructor
  · intro hnodup p hp q hq hcamel
    exact List.inj_on_of_nodup_map hnodup hp hq (accessorName_inj.2 hcamel)
  · intro hinj
    exact (paths_nodup h).map_on fun p hp q hq hname => hinj p hp q hq (accessorName_inj.1 hname)

/-- **What an accessor answers**, at every point of every run of a machine that was built: whether the current
state is in the path of the first accessor of its name. So each answers for its own path exactly if two paths that
come to the same in camel case are never told apart by a state that the machine gets into, as it gets into every
one of its definition. No two have the same name exactly if no two paths come to the same in camel case. -/
theorem accessor_faithful_iff (hb : Machine.build spec inline targetName idText initialState listeners = .ok m) :
    (∀ w, Reaches m w → ∀ a ∈ m.definition.accessors,
      ∃ before first after, m.definition.accessors = before ++ first :: after ∧
        (∀ other ∈ before, other.name ≠ a.name) ∧ first.name = a.name ∧
        w.machine.accessor? a.name = some (isWithin w.machine.state first.path)) ∧
      ((∀ w, Reaches m w → ∀ a ∈ m.definition.accessors,
          w.machine.accessor? a.name = some (isWithin w.machine.state a.path)) ↔
        ∀ p ∈ m.definition.paths, ∀ q ∈ m.definition.paths, camelized p = camelized q →
          ∀ w, Reaches m w → isWithin w.machine.state p = isWithin w.machine.state q) ∧
      (∀ name ∈ m.definition.stateNames, ∃ w, Reaches m w ∧ w.machine.state = name) ∧
      ((m.definition.accessors.map (·.name)).Nodup ↔
        ∀ p ∈ m.definition.paths, ∀ q ∈ m.definition.paths, camelized p = camelized q → p = q) := by
  have hdefinition : ∀ w, Reaches m w → w.machine.definition = m.definition := fun w hw =>
    hw.sound.trail.definition_eq
  have hfirst : ∀ w, Reaches m w → ∀ a ∈ m.definition.accessors,
      ∃ before first after, m.definition.accessors = before ++ first :: after ∧
        (∀ other ∈ before, other.name ≠ a.name) ∧ first.name = a.name ∧
        w.machine.accessor? a.name = some (isWithin w.machine.state first.path) := by
    intro w hw a ha
    rw [← hdefinition w hw] at ha ⊢
    exact Machine.accessor_eq_first ha
  refine ⟨hfirst, ⟨fun hown p hp q hq hcamel w hw => ?_, fun hsame w hw a ha => ?_⟩,
    fun name hname => Reaches.exists_state hname,
    Definition.accessorNames_nodup_iff (Definition.compile_states (Machine.compile_of_build hb)).1⟩
  · -- the two accessors are asked by one name, and so they give one answer
    have hp' := hown w hw ⟨"isIn" ++ camelized p, p⟩ (Definition.mem_accessors.2 ⟨hp, rfl⟩)
    have hq' := hown w hw ⟨"isIn" ++ camelized q, q⟩ (Definition.mem_accessors.2 ⟨hq, rfl⟩)
    rw [hcamel] at hp'
    exact Option.some.inj (hp'.symm.trans hq')
  · obtain ⟨before, first, after, hsplit, -, hname, hanswer⟩ := hfirst w hw a ha
    have hmem : first ∈ m.definition.accessors :=
      hsplit ▸ List.mem_append_right before List.mem_cons_self
    obtain ⟨hpath, hcamel⟩ := Definition.mem_accessors.1 hmem
    obtain ⟨hpath', hcamel'⟩ := Definition.mem_accessors.1 ha
    rw [hcamel, hcamel', Definition.accessorName_inj] at hname
    rw [hanswer, hsame _ hpath _ hpath' hname w hw]

end

/-! ## A power switch -/

namespace Power

/-- A power switch, the names of whose states differ in what separates their words. -/
def spec : Json := .object [
  ("states", .object [("initialState", .string "power-on")]),
  ("events", .object [("split", .object [("transition", .object [("power-on", .string "power.on")])])])]

def machine : Machine Unit Unit :=
  let split : Record := Switch.record "split" "power-on" "power.on" []
  let error := ["power-on", "power.on", "failed"].map fun state => Switch.record "error" state "failed" []
  .start ⟨"power-on", ["power-on", "power.on", "failed"].map (State.ofRecords (split :: error)),
    [⟨"split", [split]⟩, ⟨"error", error⟩], []⟩ "power" toString "power-on" 0

theorem build_spec : Machine.build spec [] "power" toString none 0 = .ok machine := rfl

/-- The switch after its one event. -/
def split : World Unit Unit := ((World.start machine).begin (.send "split" [])).begin (.poll 0)

theorem reaches_split : Reaches machine split := (Reaches.start.begin (.send "split" [])).begin (.poll 0)

end Power

/-- The second of two accessors of one name denies that the switch is in the state that it is in. -/
theorem accessor_faithful_iff_split :
    Machine.build Power.spec [] "power" toString none 0 = .ok Power.machine ∧
      ⟨"isInPowerOn", "power.on"⟩ ∈ Power.machine.definition.accessors ∧
      Power.split.machine.state = "power.on" ∧
      Power.split.machine.accessor? "isInPowerOn" = some false ∧
      (¬ ∀ w, Reaches Power.machine w → ∀ a ∈ Power.machine.definition.accessors,
        w.machine.accessor? a.name = some (isWithin w.machine.state a.path)) ∧
      ¬ (Power.machine.definition.accessors.map (·.name)).Nodup := by
  obtain ⟨-, hfaithful, -, hnames⟩ := accessor_faithful_iff Power.build_spec
  have hp : "power-on" ∈ Power.machine.definition.paths := by decide
  have hq : "power.on" ∈ Power.machine.definition.paths := by decide
  have hcamel : camelized "power-on" = camelized "power.on" := by decide
  refine ⟨Power.build_spec, by decide, rfl, by decide, fun hown => ?_, fun hnodup => ?_⟩
  · have hsame := hfaithful.1 hown _ hp _ hq hcamel _ Power.reaches_split
    exact absurd hsame (by decide)
  · exact absurd (hnames.1 hnodup _ hp _ hq hcamel) (by decide)

end StateEngine
