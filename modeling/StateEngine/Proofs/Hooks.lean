import StateEngine.Proofs.Reading

/-!
# What hangs on a state

The object of states names hooks, member by member and phase by phase, and inline hooks come after all of
them. Compilation gathers them in one list, from which each phase of a transition picks its own.

* `StateHook.of`: the hooks of a list that hang on a state in a phase.
* `Definition.compile_hooks`: the hooks of a compiled definition.
* `Definition.hooksOf_compile`: **what hangs on a state in a phase** is what the value says.
-/

namespace StateEngine

variable {κ : Type}

theorem Declaration.states_eq_ok {spec : Json} {declaration : Declaration}
    (h : Declaration.read spec = .ok declaration) :
    declaration.states = Reading.members (Reading.member spec "states") := by
  obtain ⟨root, -, rfl, -, hstates, -⟩ := Declaration.read_iff.1 h
  unfold readStates at hstates
  cases hpresent : Members.present? root "states" with
  | none =>
    rw [hpresent] at hstates
    rw [Reading.member_of_absent hpresent]
    exact (Except.ok.inj hstates).symm
  | some value =>
    rw [hpresent] at hstates
    rw [Reading.member_of_present hpresent, Reading.members_eq, orError_eq_ok hstates]
    rfl

namespace StateHook

/-- The hooks that hang on a state in a phase. -/
def of (hooks : List (StateHook κ)) (state : String) (phase : Phase) : List (Hook κ) :=
  (hooks.filter fun h => h.state == state && h.phase == phase).map (·.hook)

theorem of_append (hooks hooks' : List (StateHook κ)) (state : String) (phase : Phase) :
    of (hooks ++ hooks') state phase = of hooks state phase ++ of hooks' state phase := by
  unfold of
  rw [List.filter_append, List.map_append]

theorem of_flatMap {α : Type} (l : List α) (f : α → List (StateHook κ)) (state : String) (phase : Phase) :
    of (l.flatMap f) state phase = l.flatMap fun a => of (f a) state phase := by
  unfold of
  rw [List.filter_flatMap, List.map_flatMap]

/-- Hooks of names, in their order. -/
def ofNames (state : String) (phase : Phase) (names : List String) : List (StateHook κ) :=
  names.map fun name => ⟨state, phase, .named name⟩

theorem of_ofNames (key state : String) (other phase : Phase) (names : List String) :
    of (ofNames key other names : List (StateHook κ)) state phase =
      if key == state && other == phase then names.map .named else [] := by
  unfold of ofNames
  induction names with
  | nil => simp
  | cons name rest ih =>
    rw [List.map_cons, List.filter_cons]
    split
    · rw [List.map_cons, ih]
      simp_all
    · rw [ih]
      simp_all

/-- The hooks that a member of the object of states stands for. -/
def declared (state : String) (value : Json) : List (StateHook κ) :=
  Phase.hooks.flatMap fun phase => ofNames state phase (Reading.callbacks value phase)

/-- The hook that an inline hook stands for. -/
def attached (hook : InlineHook κ) : StateHook κ := ⟨hook.state, hook.phase, .inline hook.callback⟩

theorem of_declared (key : String) (value : Json) (state : String) {phase : Phase}
    (hp : phase ∈ Phase.hooks) :
    of (declared key value : List (StateHook κ)) state phase =
      if key == state then (Reading.callbacks value phase).map .named else [] := by
  unfold declared
  rw [of_flatMap]
  simp only [of_ofNames]
  cases hkey : key == state with
  | false => simp
  | true =>
    -- just one of the phases is the one in question
    revert hp
    cases phase <;> simp [Phase.hooks]

theorem readState_eq_ok {known : List String} {state : String} {value : Json}
    {hooks : List (StateHook κ)} (h : readState known state value = .ok hooks) :
    hooks = declared state value := by
  obtain ⟨members, hmembers, hrest⟩ := except_bind_eq_ok.1 h
  have hvalue : value = .object members := Json.members?_eq_some.1 (orError_eq_ok hmembers)
  dsimp only at hrest
  split at hrest
  · obtain ⟨_, hthrow, -⟩ := except_bind_eq_ok.1 hrest
    exact nomatch hthrow
  split at hrest
  · obtain ⟨_, hthrow, -⟩ := except_bind_eq_ok.1 hrest
    exact nomatch hthrow
  obtain ⟨read, hread, hlast⟩ := except_bind_eq_ok.1 hrest
  cases hlast
  have hphase : ∀ (phase : Phase) (hooks : List (StateHook κ)), (do
      let names ← stringsOr (.invalidStateProperty (state ++ "." ++ phase.name) .callbackNames)
        ((members.lookup phase.key).getD .null).toItems
      return ofNames state phase names) = .ok hooks →
      hooks = ofNames state phase (Reading.callbacks value phase) := by
    intro phase hooks hnames
    obtain ⟨names, hstrings, hlast⟩ := except_bind_eq_ok.1 hnames
    cases hlast
    rw [stringsOr_eq_ok hstrings, hvalue, Reading.callbacks_eq]
    rfl
  rw [eq_map_of_mapM hphase hread]
  rfl

theorem readAll_eq_ok {known : List String} {states : Members} {hooks : List (StateHook κ)}
    (h : readAll known states = .ok hooks) :
    hooks = (states.filter fun (key, value) => !reservedStateKeys.contains key && !value.isNull).flatMap
      fun (state, value) => declared state value := by
  obtain ⟨read, hread, h⟩ := except_bind_eq_ok.1 h
  cases h
  rw [eq_map_of_mapM (fun member read hmember => readState_eq_ok hmember) hread]
  rfl

theorem ofInline_eq_ok {known : List String} {inline : InlineHook κ} {hook : StateHook κ}
    (h : ofInline known inline = .ok hook) : hook = attached inline := by
  unfold ofInline at h
  split at h
  · exact nomatch h
  · split at h
    · exact nomatch h
    · exact (Except.ok.inj h).symm

end StateHook

/-- **The hooks of a compiled definition** are those that the value declares, in order, and then the inline
ones. -/
theorem Definition.compile_hooks {spec : Json} {inline : List (InlineHook κ)}
    {definition : Definition κ} (h : Definition.compile spec inline = .ok definition) :
    definition.hooks =
      (((Reading.members (Reading.member spec "states")).filter fun (key, value) =>
          !reservedStateKeys.contains key && !value.isNull).flatMap
        fun (state, value) => StateHook.declared state value) ++ inline.map StateHook.attached := by
  obtain ⟨declaration, hread, hcompile⟩ := except_bind_eq_ok.1 h
  obtain ⟨known, -, hcompile⟩ := except_bind_eq_ok.1 hcompile
  obtain ⟨events, -, hcompile⟩ := except_bind_eq_ok.1 hcompile
  obtain ⟨hooks, hhooks, hcompile⟩ := except_bind_eq_ok.1 hcompile
  obtain ⟨attached, hattached, hcompile⟩ := except_bind_eq_ok.1 hcompile
  cases hcompile
  rw [← Declaration.states_eq_ok hread]
  change hooks ++ attached = _
  rw [StateHook.readAll_eq_ok hhooks,
    eq_map_of_mapM (fun hook attached hook' => StateHook.ofInline_eq_ok hook') hattached]

/-- **What hangs on a state in a phase**: the names that the value of the definition has there, and then the
inline hooks. -/
theorem Definition.hooksOf_compile {spec : Json} {inline : List (InlineHook κ)}
    {definition : Definition κ} (h : Definition.compile spec inline = .ok definition) (state : String)
    {phase : Phase} (hp : phase ∈ Phase.hooks) :
    definition.hooksOf state phase =
      (Reading.stateHooks spec state phase).map .named ++
        (Reading.inlineHooks inline state phase).map .inline := by
  have hinline : StateHook.of (inline.map StateHook.attached) state phase =
      (Reading.inlineHooks inline state phase).map .inline := by
    unfold StateHook.of Reading.inlineHooks
    simp only [List.filter_map, List.map_map, Bool.decide_and]
    rfl
  have hnamed : ∀ states : Members, StateHook.of ((states.filter fun (key, value) =>
        !reservedStateKeys.contains key && !value.isNull).flatMap
          fun (key, value) => (StateHook.declared key value : List (StateHook κ))) state phase =
      ((states.filter fun (key, _) => key = state ∧ key ∉ Reading.stateKeys).flatMap
        fun (_, value) => Reading.callbacks value phase).map .named := by
    intro states
    rw [StateHook.of_flatMap]
    simp only [StateHook.of_declared _ _ _ hp, Bool.decide_and, Reading.stateKey_iff]
    generalize reservedStateKeys.contains = reserved
    induction states with
    | nil => rfl
    | cons member rest ih =>
      obtain ⟨key, value⟩ := member
      have hnull : value.isNull = true → Reading.callbacks value phase = [] := by
        intro hn
        cases value with
        | null => rfl
        | _ => exact nomatch hn
      rw [List.filter_cons, List.filter_cons]
      cases hr : reserved key with
      | true => simpa [hr] using ih
      | false =>
        cases hn : value.isNull with
        | true => by_cases hk : key = state <;> simpa [hr, hn, hk, hnull hn] using ih
        | false => by_cases hk : key = state <;> simpa [hr, hn, hk] using ih
  change StateHook.of definition.hooks state phase = _
  rw [Definition.compile_hooks h, StateHook.of_append, hinline, hnamed]
  rfl

end StateEngine
