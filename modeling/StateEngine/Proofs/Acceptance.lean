import Mathlib.Tactic.Choose
import StateEngine.Definition.Acceptance
import StateEngine.Proofs.Hooks

/-!
# What compiles

Each reader of a value succeeds under a condition on the members it reads, and what it reads then is known
from `Reading`. The conditions of a whole definition are those of all readers together, and two more that
compare what was read: states against the list of allowed ones, and the records of an event among
themselves.

* `Succeeds`: whether a step of compilation comes to a result.
* `transition_succeeds`, `event_succeeds`, `declaration_succeeds`: what is read.
* `Declaration.mem_mentioned`, `clash_eq_none`: what is compared.
* `compile_succeeds_iff`: **a value compiles just under the conditions of `Reading.Accepts`.**
-/

namespace StateEngine

open Reading

variable {κ : Type}

/-! ## Steps that succeed -/

section

variable {ε α β : Type}

/-- Whether a step comes to a result. -/
def Succeeds (x : Except ε α) : Prop := ∃ a, x = .ok a

theorem succeeds_ok (a : α) : Succeeds (.ok a : Except ε α) := ⟨a, rfl⟩

theorem not_succeeds_error (e : ε) : ¬ Succeeds (.error e : Except ε α) := fun ⟨_, h⟩ => nomatch h

theorem succeeds_bind {x : Except ε α} {f : α → Except ε β} :
    Succeeds (x >>= f) ↔ ∃ a, x = .ok a ∧ Succeeds (f a) := by
  constructor
  · rintro ⟨b, hb⟩
    obtain ⟨a, ha, hf⟩ := except_bind_eq_ok.1 hb
    exact ⟨a, ha, b, hf⟩
  · rintro ⟨a, ha, b, hb⟩
    exact ⟨b, except_bind_eq_ok.2 ⟨a, ha, hb⟩⟩

theorem succeeds_bind_pure {x : Except ε α} {f : α → β} :
    Succeeds (x >>= fun a => (pure (f a) : Except ε β)) ↔ Succeeds x := by
  rw [succeeds_bind]
  exact exists_congr fun a => and_iff_left (succeeds_ok (f a))

/-- Two steps succeed if each of them does, when the second does not depend on the first. -/
theorem succeeds_bind_const {x : Except ε α} {f : α → Except ε β} {P : Prop}
    (hf : ∀ a, x = .ok a → (Succeeds (f a) ↔ P)) : Succeeds (x >>= f) ↔ Succeeds x ∧ P := by
  rw [succeeds_bind]
  constructor
  · rintro ⟨a, ha, hb⟩
    exact ⟨⟨a, ha⟩, (hf a ha).1 hb⟩
  · rintro ⟨⟨a, ha⟩, hp⟩
    exact ⟨a, ha, (hf a ha).2 hp⟩

theorem not_succeeds_throw {e : ε} {f : β → Except ε α} :
    ¬ Succeeds ((throw e : Except ε β) >>= f) := fun ⟨_, h⟩ => nomatch h

/-- A check before a step. -/
theorem succeeds_check {c : Prop} [Decidable c] {e : ε} {x : Except ε α} :
    Succeeds (if c then (throw e : Except ε PUnit) >>= fun _ => x else x) ↔ ¬ c ∧ Succeeds x := by
  split
  · rename_i hc
    exact iff_of_false not_succeeds_throw fun h => h.1 hc
  · rename_i hc
    exact (and_iff_right hc).symm

theorem succeeds_map {x : Except ε α} {f : α → β} : Succeeds (x.map f) ↔ Succeeds x := by
  cases x with
  | error e => exact iff_of_false (not_succeeds_error e) (not_succeeds_error e)
  | ok a => exact iff_of_true (succeeds_ok (f a)) (succeeds_ok a)

theorem except_map_eq_ok {x : Except ε α} {f : α → β} {b : β} :
    x.map f = .ok b ↔ ∃ a, x = .ok a ∧ b = f a := by
  cases x with
  | error e => exact iff_of_false (fun h => nomatch h) fun ⟨_, h, _⟩ => nomatch h
  | ok a =>
    exact ⟨fun h => ⟨a, rfl, (Except.ok.inj h).symm⟩, fun ⟨_, h, hb⟩ => by cases h; rw [hb]; rfl⟩

theorem succeeds_mapM {f : α → Except ε β} {l : List α} :
    Succeeds (l.mapM f) ↔ ∀ a ∈ l, Succeeds (f a) := by
  induction l with
  | nil => exact iff_of_true ⟨[], rfl⟩ fun a ha => absurd ha List.not_mem_nil
  | cons a rest ih =>
    rw [List.mapM_cons, List.forall_mem_cons, ← ih]
    exact succeeds_bind_const fun b _ => succeeds_bind_pure

theorem succeeds_ofFnM {f : Phase → Except ε α} :
    Succeeds (PhaseTable.ofFnM f) ↔ ∀ phase, Succeeds (f phase) := by
  constructor
  · rintro ⟨table, htable⟩ phase
    exact ⟨table.get phase, PhaseTable.get_of_ofFnM htable phase⟩
  · intro h
    choose g hg using h
    refine ⟨.ofFn g, ?_⟩
    unfold PhaseTable.ofFnM
    simp only [hg]
    rfl

end

/-! ## Members -/

theorem Json.isNull_iff {value : Json} : value.isNull = true ↔ value = .null := by
  cases value <;> simp [Json.isNull]

theorem Json.ofStrings_inj {names others : List String} :
    Json.ofStrings names = .ofStrings others ↔ names = others := by
  unfold Json.ofStrings
  rw [Json.array.injEq]
  exact List.map_inj_right fun _ _ h => Json.string.inj h

/-- A member is there and has a value, or reads as `null`. -/
theorem Members.present_cases (members : Members) (key : String) :
    (members.present? key = none ∧ member (.object members) key = .null) ∨
      ∃ value, members.present? key = some value ∧ member (.object members) key = value ∧
        value ≠ .null := by
  cases h : members.present? key with
  | none => exact .inl ⟨rfl, member_of_absent h⟩
  | some value =>
    refine .inr ⟨value, rfl, member_of_present h, ?_⟩
    rintro rfl
    exact absurd (Option.filter_eq_some_iff.1 h).2 (by decide)

theorem Members.firstPresent_cases (members : Members) (key other : String) :
    (members.firstPresent? [key, other] = none ∧ first (.object members) key other = .null) ∨
      ∃ value, members.firstPresent? [key, other] = some value ∧
        first (.object members) key other = value ∧ value ≠ .null := by
  unfold Members.firstPresent? first
  rw [List.findSome?_cons, List.findSome?_cons, List.findSome?_nil]
  rcases members.present_cases key with ⟨hk, hm⟩ | ⟨value, hk, hm, hv⟩
  · rw [hk, hm]
    rcases members.present_cases other with ⟨ho, hm'⟩ | ⟨value, ho, hm', hv⟩
    · rw [ho, hm']
      exact .inl ⟨rfl, rfl⟩
    · rw [ho, hm']
      exact .inr ⟨value, rfl, rfl, hv⟩
  · rw [hk, hm]
    refine .inr ⟨value, rfl, ?_, hv⟩
    cases value with
    | null => exact absurd rfl hv
    | _ => rfl

theorem orError_succeeds {α : Type} {error : DefinitionError} {a? : Option α} :
    Succeeds (orError error a?) ↔ ∃ a, a? = some a := by
  cases a? with
  | none => exact iff_of_false (not_succeeds_error error) fun ⟨_, h⟩ => nomatch h
  | some a => exact iff_of_true (succeeds_ok a) ⟨a, rfl⟩

theorem string_succeeds (error : DefinitionError) {value : Json} :
    Succeeds (orError error value.string?) ↔ IsString value := by
  rw [orError_succeeds]
  exact exists_congr fun name => Json.string?_eq_some

theorem stringsOr_succeeds {error : DefinitionError} {items : List Json} :
    Succeeds (stringsOr error items) ↔ ∃ names : List String, items = names.map .string :=
  exists_congr fun _ => stringsOr_eq_ok_iff

/-- The items of a value are strings if it is absent, a string or a list of strings. -/
theorem toItems_strings {value : Json} :
    (∃ names : List String, value.toItems = names.map .string) ↔ NamesCallbacks value := by
  cases value with
  | null => exact iff_of_true ⟨[], rfl⟩ (.inl rfl)
  | string name => exact iff_of_true ⟨[name], rfl⟩ (.inr (.inl ⟨name, rfl⟩))
  | array items =>
    constructor
    · rintro ⟨names, hnames⟩
      exact .inr (.inr ⟨names, congrArg Json.array hnames⟩)
    · rintro (h | ⟨name, h⟩ | ⟨names, h⟩)
      · exact nomatch h
      · exact nomatch h
      · exact ⟨names, Json.array.inj h⟩
  | _ =>
    refine iff_of_false ?_ ?_
    · rintro ⟨names, hnames⟩
      cases names with
      | nil => exact nomatch hnames
      | cons name names => exact nomatch (List.cons.inj hnames).1
    · rintro (h | ⟨name, h⟩ | ⟨names, h⟩)
      · exact nomatch h
      · exact nomatch h
      · exact nomatch h

/-! ## Transition objects -/

section

variable (name : String) {members : Members}

theorem callbackNames_succeeds {phase : Phase} :
    Succeeds (callbackNames name members phase) ↔ NamesCallbacks (member (.object members) (phaseKey phase)) := by
  unfold callbackNames
  rw [stringsOr_succeeds, phaseKey_eq]
  exact toItems_strings

theorem guardName_succeeds {key other : String} :
    Succeeds (guardName name members key other) ↔ AtMostString (first (.object members) key other) := by
  unfold guardName AtMostString
  rcases members.firstPresent_cases key other with ⟨hp, hf⟩ | ⟨value, hp, hf, hv⟩
  · rw [hp, hf]
    exact iff_of_true (succeeds_ok none) (.inl rfl)
  · rw [hp, hf]
    change Succeeds ((orError _ value.string?).map some) ↔ _
    rw [succeeds_map, string_succeeds]
    exact ⟨.inr, fun h => h.resolve_left hv⟩

theorem guards_succeeds :
    Succeeds (Guards.read name members) ↔ AtMostString (first (.object members) "guard" "doIf") ∧
      AtMostString (first (.object members) "unless" "doUnless") := by
  unfold Guards.read
  rw [← guardName_succeeds name, ← guardName_succeeds name]
  exact succeeds_bind_const fun doIf _ => succeeds_bind_pure

/-- A value names states if it names something at all. -/
theorem namesStates_iff {value : Json} :
    NamesStates value ↔ value.toItems ≠ [] ∧ NamesCallbacks value := by
  constructor
  · rintro (⟨name, rfl⟩ | ⟨name, others, rfl⟩)
    · exact ⟨List.cons_ne_nil _ _, .inr (.inl ⟨name, rfl⟩)⟩
    · exact ⟨List.cons_ne_nil _ _, .inr (.inr ⟨name :: others, rfl⟩)⟩
  · rintro ⟨hitems, rfl | hstring | ⟨names, rfl⟩⟩
    · exact absurd rfl hitems
    · exact .inl hstring
    · cases names with
      | nil => exact absurd rfl hitems
      | cons name others => exact .inr ⟨name, others, rfl⟩

theorem readSources_succeeds {value : Json} :
    Succeeds (Mapping.readSources name value) ↔ NamesStates value := by
  unfold Mapping.readSources
  rw [namesStates_iff]
  dsimp only
  split
  · rename_i hempty
    exact iff_of_false (not_succeeds_error _) fun h => h.1 (List.isEmpty_iff.1 hempty)
  · rename_i hitems
    rw [stringsOr_succeeds, toItems_strings]
    exact (and_iff_right fun h => hitems (List.isEmpty_iff.2 h)).symm

theorem maps_of_nil {object : Json} (h : freeKeys object = []) :
    Maps object ↔ IsString (member object "to") ∧ NamesStates (member object "from") := by
  constructor
  · rintro (⟨hkey, -, -, -⟩ | ⟨-, hfrom, hto⟩)
    · rw [h] at hkey
      exact nomatch hkey
    · exact ⟨hto, hfrom⟩
  · rintro ⟨hto, hfrom⟩
    exact .keyed h hfrom hto

theorem maps_of_cons {object : Json} {key : String} {others : List String}
    (h : freeKeys object = key :: others) : Maps object ↔
      (others = [] ∧ member object "from" = .null ∧ member object "to" = .null) ∧
        IsString (member object key) := by
  constructor
  · rintro (⟨hkey, hvalue, hfrom, hto⟩ | ⟨hkeys, -, -⟩)
    · obtain ⟨rfl, rfl⟩ := List.cons.inj (h.symm.trans hkey)
      exact ⟨⟨rfl, hfrom, hto⟩, hvalue⟩
    · rw [h] at hkeys
      exact nomatch hkeys
  · rintro ⟨⟨rfl, hfrom, hto⟩, hvalue⟩
    exact .free h hvalue hfrom hto

theorem Members.present_isNone {members : Members} {key : String} :
    (members.present? key).isSome = false ↔ member (.object members) key = .null := by
  rcases members.present_cases key with ⟨hp, hm⟩ | ⟨value, hp, hm, hv⟩
  · rw [hp, hm]
    exact iff_of_true rfl rfl
  · rw [hp, hm]
    exact iff_of_false (fun h => nomatch h) hv

theorem Members.present_string {members : Members} {key : String} :
    (members.present? key).bind Json.string? = (member (.object members) key).string? := by
  rcases members.present_cases key with ⟨hp, hm⟩ | ⟨value, hp, hm, -⟩
  · rw [hp, hm]
    rfl
  · rw [hp, hm]
    rfl

/-- **Reading the mapping of a transition object.** -/
theorem readStates_succeeds :
    Succeeds (Mapping.readStates name members) ↔ Maps (.object members) := by
  have hkeys : freeKeys (.object members) =
      members.presentKeys.filter fun key => !reservedTransitionKeys.contains key := by
    unfold freeKeys
    simp only [keys_object, transitionKey_iff]
  unfold Mapping.readStates
  rw [← hkeys]
  dsimp only
  cases hfree : freeKeys (.object members) with
  | nil =>
    have hcount : ∀ b : Bool, ¬ 1 < ([] : List String).length + if b then 1 else 0 := by decide
    rw [if_neg (hcount _), maps_of_nil hfree]
    rcases members.present_cases "from" with ⟨hp, hfrom⟩ | ⟨source, hp, hfrom, -⟩
    · rw [hp, hfrom]
      exact iff_of_false (not_succeeds_error _) fun h => absurd rfl (namesStates_iff.1 h.2).1
    rcases members.present_cases "to" with ⟨hp', hto⟩ | ⟨target, hp', hto, -⟩
    · rw [hp, hp', hto]
      exact iff_of_false (not_succeeds_error _) fun ⟨⟨_, h⟩, _⟩ => nomatch h
    · rw [hp, hp', hto, hfrom, ← string_succeeds (.invalidProperty name "to" .stateName),
        ← readSources_succeeds name]
      exact succeeds_bind_const fun target' _ => succeeds_bind_pure
  | cons key others =>
    rw [maps_of_cons hfree]
    by_cases hone : others = [] ∧ member (.object members) "from" = .null ∧
        member (.object members) "to" = .null
    · obtain ⟨rfl, hfrom, hto⟩ := hone
      rw [Members.present_isNone.2 hfrom, Members.present_isNone.2 hto]
      have hcount : ¬ 1 < [key].length + if (false || false) = true then 1 else 0 := Nat.lt_irrefl 1
      rw [if_neg hcount]
      dsimp only
      rw [Members.present_string, and_iff_right ⟨rfl, hfrom, hto⟩,
        ← string_succeeds (.invalidProperty name key .mapsToStateName)]
      exact succeeds_bind_pure
    · -- there is more than one mapping
      have hcount : 1 < (key :: others).length +
          if ((members.present? "from").isSome || (members.present? "to").isSome) = true then 1 else 0 := by
        by_contra hle
        rw [List.length_cons] at hle
        split at hle
        · omega
        · rename_i hnone
          obtain ⟨hfrom, hto⟩ := Bool.or_eq_false_iff.1 (Bool.eq_false_iff.2 hnone)
          have hothers : others.length = 0 := by omega
          exact hone ⟨List.length_eq_zero_iff.1 hothers, Members.present_isNone.1 hfrom,
            Members.present_isNone.1 hto⟩
      rw [if_pos hcount]
      exact iff_of_false (not_succeeds_error _) fun h => hone h.1

theorem acceptsNames_iff {object : Json} : AcceptsNames object ↔
    (AtMostString (first object "guard" "doIf") ∧ AtMostString (first object "unless" "doUnless")) ∧
      ∀ phase : Phase, NamesCallbacks (member object (phaseKey phase)) :=
  ⟨fun h => ⟨⟨h.doIf, h.doUnless⟩, h.callbacks⟩, fun h => ⟨h.1.1, h.1.2, h.2⟩⟩

theorem callbacks_succeeds (callbacks : CallbackNames) :
    Succeeds (PhaseTable.ofFnM fun phase =>
        (callbackNames name members phase).map (callbacks.get phase ++ ·)) ↔
      ∀ phase : Phase, NamesCallbacks (member (.object members) (phaseKey phase)) := by
  rw [succeeds_ofFnM]
  exact forall_congr' fun phase => succeeds_map.trans (callbackNames_succeeds name)

/-- **Reading a transition object.** -/
theorem transition_succeeds {guards : Guards} {callbacks : CallbackNames} :
    Succeeds (Mapping.read name guards callbacks members) ↔ AcceptsTransition (.object members) := by
  have hread : Succeeds (Mapping.read name guards callbacks members) ↔
      Succeeds (Mapping.readStates name members) ∧
        sameState ∉ entries (.object members) ∧ AcceptsNames (.object members) := by
    refine succeeds_bind_const fun states hstates => ?_
    obtain rfl := entries_eq_ok hstates
    dsimp only
    rw [succeeds_check, List.contains_iff_mem, acceptsNames_iff, ← guards_succeeds name,
      ← callbacks_succeeds name callbacks]
    exact and_congr_right fun _ => succeeds_bind_const fun own _ => succeeds_bind_pure
  rw [hread, readStates_succeeds]
  exact ⟨fun h => ⟨⟨members, rfl⟩, h.1, h.2.1, h.2.2⟩, fun h => ⟨h.maps, h.notSame, h.names⟩⟩

/-! ## Events -/

theorem transitionItems_succeeds : Succeeds (EventDeclaration.transitionItems name members) ↔
    (member (.object members) "transition" = .null ↔
      member (.object members) "transitions" ≠ .null) := by
  unfold EventDeclaration.transitionItems
  rcases members.present_cases "transition" with ⟨hp, hm⟩ | ⟨value, hp, hm, hv⟩
  · rcases members.present_cases "transitions" with ⟨hp', hm'⟩ | ⟨value', hp', hm', hv'⟩
    · rw [hp, hp', hm, hm']
      exact iff_of_false (not_succeeds_error _) fun h => h.1 rfl rfl
    · rw [hp, hp', hm, hm']
      exact iff_of_true (succeeds_ok _) (iff_of_true rfl hv')
  · rcases members.present_cases "transitions" with ⟨hp', hm'⟩ | ⟨value', hp', hm', hv'⟩
    · rw [hp, hp', hm, hm']
      exact iff_of_true (succeeds_ok _) (iff_of_false hv fun h => h rfl)
    · rw [hp, hp', hm, hm']
      exact iff_of_false (not_succeeds_error _) fun h => hv (h.2 hv')

/-- A transition object is read if it is one. -/
theorem object_succeeds {error : DefinitionError} {guards : Guards} {callbacks : CallbackNames}
    {item : Json} :
    Succeeds (do
      let members ← orError error item.members?
      Mapping.read name guards callbacks members) ↔ AcceptsTransition item := by
  rw [succeeds_bind]
  constructor
  · rintro ⟨inner, hinner, hread⟩
    obtain rfl := Json.members?_eq_some.1 (orError_eq_ok hinner)
    exact (transition_succeeds name).1 hread
  · intro h
    obtain ⟨inner, rfl⟩ := h.isObject
    exact ⟨inner, rfl, (transition_succeeds name).2 h⟩

/-- **Reading an event.** -/
theorem event_succeeds {event : Json} :
    Succeeds (EventDeclaration.read name event) ↔ AcceptsEvent event := by
  have hread : ∀ members : Members, Succeeds (EventDeclaration.read name (.object members)) ↔
      Succeeds (EventDeclaration.transitionItems name members) ∧ objects (.object members) ≠ [] ∧
        AcceptsNames (.object members) ∧
          ∀ object ∈ objects (.object members), AcceptsTransition object := by
    intro members
    change Succeeds (EventDeclaration.transitionItems name members >>= _) ↔ _
    refine succeeds_bind_const fun items hitems => ?_
    obtain rfl := objects_eq_ok hitems
    dsimp only
    rw [succeeds_check, List.isEmpty_iff, acceptsNames_iff, ← guards_succeeds name, and_assoc]
    refine and_congr_right fun _ => succeeds_bind_const fun own _ => ?_
    rw [← forall_congr' fun phase => callbackNames_succeeds name, ← succeeds_ofFnM]
    refine succeeds_bind_const fun table _ => ?_
    rw [← forall₂_congr fun item _ => object_succeeds name, ← succeeds_mapM]
    exact succeeds_bind_pure
  constructor
  · rintro h
    obtain ⟨members, hmembers, -⟩ := succeeds_bind.1 h
    obtain rfl := Json.members?_eq_some.1 (orError_eq_ok hmembers)
    obtain ⟨hitems, hnonempty, hnames, htransitions⟩ := (hread members).1 h
    exact ⟨⟨members, rfl⟩, (transitionItems_succeeds name).1 hitems, hnonempty, htransitions, hnames⟩
  · rintro ⟨⟨members, rfl⟩, hone, hnonempty, htransitions, hnames⟩
    exact (hread members).2 ⟨(transitionItems_succeeds name).2 hone, hnonempty, hnames, htransitions⟩

end

/-! ## Declarations -/

namespace Declaration

variable {root states : Members}

theorem readEvents_succeeds : Succeeds (readEvents root) ↔ IsObject (member (.object root) "events") := by
  unfold readEvents
  rcases Members.present_cases root "events" with ⟨hp, hm⟩ | ⟨value, hp, hm, -⟩
  · rw [hp, hm]
    exact iff_of_false (not_succeeds_error _) fun ⟨_, h⟩ => nomatch h
  · rw [hp, hm]
    exact orError_succeeds.trans (exists_congr fun _ => Json.members?_eq_some)

theorem readStates_succeeds : Succeeds (readStates root) ↔
    member (.object root) "states" = .null ∨ IsObject (member (.object root) "states") := by
  unfold readStates
  rcases Members.present_cases root "states" with ⟨hp, hm⟩ | ⟨value, hp, hm, hv⟩
  · rw [hp, hm]
    exact iff_of_true (succeeds_ok []) (.inl rfl)
  · rw [hp, hm]
    refine orError_succeeds.trans ((exists_congr fun _ => Json.members?_eq_some).trans ?_)
    exact ⟨.inr, fun h => h.resolve_left hv⟩

/-- The members of the object of states, whether it is there or not. -/
theorem member_readStates (h : readStates root = .ok states) (key : String) :
    member (.object states) key = member (member (.object root) "states") key := by
  unfold readStates at h
  rcases Members.present_cases root "states" with ⟨hp, hm⟩ | ⟨value, hp, hm, -⟩
  · rw [hp] at h
    cases h
    rw [hm]
    rfl
  · rw [hp] at h
    rw [hm, Json.members?_eq_some.1 (orError_eq_ok h)]

theorem first_readStates (h : readStates root = .ok states) (key other : String) :
    first (.object states) key other = first (member (.object root) "states") key other := by
  unfold first
  rw [member_readStates h, member_readStates h]

theorem readInitial_succeeds : Succeeds (readInitial states) ↔
    AtMostString (member (.object states) "initialState") := by
  unfold readInitial AtMostString
  rcases Members.present_cases states "initialState" with ⟨hp, hm⟩ | ⟨value, hp, hm, hv⟩
  · rw [hp, hm]
    exact iff_of_true (succeeds_ok _) (.inl rfl)
  · rw [hp, hm]
    exact (string_succeeds _).trans ⟨.inr, fun h => h.resolve_left hv⟩

theorem readInitial_eq_ok {name : String} (h : readInitial states = .ok name) :
    name = (member (.object states) "initialState").string?.getD defaultInitialState := by
  unfold readInitial at h
  rcases Members.present_cases states "initialState" with ⟨hp, hm⟩ | ⟨value, hp, hm, -⟩
  · rw [hp] at h
    cases h
    rw [hm]
    rfl
  · rw [hp] at h
    rw [hm, orError_eq_ok h]
    rfl

/-- **Reading the list of allowed states**: there is none, or it is a list of strings. -/
theorem readAllowed_eq_ok {allowed : Option (List String)} : readAllowed states = .ok allowed ↔
    (first (.object states) "knownStates" "explicitStates" = .null ∧ allowed = none) ∨
      ∃ names, first (.object states) "knownStates" "explicitStates" = .ofStrings names ∧
        allowed = some names.eraseDups := by
  unfold readAllowed
  rcases Members.firstPresent_cases states "knownStates" "explicitStates" with
    ⟨hp, hf⟩ | ⟨value, hp, hf, hv⟩
  · rw [hp, hf]
    refine ⟨fun h => .inl ⟨rfl, (Except.ok.inj h).symm⟩, ?_⟩
    rintro (⟨-, rfl⟩ | ⟨names, h, -⟩)
    · rfl
    · exact nomatch h
  · rw [hp, hf]
    cases value with
    | null => exact absurd rfl hv
    | array items =>
      constructor
      · intro h
        obtain ⟨names, hnames, rfl⟩ := except_map_eq_ok.1 h
        exact .inr ⟨names, congrArg Json.array (stringsOr_eq_ok_iff.1 hnames), rfl⟩
      · rintro (⟨h, -⟩ | ⟨names, h, rfl⟩)
        · exact nomatch h
        · exact except_map_eq_ok.2 ⟨names, stringsOr_eq_ok_iff.2 (Json.array.inj h), rfl⟩
    | _ =>
      refine iff_of_false (fun h => nomatch h) ?_
      rintro (⟨h, -⟩ | ⟨names, h, -⟩)
      · exact nomatch h
      · exact nomatch h

theorem readAllowed_succeeds : Succeeds (readAllowed states) ↔
    first (.object states) "knownStates" "explicitStates" = .null ∨
      IsStrings (first (.object states) "knownStates" "explicitStates") := by
  constructor
  · rintro ⟨allowed, h⟩
    rcases readAllowed_eq_ok.1 h with ⟨hnull, -⟩ | ⟨names, hnames, -⟩
    · exact .inl hnull
    · exact .inr ⟨names, hnames⟩
  · rintro (hnull | ⟨names, hnames⟩)
    · exact ⟨none, readAllowed_eq_ok.2 (.inl ⟨hnull, rfl⟩)⟩
    · exact ⟨some names.eraseDups, readAllowed_eq_ok.2 (.inr ⟨names, hnames, rfl⟩)⟩

end Declaration

/-- **Reading a whole definition.** -/
theorem declaration_succeeds {spec : Json} : Succeeds (Declaration.read spec) ↔
    IsObject spec ∧ (∃ entry others, member spec "events" = .object (entry :: others)) ∧
      (member spec "states" = .null ∨ IsObject (member spec "states")) ∧
        AtMostString (member (member spec "states") "initialState") ∧
          (allowList spec = .null ∨ IsStrings (allowList spec)) ∧
            ∀ entry ∈ events spec, AcceptsEvent entry.2 := by
  have hentries : ∀ members : Members,
      Succeeds (members.mapM fun entry => EventDeclaration.read entry.1 entry.2) ↔
        ∀ entry ∈ members, AcceptsEvent entry.2 := fun members =>
    succeeds_mapM.trans (forall₂_congr fun entry _ => event_succeeds entry.1)
  constructor
  · rintro ⟨declaration, h⟩
    obtain ⟨root, members, rfl, hevents, hstates, hsome, hinitial, hallowed, hread⟩ :=
      Declaration.read_iff.1 h
    have hmember := Declaration.readEvents_eq_ok hevents
    refine ⟨⟨root, rfl⟩, ?_, Declaration.readStates_succeeds.1 ⟨_, hstates⟩, ?_, ?_, ?_⟩
    · rw [hmember]
      obtain ⟨entry, others, rfl⟩ := List.exists_cons_of_ne_nil hsome
      exact ⟨entry, others, rfl⟩
    · rw [← Declaration.member_readStates hstates]
      exact Declaration.readInitial_succeeds.1 ⟨_, hinitial⟩
    · unfold allowList
      rw [← Declaration.first_readStates hstates]
      exact Declaration.readAllowed_succeeds.1 ⟨_, hallowed⟩
    · unfold events
      rw [hmember]
      exact (hentries members).1 ⟨_, hread⟩
  · rintro ⟨⟨root, rfl⟩, ⟨entry, others, hmember⟩, hstates, hinitial, hallowed, hevents⟩
    obtain ⟨states, hstates⟩ := Declaration.readStates_succeeds.2 hstates
    obtain ⟨members, hread⟩ := Declaration.readEvents_succeeds.2 ⟨_, hmember⟩
    obtain rfl := Json.object.inj ((Declaration.readEvents_eq_ok hread).symm.trans hmember)
    rw [← Declaration.member_readStates hstates] at hinitial
    unfold allowList at hallowed
    rw [← Declaration.first_readStates hstates] at hallowed
    unfold events at hevents
    rw [hmember] at hevents
    obtain ⟨initial, hinitial⟩ := Declaration.readInitial_succeeds.2 hinitial
    obtain ⟨allowed, hallowed⟩ := Declaration.readAllowed_succeeds.2 hallowed
    obtain ⟨declarations, hdeclarations⟩ := (hentries (entry :: others)).2 hevents
    exact ⟨⟨initial, allowed, declarations, states⟩, Declaration.read_iff.2 ⟨root, entry :: others, rfl,
      hread, hstates, List.cons_ne_nil _ _, hinitial, hallowed, hdeclarations⟩⟩

/-! ## Known states -/

theorem implicit_eq (object : Json) : implicit? object = (freeKeys object).head? :=
  List.head?_filter.symm

/-- A transition object leads from some state. -/
theorem Reading.Maps.entries_ne_nil {object : Json} (h : Maps object) : entries object ≠ [] := by
  unfold entries
  rw [implicit_eq]
  rcases h with ⟨hkeys, -, -, -⟩ | ⟨hkeys, hfrom, -⟩
  · rw [hkeys]
    exact List.cons_ne_nil _ _
  · rw [hkeys]
    obtain ⟨hitems, hnames⟩ := namesStates_iff.1 hfrom
    obtain ⟨names, hstrings⟩ := toItems_strings.2 hnames
    obtain ⟨name, others, rfl⟩ : ∃ name others, names = name :: others :=
      List.exists_cons_of_ne_nil fun h => hitems (by rw [hstrings, h]; rfl)
    simp only [List.head?_nil, strings_eq, hstrings]
    exact List.cons_ne_nil _ _

theorem mem_mentioned_declared {name : String} {event : Json} (h : AcceptsEvent event) {state : String} :
    state ∈ (declared name event).mentioned ↔ state ≠ everyState ∧ state ≠ sameState ∧
      ∃ object ∈ objects event, state ∈ entries object ∨ state = target object := by
  have hobject : ∀ object ∈ objects event,
      (∃ source ∈ entries object, state ∈ [source, target object]) ↔
        (state ∈ entries object ∨ state = target object) := by
    intro object ho
    obtain ⟨first, hfirst⟩ := List.exists_mem_of_ne_nil _ (h.transitions object ho).maps.entries_ne_nil
    constructor
    · rintro ⟨source, hsource, hmem⟩
      rcases List.mem_cons.1 hmem with rfl | hmem
      · exact .inl hsource
      · exact .inr (List.mem_singleton.1 hmem)
    · rintro (hmem | rfl)
      · exact ⟨state, hmem, List.mem_cons_self⟩
      · exact ⟨first, hfirst, List.mem_cons_of_mem _ (List.mem_singleton.2 rfl)⟩
  have hmapping : ∀ object, state ∈ (mapping event object).mentioned ↔
      (∃ source ∈ entries object, state ∈ [source, target object]) ∧
        (state ≠ everyState ∧ state ≠ sameState) := by
    intro object
    unfold Mapping.mentioned
    rw [List.mem_filter, List.mem_flatMap, Bool.and_eq_true, bne_iff_ne, bne_iff_ne]
    rfl
  unfold EventDeclaration.mentioned declared
  rw [List.mem_flatMap]
  constructor
  · rintro ⟨read, hread, hmem⟩
    obtain ⟨object, ho, rfl⟩ := List.mem_map.1 hread
    obtain ⟨hsource, hevery, hsame⟩ := (hmapping object).1 hmem
    exact ⟨hevery, hsame, object, ho, (hobject object ho).1 hsource⟩
  · rintro ⟨hevery, hsame, object, ho, hstate⟩
    exact ⟨mapping event object, List.mem_map_of_mem ho,
      (hmapping object).2 ⟨(hobject object ho).2 hstate, hevery, hsame⟩⟩

namespace Declaration

variable {spec : Json} {declaration : Declaration}

/-- The events that are read are those that the value has. -/
theorem events_eq_ok (h : Declaration.read spec = .ok declaration) :
    declaration.events = (Reading.events spec).map fun (name, event) => declared name event := by
  obtain ⟨⟨members, hmember, hevents⟩, -⟩ := Declaration.read_eq_ok h
  unfold Reading.events
  rw [hmember]
  exact hevents

theorem initial_eq_ok (h : Declaration.read spec = .ok declaration) :
    declaration.initialState = Reading.initialState spec := by
  obtain ⟨root, -, rfl, -, hstates, -, hinitial, -⟩ := Declaration.read_iff.1 h
  rw [readInitial_eq_ok hinitial, member_readStates hstates]
  rfl

/-- **The states that a declaration mentions** are those that the value mentions. -/
theorem mem_mentioned (h : Declaration.read spec = .ok declaration) {state : String} :
    state ∈ declaration.mentioned ↔ Mentions spec state := by
  have hevents : ∀ entry ∈ Reading.events spec, AcceptsEvent entry.2 :=
    (declaration_succeeds.1 ⟨_, h⟩).2.2.2.2.2
  unfold mentioned Mentions
  rw [List.mem_eraseDups, List.mem_cons, initial_eq_ok h, events_eq_ok h, List.mem_flatMap]
  refine or_congr_right ?_
  constructor
  · rintro ⟨event, hevent, hmem⟩
    obtain ⟨entry, hentry, rfl⟩ := List.mem_map.1 hevent
    obtain ⟨hevery, hsame, hobject⟩ := (mem_mentioned_declared (hevents entry hentry)).1 hmem
    exact ⟨hevery, hsame, entry, hentry, hobject⟩
  · rintro ⟨hevery, hsame, entry, hentry, hobject⟩
    exact ⟨declared entry.1 entry.2, List.mem_map.2 ⟨entry, hentry, rfl⟩,
      (mem_mentioned_declared (hevents entry hentry)).2 ⟨hevery, hsame, hobject⟩⟩

/-- **Naming the states** fails only if the list of allowed states is not what is mentioned. -/
theorem stateNames_succeeds : Succeeds declaration.stateNames ↔
    ∀ names, declaration.allowed = some names →
      ∀ state, state ∈ names ↔ state ∈ declaration.mentioned := by
  unfold stateNames
  cases declaration.allowed with
  | none => exact iff_of_true (succeeds_ok _) fun names h => nomatch h
  | some allowed =>
    have hsame : (∀ names, some allowed = some names →
        ∀ state, state ∈ names ↔ state ∈ declaration.mentioned) ↔
          (∀ state ∈ declaration.mentioned, state ∈ allowed) ∧
            ∀ state ∈ allowed, state ∈ declaration.mentioned := by
      constructor
      · intro h
        exact ⟨fun state => (h allowed rfl state).2, fun state => (h allowed rfl state).1⟩
      · rintro ⟨hmem, hmem'⟩ names hnames state
        cases hnames
        exact ⟨hmem' state, hmem state⟩
    have hfind : ∀ l l' : List String, (l.find? fun name => !l'.contains name) = none ↔
        ∀ state ∈ l, state ∈ l' := by
      intro l l'
      rw [List.find?_eq_none]
      refine forall₂_congr fun state _ => ?_
      simp
    rw [hsame, ← hfind, ← hfind]
    dsimp only
    cases declaration.mentioned.find? fun name => !allowed.contains name with
    | some missing => exact iff_of_false (not_succeeds_error _) fun h => nomatch h.1
    | none =>
      cases allowed.find? fun name => !declaration.mentioned.contains name with
      | some unused => exact iff_of_false (not_succeeds_error _) fun h => nomatch h.2
      | none => exact iff_of_true (succeeds_ok _) ⟨rfl, rfl⟩

/-- The states that were named are those that are mentioned. -/
theorem mem_stateNames {known : List String} (h : declaration.stateNames = .ok known) {state : String} :
    state ∈ known ↔ state ∈ declaration.mentioned := by
  have hsame := stateNames_succeeds.1 ⟨known, h⟩
  unfold stateNames at h
  cases hallowed : declaration.allowed with
  | none =>
    rw [hallowed] at h
    cases h
    rfl
  | some allowed =>
    rw [hallowed] at h
    dsimp only at h
    split at h
    · exact nomatch h
    · split at h
      · exact nomatch h
      · cases h
        exact hsame _ hallowed state

/-- The list of allowed states, as the value has it. -/
theorem allowed_iff (h : Declaration.read spec = .ok declaration) :
    (∀ names, declaration.allowed = some names →
        ∀ state, state ∈ names ↔ state ∈ declaration.mentioned) ↔
      ∀ names, allowList spec = .ofStrings names → ∀ state, state ∈ names ↔ Mentions spec state := by
  obtain ⟨root, -, hroot, -, hstates, -, -, hallowed, -⟩ := Declaration.read_iff.1 h
  have hlist := readAllowed_eq_ok.1 hallowed
  rw [first_readStates hstates, ← hroot] at hlist
  change (allowList spec = .null ∧ _) ∨ (∃ names, allowList spec = .ofStrings names ∧ _) at hlist
  simp only [mem_mentioned h]
  rcases hlist with ⟨hnull, hnone⟩ | ⟨listed, hlisted, hsome⟩
  · rw [hnull, hnone]
    exact iff_of_true (fun names hnames => nomatch hnames) fun names hnames => nomatch hnames
  · rw [hlisted, hsome]
    constructor
    · intro hall names hnames state
      obtain rfl := Json.ofStrings_inj.1 hnames
      rw [← hall _ rfl state, List.mem_eraseDups]
    · rintro hall names ⟨⟩ state
      rw [List.mem_eraseDups]
      exact hall listed rfl state

end Declaration

/-! ## Records that clash -/

theorem guards_none (record : Record) :
    (decide (record.guards = ⟨none, none⟩)) = !record.isGuarded := by
  unfold Record.isGuarded
  cases hany : record.guards.any with
  | false => exact decide_eq_true (any_eq_false.1 hany)
  | true =>
    refine decide_eq_false fun h => ?_
    rw [any_eq_false.2 h] at hany
    exact nomatch hany

theorem clash_eq_none {taken : List String} {records : List Record} :
    Record.clash? taken records = none ↔
      (∀ r ∈ records.filter fun r => !r.isGuarded, r.fromState ∉ taken) ∧
        ((records.filter fun r => !r.isGuarded).map (·.fromState)).Nodup := by
  induction records generalizing taken with
  | nil => exact iff_of_true rfl ⟨fun r h => absurd h List.not_mem_nil, .nil⟩
  | cons r rest ih =>
    unfold Record.clash?
    cases hg : r.isGuarded with
    | true =>
      rw [List.filter_cons_of_neg (by simp [hg])]
      exact ih
    | false =>
      rw [List.filter_cons_of_pos (by simp [hg]), List.forall_mem_cons, List.map_cons, List.nodup_cons]
      by_cases htaken : r.fromState ∈ taken
      · rw [if_neg (by decide), if_pos (List.contains_iff_mem.2 htaken)]
        exact iff_of_false (fun h => nomatch h) fun h => h.1.1 htaken
      · rw [if_neg (by decide), if_neg fun h => htaken (List.contains_iff_mem.1 h), ih]
        constructor
        · rintro ⟨hfree, hnodup⟩
          refine ⟨⟨htaken, fun r' hr' h => hfree r' hr' (List.mem_cons_of_mem _ h)⟩, fun h => ?_, hnodup⟩
          obtain ⟨r', hr', hsame⟩ := List.mem_map.1 h
          exact hfree r' hr' (List.mem_cons.2 (.inl hsame))
        · rintro ⟨⟨-, hfree⟩, hnew, hnodup⟩
          refine ⟨fun r' hr' h => ?_, hnodup⟩
          rcases List.mem_cons.1 h with hsame | h
          · exact hnew (List.mem_map.2 ⟨r', hr', hsame⟩)
          · exact hfree r' hr' h

/-- **Records do not clash** if from each state there is at most one that is not guarded. -/
theorem clash_iff {records : List Record} : Record.clash? [] records = none ↔
    ∀ state, ((records.filter (·.fromState == state)).filter fun r => !r.isGuarded).length ≤ 1 := by
  rw [clash_eq_none, and_iff_right fun r _ => List.not_mem_nil, List.nodup_iff_count]
  refine forall_congr' fun state => ?_
  rw [List.count_eq_countP, List.countP_map, List.countP_filter, List.countP_eq_length_filter,
    List.filter_filter]
  simp only [Function.comp_def, Bool.and_comm]

section

variable {spec : Json} {known : List String} {entry : String × Json}

/-- An event that is accepted has records, whatever the known states are. -/
theorem records_ne_nil (h : AcceptsEvent entry.2) (hknown : known ≠ []) :
    (declared entry.1 entry.2).records known ≠ [] := by
  obtain ⟨object, hobject⟩ := List.exists_mem_of_ne_nil _ h.nonempty
  obtain ⟨source, hsource⟩ := List.exists_mem_of_ne_nil _ (h.transitions object hobject).maps.entries_ne_nil
  have hexpand : Mapping.expandSource known source ≠ [] := by
    unfold Mapping.expandSource
    split
    · exact hknown
    · exact List.cons_ne_nil _ _
  obtain ⟨state, hstate⟩ := List.exists_mem_of_ne_nil _ hexpand
  have hrecord : _ ∈ (declared entry.1 entry.2).records known :=
    List.mem_flatMap.2 ⟨mapping entry.2 object, List.mem_map_of_mem hobject,
      List.mem_map_of_mem (List.mem_flatMap.2 ⟨source, hsource, hstate⟩)⟩
  exact List.ne_nil_of_mem hrecord

/-- The records of an event start at states that the value mentions. -/
theorem records_mentioned (hmem : ∀ state, state ∈ known ↔ Mentions spec state)
    (hentry : entry ∈ events spec) (h : AcceptsEvent entry.2) {record : Record}
    (hr : record ∈ (declared entry.1 entry.2).records known) : Mentions spec record.fromState := by
  have hsame : ∀ read ∈ (declared entry.1 entry.2).mappings, sameState ∉ read.sources := by
    intro read hread
    obtain ⟨object, hobject, rfl⟩ := List.mem_map.1 hread
    exact (h.transitions object hobject).notSame
  have hknown : ∀ name ∈ (declared entry.1 entry.2).mentioned, name ∈ known := by
    intro name hname
    obtain ⟨hevery, hother, hobject⟩ := (mem_mentioned_declared h).1 hname
    exact (hmem name).2 (.inr ⟨hevery, hother, entry, hentry, hobject⟩)
  exact (hmem _).1 (EventDeclaration.states_mem hsame hknown hr).1

/-- **An event compiles** unless it leaves some state in two ways that are not guarded. -/
theorem compile_event_succeeds (hnodup : known.Nodup) (hmem : ∀ state, state ∈ known ↔ Mentions spec state)
    (hentry : entry ∈ events spec) (h : AcceptsEvent entry.2) :
    Succeeds ((declared entry.1 entry.2).compile known) ↔ ∀ state, Mentions spec state →
      ((recordsFrom entry.1 entry.2 state).filter fun record => record.guards = ⟨none, none⟩).length ≤ 1 := by
  have hknown : known ≠ [] := List.ne_nil_of_mem ((hmem (initialState spec)).2 (.inl rfl))
  have hfrom : ∀ state, Mentions spec state →
      ((declared entry.1 entry.2).records known).filter (·.fromState == state) =
        recordsFrom entry.1 entry.2 state := by
    intro state hstate
    rw [records_declared]
    exact filter_objects hnodup ((hmem state).2 hstate) entry.1 entry.2
  have hclash : Succeeds ((declared entry.1 entry.2).compile known) ↔
      Record.clash? [] ((declared entry.1 entry.2).records known) = none := by
    constructor
    · rintro ⟨event, hevent⟩
      exact (EventDeclaration.compile_eq_ok.1 hevent).2.1
    · intro hnone
      exact ⟨_, EventDeclaration.compile_eq_ok.2 ⟨records_ne_nil h hknown, hnone, rfl⟩⟩
  rw [hclash, clash_iff]
  simp only [guards_none]
  refine forall_congr' fun state => ?_
  by_cases hstate : Mentions spec state
  · rw [hfrom state hstate]
    exact ⟨fun h _ => h, fun h => h hstate⟩
  · -- nothing starts at a state that is not mentioned
    have hnil : ((declared entry.1 entry.2).records known).filter (·.fromState == state) = [] := by
      refine List.filter_eq_nil_iff.2 fun record hr hsame => hstate ?_
      rw [← beq_iff_eq.1 hsame]
      exact records_mentioned hmem hentry h hr
    rw [hnil]
    exact iff_of_true (Nat.zero_le 1) fun h => absurd h hstate

end

/-! ## Hooks -/

namespace StateHook

variable {known : List String}

theorem hookKey_isNone {key : String} :
    (Phase.ofHookKey? key).isNone = true ↔ ¬ ∃ phase ∈ hookPhases, key = phaseKey phase := by
  simp only [hookPhases_eq, phaseKey_eq]
  unfold Phase.ofHookKey?
  rw [Option.isNone_iff_eq_none, List.find?_eq_none]
  constructor
  · rintro h ⟨phase, hphase, rfl⟩
    exact h phase hphase (decide_eq_true rfl)
  · intro h phase hphase hkey
    exact h ⟨phase, hphase, (of_decide_eq_true hkey).symm⟩

/-- **Reading the hooks of a state.** -/
theorem readState_succeeds {state : String} {value : Json} :
    Succeeds (readState known state value : Except DefinitionError (List (StateHook κ))) ↔
      AcceptsHooks value ∧ state ∈ known := by
  have hread : Succeeds (readState known state value : Except DefinitionError (List (StateHook κ))) ↔
      Succeeds (orError (.invalidStateProperty state .hookObject) value.members?) ∧
        (∀ members, value = .object members →
          ∀ hook ∈ members, ∃ phase ∈ hookPhases, hook.1 = phaseKey phase) ∧ state ∈ known ∧
            ∀ phase ∈ hookPhases, NamesCallbacks (member value (phaseKey phase)) := by
    refine succeeds_bind_const fun members hmembers => ?_
    obtain rfl := Json.members?_eq_some.1 (orError_eq_ok hmembers)
    dsimp only
    split
    · rename_i key _ hfound
      refine iff_of_false not_succeeds_throw fun h => ?_
      have hkey := h.1 members rfl _ (List.mem_of_find?_eq_some hfound)
      have hnone := List.find?_some hfound
      exact hookKey_isNone.1 hnone hkey
    · rename_i hnone
      have hkeys : ∀ members', Json.object members = .object members' →
          ∀ hook ∈ members', ∃ phase ∈ hookPhases, hook.1 = phaseKey phase := by
        rintro _ ⟨⟩ hook hhook
        by_contra hkey
        exact List.find?_eq_none.1 hnone hook hhook (hookKey_isNone.2 hkey)
      rw [succeeds_check, and_iff_right hkeys, Bool.not_eq_true', Bool.not_eq_false,
        List.contains_iff_mem, succeeds_bind_pure, succeeds_mapM]
      refine and_congr_right fun _ => forall₂_congr fun phase _ => ?_
      rw [succeeds_bind_pure, stringsOr_succeeds, phaseKey_eq]
      exact toItems_strings
  rw [hread, orError_succeeds, exists_congr fun members => Json.members?_eq_some]
  constructor
  · rintro ⟨⟨members, rfl⟩, hkeys, hknown, hnames⟩
    exact ⟨⟨⟨members, rfl, hkeys members rfl⟩, hnames⟩, hknown⟩
  · rintro ⟨⟨⟨members, rfl, hkeys⟩, hnames⟩, hknown⟩
    refine ⟨⟨members, rfl⟩, ?_, hknown, hnames⟩
    rintro _ ⟨⟩
    exact hkeys

theorem readAll_succeeds {states : Members} :
    Succeeds (readAll known states : Except DefinitionError (List (StateHook κ))) ↔
      ∀ entry ∈ states, entry.1 ∉ stateKeys → entry.2 ≠ .null →
        AcceptsHooks entry.2 ∧ entry.1 ∈ known := by
  have hread : Succeeds (readAll known states : Except DefinitionError (List (StateHook κ))) ↔
      ∀ entry ∈ states.filter fun (key, value) => !reservedStateKeys.contains key && !value.isNull,
        AcceptsHooks entry.2 ∧ entry.1 ∈ known := by
    unfold readAll
    rw [← forall₂_congr fun entry _ => readState_succeeds (κ := κ), ← succeeds_mapM]
    exact succeeds_bind_pure
  rw [hread]
  simp only [List.mem_filter, Bool.and_eq_true, Bool.not_eq_true', ← Bool.not_eq_true, Json.isNull_iff,
    List.contains_iff_mem, and_imp, ne_eq]
  rfl

theorem ofInline_succeeds {hook : InlineHook κ} : Succeeds (ofInline known hook) ↔
    hook.phase ∈ hookPhases ∧ hook.state ∈ known := by
  have hphase : hook.phase.side?.isNone = false ↔ hook.phase ∈ hookPhases := by
    cases hook.phase <;> decide
  unfold ofInline
  rw [← hphase, ← List.contains_iff_mem]
  cases hook.phase.side?.isNone with
  | true => exact iff_of_false (not_succeeds_error _) fun h => nomatch h.1
  | false =>
    cases known.contains hook.state with
    | false => exact iff_of_false (not_succeeds_error _) fun h => nomatch h.2
    | true => exact iff_of_true (succeeds_ok _) ⟨rfl, rfl⟩

end StateHook

/-! ## Definitions -/

/-- The part of compilation that compares what was read. -/
theorem compile_declaration_succeeds {spec : Json} {inline : List (InlineHook κ)}
    {declaration : Declaration} (h : Declaration.read spec = .ok declaration) :
    Succeeds (declaration.compile inline) ↔
      (∀ names, allowList spec = .ofStrings names → ∀ state, state ∈ names ↔ Mentions spec state) ∧
        (∀ entry ∈ events spec, ∀ state, Mentions spec state →
          ((recordsFrom entry.1 entry.2 state).filter fun record => record.guards = ⟨none, none⟩).length ≤ 1) ∧
          (∀ entry ∈ states spec, entry.1 ∉ stateKeys → entry.2 ≠ .null →
            AcceptsHooks entry.2 ∧ Mentions spec entry.1) ∧
            ∀ hook ∈ inline, hook.phase ∈ hookPhases ∧ Mentions spec hook.state := by
  have haccepts := (declaration_succeeds.1 ⟨_, h⟩).2.2.2.2.2
  rw [← Declaration.allowed_iff h, ← Declaration.stateNames_succeeds]
  refine succeeds_bind_const fun known hknown => ?_
  have hmem : ∀ state, state ∈ known ↔ Mentions spec state := fun state =>
    (Declaration.mem_stateNames hknown).trans (Declaration.mem_mentioned h)
  have hnodup : known.Nodup :=
    (Declaration.stateNames_eq_ok hknown (Declaration.read_eq_ok h).2.2).1
  have hevents : Succeeds (declaration.events.mapM (EventDeclaration.compile known)) ↔
      ∀ entry ∈ events spec, ∀ state, Mentions spec state →
        ((recordsFrom entry.1 entry.2 state).filter fun record => record.guards = ⟨none, none⟩).length ≤ 1 := by
    rw [succeeds_mapM, Declaration.events_eq_ok h, List.forall_mem_map]
    exact forall₂_congr fun entry hentry =>
      compile_event_succeeds hnodup hmem hentry (haccepts entry hentry)
  have hhooks : Succeeds (StateHook.readAll known declaration.states :
        Except DefinitionError (List (StateHook κ))) ↔
      ∀ entry ∈ states spec, entry.1 ∉ stateKeys → entry.2 ≠ .null →
        AcceptsHooks entry.2 ∧ Mentions spec entry.1 := by
    rw [StateHook.readAll_succeeds, Declaration.states_eq_ok h]
    simp only [hmem]
    rfl
  have hinline : Succeeds (inline.mapM (StateHook.ofInline known)) ↔
      ∀ hook ∈ inline, hook.phase ∈ hookPhases ∧ Mentions spec hook.state := by
    rw [succeeds_mapM]
    simp only [StateHook.ofInline_succeeds, hmem]
  rw [← hevents, ← hhooks, ← hinline]
  refine succeeds_bind_const fun compiled _ => succeeds_bind_const fun hooks _ => ?_
  exact succeeds_bind_pure

/-- **A value compiles with inline hooks** just under the conditions of `Reading.Accepts`. -/
theorem compile_succeeds_iff (spec : Json) (inline : List (InlineHook κ)) :
    (∃ definition, Definition.compile spec inline = .ok definition) ↔ Accepts spec inline := by
  have hcompile : Succeeds (Definition.compile spec inline) ↔ Succeeds (Declaration.read spec) ∧ _ :=
    succeeds_bind_const fun declaration h => compile_declaration_succeeds h
  refine hcompile.trans ?_
  rw [declaration_succeeds]
  constructor
  · rintro ⟨⟨hobject, hevents, hstates, hinitial, hlist, haccepts⟩, hallowed, hclash, hhooks, hinline⟩
    exact ⟨hobject, hevents, hstates, hinitial, hlist, haccepts, hallowed, hclash, hhooks, hinline⟩
  · rintro ⟨hobject, hevents, hstates, hinitial, hlist, haccepts, hallowed, hclash, hhooks, hinline⟩
    exact ⟨⟨hobject, hevents, hstates, hinitial, hlist, haccepts⟩, hallowed, hclash, hhooks, hinline⟩

end StateEngine
