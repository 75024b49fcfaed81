import StateEngine.Proofs.Entering
import StateEngine.Proofs.ErrorEvent

/-!
# Members that are null

A member that is `null` may as well not be there: in the value of a definition, in its object of states, in its
events and in their transition objects. The readers find this out in different ways. Some ask for a member that
is there and has a value, some for the first of two, some list the keys that have values, and callbacks are read
from a value that is `null` if there is none. All of these come to the same once the nulls are gone.

* `Reading.withoutNulls`: a value without the members that are `null`.
* `Members.present?_present`, `Members.present?_changed`: what is asked for is found as before.
* `Mapping.read_present`, `EventDeclaration.read_prunedEvent`, `Declaration.read_withoutNulls`: each reader reads
  the same, or fails in the same way.
* `compile_withoutNulls`: **members that are null change nothing.**
-/

namespace StateEngine

variable {κ : Type}

/-! ## Values without nulls -/

/-- The members that are not `null`. -/
def Members.present (members : Members) : Members := members.filter fun member => !member.2.isNull

namespace Json

/-- An object with its members changed. Any other value stays as it is. -/
def withMembers (f : Members → Members) : Json → Json
  | object members => object (f members)
  | value => value

/-- A list with its items changed. Any other value is changed as the one item that it is. -/
def withItems (f : Json → Json) : Json → Json
  | array items => array (items.map f)
  | value => f value

end Json

/-- An object without its own members that are `null`. -/
def Json.pruned (value : Json) : Json := value.withMembers Members.present

/-- The members of an event that are not `null`, with no nulls in its transition objects. -/
def Members.prunedEvent (members : Members) : Members :=
  ((members.change "transition" (Json.withItems Json.pruned)).change "transitions"
    (Json.withItems Json.pruned)).present

/-- The object of events, each without nulls. The events themselves all stay. -/
def Json.prunedEvents (events : Json) : Json :=
  events.withMembers (List.map fun entry => (entry.1, entry.2.withMembers Members.prunedEvent))

/-- The members of a whole value that are not `null`, with no nulls in its object of states and its events. -/
def Members.prunedRoot (members : Members) : Members :=
  ((members.change "states" Json.pruned).change "events" Json.prunedEvents).present

/-- **A value without the members that are `null`**: in itself, in its object of states, in each of its events and
in each of their transition objects. -/
def Reading.withoutNulls (spec : Json) : Json := spec.withMembers Members.prunedRoot

open Reading

/-! ## What is asked for -/

namespace Members

variable {members : Members} {key : String}

/-- In an object that has no key twice, just the members that have a value are found once the others are gone. -/
theorem lookup_present (h : (members.map (·.1)).Nodup) (key : String) :
    members.present.lookup key = members.present? key := by
  unfold present present?
  induction members with
  | nil => rfl
  | cons member rest ih =>
    obtain ⟨k, value⟩ := member
    obtain ⟨hk, hrest⟩ := List.nodup_cons.1 h
    have ih := ih hrest
    rw [List.filter_cons, List.lookup_cons]
    by_cases heq : key = k
    · -- there is no other member of the key, so that nothing takes the place of a null
      subst heq
      have hnone : rest.lookup key = none := by
        refine List.lookup_eq_none_iff.2 fun entry hentry => bne_iff_ne.2 fun hkey => hk ?_
        exact List.mem_map.2 ⟨entry, hentry, hkey.symm⟩
      rw [hnone] at ih
      cases hnull : value.isNull <;> simp [hnull, ih, Option.filter_some]
    · have hbeq : (key == k) = false := beq_eq_false_iff_ne.2 heq
      cases hnull : value.isNull <;> simp [hbeq, ih, List.lookup_cons]

theorem present?_present (h : (members.map (·.1)).Nodup) (key : String) :
    members.present.present? key = members.present? key := by
  rw [present?, lookup_present h, present?, Option.filter_filter]
  simp

theorem presentKeys_present : members.present.presentKeys = members.presentKeys := by
  simp [presentKeys, present, List.filter_filter]

theorem map_fst_change (members : Members) (key : String) (f : Json → Json) :
    (members.change key f).map (·.1) = members.map (·.1) := by
  induction members with
  | nil => rfl
  | cons member rest ih =>
    rw [change_cons, List.map_cons, ih, List.map_cons]

/-- A change of a member is seen by those who ask for it, unless it makes a null of a value or the other way. -/
theorem present?_change {f : Json → Json} (hf : ∀ value, (f value).isNull = value.isNull) (members : Members)
    (key k : String) : (members.change key f).present? k =
      if k = key then (members.present? k).map f else members.present? k := by
  unfold present?
  rw [lookup_change]
  split
  · cases members.lookup k with
    | none => rfl
    | some value => cases hnull : value.isNull <;> simp [Option.filter_some, hf, hnull]
  · rfl

/-- What is asked for once two members were changed and the nulls are gone. -/
theorem present?_changed {f : Json → Json} (hf : ∀ value, (f value).isNull = value.isNull) {g : Json → Json}
    (hg : ∀ value, (g value).isNull = value.isNull) (h : (members.map (·.1)).Nodup) {key other : String}
    (hne : key ≠ other) (k : String) : ((members.change key f).change other g).present.present? k =
      if k = other then (members.present? k).map g
      else if k = key then (members.present? k).map f else members.present? k := by
  have hnodup : (((members.change key f).change other g).map (·.1)).Nodup := by
    rwa [map_fst_change, map_fst_change]
  rw [present?_present hnodup, present?_change hg, present?_change hf]
  split
  · rename_i hk
    rw [if_neg fun heq => hne (heq.symm.trans hk)]
  · rfl

theorem firstPresent?_congr {members others : Members} {keys : List String}
    (h : ∀ key ∈ keys, members.present? key = others.present? key) :
    members.firstPresent? keys = others.firstPresent? keys := by
  unfold firstPresent?
  induction keys with
  | nil => rfl
  | cons key keys ih =>
    rw [List.findSome?_cons, List.findSome?_cons, h key List.mem_cons_self,
      ih fun k hk => h k (List.mem_cons_of_mem key hk)]

/-- A member that is `null` reads like one that is not there. -/
theorem getD_present? (members : Members) (key : String) :
    (members.present? key).getD .null = (members.lookup key).getD .null := by
  unfold present?
  cases members.lookup key with
  | none => rfl
  | some value => cases value <;> rfl

end Members

namespace Json

theorem isNull_withMembers (f : Members → Members) (value : Json) :
    (value.withMembers f).isNull = value.isNull := by
  cases value <;> rfl

theorem isNull_withItems {f : Json → Json} (hf : ∀ value, (f value).isNull = value.isNull) (value : Json) :
    (value.withItems f).isNull = value.isNull := by
  cases value with
  | array items => rfl
  | _ => exact hf _

theorem toItems_withItems (f : Members → Members) (value : Json) :
    (value.withItems (withMembers f)).toItems = value.toItems.map (withMembers f) := by
  cases value <;> rfl

theorem AllWellFormed.mem {items : List Json} (h : AllWellFormed items) : ∀ item ∈ items, item.WellFormed := by
  induction items with
  | nil => simp
  | cons first rest ih =>
    rw [List.forall_mem_cons]
    exact ⟨h.1, ih h.2⟩

theorem MembersWellFormed.mem {members : Members} (h : MembersWellFormed members) :
    ∀ entry ∈ members, entry.2.WellFormed := by
  induction members with
  | nil => simp
  | cons member rest ih =>
    rw [List.forall_mem_cons]
    exact ⟨h.1, ih h.2⟩

theorem MembersWellFormed.present? {members : Members} (h : MembersWellFormed members) {key : String}
    {value : Json} (hv : members.present? key = some value) : value.WellFormed :=
  h.lookup (Option.filter_eq_some_iff.1 hv).1

theorem toItems_wellFormed {value : Json} (h : value.WellFormed) : ∀ item ∈ value.toItems, item.WellFormed := by
  cases value with
  | null => simp [toItems]
  | array items => exact AllWellFormed.mem h
  | _ => simpa [toItems] using h

end Json

/-- Steps that agree on each item of a list agree on the list. -/
theorem mapM_congr {ε α β : Type} {f g : α → Except ε β} {l : List α} (h : ∀ a ∈ l, f a = g a) :
    l.mapM f = l.mapM g := by
  induction l with
  | nil => rfl
  | cons a rest ih =>
    rw [List.mapM_cons, List.mapM_cons, h a List.mem_cons_self, ih fun b hb => h b (List.mem_cons_of_mem a hb)]

/-! ## Readers -/

section

variable (name : String) {members others : Members}

theorem guardName_congr {key other : String} (h : ∀ k ∈ [key, other], members.present? k = others.present? k) :
    guardName name members key other = guardName name others key other := by
  unfold guardName
  rw [Members.firstPresent?_congr h]

theorem Guards.read_congr
    (h : ∀ k ∈ ["guard", "doIf", "unless", "doUnless"], members.present? k = others.present? k) :
    Guards.read name members = Guards.read name others := by
  unfold Guards.read
  rw [guardName_congr name fun k hk => h k (by simp at hk ⊢; tauto),
    guardName_congr name fun k hk => h k (by simp at hk ⊢; tauto)]

theorem callbackNames_congr {phase : Phase} (h : members.present? phase.key = others.present? phase.key) :
    callbackNames name members phase = callbackNames name others phase := by
  unfold callbackNames
  rw [← Members.getD_present?, h, Members.getD_present?]

/-- **A transition object reads the same without its nulls.** -/
theorem Mapping.read_present (h : (members.map (·.1)).Nodup) (guards : Guards) (callbacks : CallbackNames) :
    Mapping.read name guards callbacks members.present = Mapping.read name guards callbacks members := by
  have hasked := Members.present?_present h
  have hstates : Mapping.readStates name members.present = Mapping.readStates name members := by
    unfold Mapping.readStates
    simp only [Members.presentKeys_present, hasked]
  have hcallbacks : callbackNames name members.present = callbackNames name members :=
    funext fun phase => callbackNames_congr name (hasked phase.key)
  unfold Mapping.read
  rw [hstates, hcallbacks, Guards.read_congr name fun k _ => hasked k]

/-- A transition object, or what stands in its place, reads the same without its nulls. -/
theorem Mapping.read_pruned {item : Json} (h : item.WellFormed) (guards : Guards)
    (callbacks : CallbackNames) (error : DefinitionError) :
    (do
      let members ← orError error (Json.pruned item).members?
      Mapping.read name guards callbacks members) =
    (do
      let members ← orError error item.members?
      Mapping.read name guards callbacks members) := by
  cases item with
  | object inner => exact Mapping.read_present name h.1 guards callbacks
  | _ => rfl

/-- What is asked of an event is found as before, but for its transition objects. -/
theorem Members.present?_prunedEvent (h : (members.map (·.1)).Nodup) (k : String) :
    members.prunedEvent.present? k =
      if k = "transitions" then (members.present? k).map (Json.withItems Json.pruned)
      else if k = "transition" then (members.present? k).map (Json.withItems Json.pruned)
      else members.present? k :=
  have hnull := Json.isNull_withItems (Json.isNull_withMembers Members.present)
  Members.present?_changed hnull hnull h (by decide) k

theorem EventDeclaration.transitionItems_prunedEvent (h : (members.map (·.1)).Nodup) :
    transitionItems name members.prunedEvent = (transitionItems name members).map (List.map Json.pruned) := by
  unfold transitionItems
  rw [Members.present?_prunedEvent h, Members.present?_prunedEvent h, if_neg (by decide), if_pos rfl, if_pos rfl]
  cases members.present? "transition" with
  | none =>
    cases members.present? "transitions" with
    | none => rfl
    | some value => exact congrArg Except.ok (Json.toItems_withItems Members.present value)
  | some value =>
    cases members.present? "transitions" with
    | none => exact congrArg Except.ok (Json.toItems_withItems Members.present value)
    | some other => rfl

theorem EventDeclaration.transitionItems_wellFormed (h : Json.MembersWellFormed members) {items : List Json}
    (hitems : transitionItems name members = .ok items) : ∀ item ∈ items, item.WellFormed := by
  unfold transitionItems at hitems
  split at hitems
  · exact nomatch hitems
  · exact nomatch hitems
  · rename_i value hvalue _
    cases hitems
    exact Json.toItems_wellFormed (h.present? hvalue)
  · rename_i value _ hvalue
    cases hitems
    exact Json.toItems_wellFormed (h.present? hvalue)

/-- **An event reads the same without its nulls** and those of its transition objects. -/
theorem EventDeclaration.read_prunedEvent (h : (Json.object members).WellFormed) :
    EventDeclaration.read name (.object members.prunedEvent) = EventDeclaration.read name (.object members) := by
  have hasked : ∀ k, k ∉ ["transition", "transitions"] → members.prunedEvent.present? k = members.present? k := by
    intro k hk
    rw [Members.present?_prunedEvent h.1, if_neg fun heq => hk (by simp [heq]), if_neg fun heq => hk (by simp [heq])]
  have hguards : Guards.read name members.prunedEvent = Guards.read name members :=
    Guards.read_congr name fun k hk => hasked k fun hk' => by
      simp only [List.mem_cons, List.not_mem_nil, or_false] at hk hk'
      rcases hk' with rfl | rfl <;> simp at hk
  have hcallbacks : callbackNames name members.prunedEvent = callbackNames name members :=
    funext fun phase => callbackNames_congr name (hasked phase.key (by cases phase <;> decide))
  change (transitionItems name members.prunedEvent >>= _) = (transitionItems name members >>= _)
  rw [transitionItems_prunedEvent name h.1, hguards, hcallbacks]
  cases hitems : transitionItems name members with
  | error error => rfl
  | ok items =>
    have hmapM := fun guards callbacks => mapM_congr fun item hitem => Mapping.read_pruned name
      (transitionItems_wellFormed name h.2 hitems item hitem) guards callbacks (.invalidTransition name)
    change (if (items.map Json.pruned).isEmpty then _ else _) = if items.isEmpty then _ else _
    simp only [List.isEmpty_map, List.mapM_map, Function.comp_def, hmapM]

/-- The same for what stands in the place of an event. -/
theorem EventDeclaration.read_pruned {event : Json} (h : event.WellFormed) :
    EventDeclaration.read name (event.withMembers Members.prunedEvent) = EventDeclaration.read name event := by
  cases event with
  | object members => exact EventDeclaration.read_prunedEvent name h
  | _ => rfl

end

/-! ## Definitions -/

section

variable {root states : Members}

/-- What is asked of a whole value is found as before, but for its events and its object of states. -/
theorem Members.present?_prunedRoot (h : (root.map (·.1)).Nodup) (k : String) :
    root.prunedRoot.present? k =
      if k = "events" then (root.present? k).map Json.prunedEvents
      else if k = "states" then (root.present? k).map Json.pruned else root.present? k :=
  Members.present?_changed (Json.isNull_withMembers _) (Json.isNull_withMembers _) h (by decide) k

namespace Declaration

theorem readEvents_prunedRoot (h : (root.map (·.1)).Nodup) :
    readEvents root.prunedRoot =
      (readEvents root).map (List.map fun entry => (entry.1, entry.2.withMembers Members.prunedEvent)) := by
  unfold readEvents
  rw [Members.present?_prunedRoot h, if_pos rfl]
  cases root.present? "events" with
  | none => rfl
  | some value => cases value <;> rfl

theorem readStates_prunedRoot (h : (root.map (·.1)).Nodup) :
    readStates root.prunedRoot = (readStates root).map Members.present := by
  unfold readStates
  rw [Members.present?_prunedRoot h, if_neg (by decide), if_pos rfl]
  cases root.present? "states" with
  | none => rfl
  | some value => cases value <;> rfl

theorem readEvents_wellFormed (h : Json.MembersWellFormed root) {events : Members}
    (hread : readEvents root = .ok events) : ∀ entry ∈ events, entry.2.WellFormed := by
  unfold readEvents at hread
  split at hread
  · exact nomatch hread
  · rename_i value hvalue
    obtain rfl := Json.members?_eq_some.1 (orError_eq_ok hread)
    exact Json.MembersWellFormed.mem (h.present? hvalue).2

theorem readStates_nodup (h : Json.MembersWellFormed root) (hread : readStates root = .ok states) :
    (states.map (·.1)).Nodup := by
  unfold readStates at hread
  split at hread
  · cases hread
    exact List.nodup_nil
  · rename_i value hvalue
    obtain rfl := Json.members?_eq_some.1 (orError_eq_ok hread)
    exact (h.present? hvalue).1

theorem readInitial_present (h : (states.map (·.1)).Nodup) : readInitial states.present = readInitial states := by
  unfold readInitial
  rw [Members.present?_present h]

theorem readAllowed_present (h : (states.map (·.1)).Nodup) : readAllowed states.present = readAllowed states := by
  unfold readAllowed
  rw [Members.firstPresent?_congr fun k _ => Members.present?_present h k]

/-- **A value declares the same without its nulls**, and only its object of states shows that they are gone. -/
theorem read_withoutNulls {spec : Json} (h : spec.WellFormed) :
    Declaration.read (withoutNulls spec) =
      (Declaration.read spec).map fun declaration => { declaration with states := declaration.states.present } := by
  cases spec with
  | object root =>
    change (readEvents (Members.prunedRoot root) >>= _) = Except.map _ (readEvents root >>= _)
    rw [readEvents_prunedRoot h.1]
    cases hevents : readEvents root with
    | error error => rfl
    | ok events =>
      change (readStates (Members.prunedRoot root) >>= _) = Except.map _ (readStates root >>= _)
      rw [readStates_prunedRoot h.1]
      cases hstates : readStates root with
      | error error => rfl
      | ok states =>
        have hnodup := readStates_nodup h.2 hstates
        have hmapM := mapM_congr fun entry hentry =>
          EventDeclaration.read_pruned entry.1 (readEvents_wellFormed h.2 hevents entry hentry)
        change (if (List.map _ events).isEmpty then _ else _) = Except.map _ (if events.isEmpty then _ else _)
        simp only [List.isEmpty_map, List.mapM_map, Function.comp_def, readInitial_present hnodup,
          readAllowed_present hnodup, hmapM]
        by_cases hempty : events.isEmpty
        · rw [if_pos hempty, if_pos hempty]
          rfl
        · rw [if_neg hempty, if_neg hempty]
          cases readInitial states with
          | error error => rfl
          | ok initialState =>
            cases readAllowed states with
            | error error => rfl
            | ok allowed => cases events.mapM fun entry => EventDeclaration.read entry.1 entry.2 <;> rfl
  | _ => rfl

end Declaration

/-- Hooks are read from the members that have a value. -/
theorem StateHook.readAll_present (known : List String) (states : Members) :
    (StateHook.readAll known states.present : Except DefinitionError (List (StateHook κ))) =
      StateHook.readAll known states := by
  unfold readAll Members.present
  simp [List.filter_filter]

end

/-- **Members that are null change nothing**: a value compiles to the same definition without them, or fails with
the same error. -/
theorem compile_withoutNulls {spec : Json} (hs : spec.WellFormed) (inline : List (InlineHook κ)) :
    Definition.compile (withoutNulls spec) inline = Definition.compile spec inline := by
  unfold Definition.compile
  rw [Declaration.read_withoutNulls hs]
  cases Declaration.read spec with
  | error error => rfl
  | ok declaration =>
    change Declaration.compile { declaration with states := declaration.states.present } inline =
      declaration.compile inline
    unfold Declaration.compile
    simp only [StateHook.readAll_present]
    rfl

namespace Lantern

/-- A lantern with nulls in all places, one of them under the first of two keys for a guard. -/
def spec : Json := .object [
  ("name", .null),
  ("states", .object [("initialState", .null), ("knownStates", .null),
    ("explicitStates", .array [.string "on", .string "initialized"]), ("dimmed", .null)]),
  ("events", .object [("light", .object [
    ("transition", .null), ("before", .null),
    ("transitions", .array [.object [("from", .null), ("dimmed", .null), ("initialized", .string "on"),
      ("guard", .null), ("doIf", .string "powered")]])])])]

/-- What is left of it. -/
def plain : Json := .object [
  ("states", .object [("explicitStates", .array [.string "on", .string "initialized"])]),
  ("events", .object [("light", .object [
    ("transitions", .array [.object [("initialized", .string "on"), ("doIf", .string "powered")]])])])]

def definition : Definition Unit :=
  let light : Record := ⟨"light", "initialized", "on", ⟨some "powered", none⟩, .ofFn fun _ => []⟩
  ⟨"initialized", ["on", "initialized"].map (State.ofRecords [light]), [⟨"light", [light]⟩], []⟩

theorem compile_plain : Definition.compile plain [] = .ok definition := rfl

/-- A lantern that has nothing but a null to lead to. -/
def broken : Json := .object [("events", .object [
  ("light", .object [("transition", .object [("initialized", .null), ("to", .string "on"), ("from", .null)])])])]

end Lantern

/-- The lantern compiles with its nulls to what it is without them, and the broken one fails in one way. -/
theorem compile_withoutNulls_lantern :
    Lantern.spec.WellFormed ∧ withoutNulls Lantern.spec = Lantern.plain ∧
      Definition.compile Lantern.spec [] = .ok Lantern.definition ∧
      Lantern.broken.WellFormed ∧ withoutNulls Lantern.broken ≠ Lantern.broken ∧
      Definition.compile Lantern.broken ([] : List (InlineHook Unit)) = .error (.missingMapping "light") := by
  have hspec : Lantern.spec.WellFormed := by
    simp [Lantern.spec, Json.WellFormed, Json.MembersWellFormed, Json.AllWellFormed]
  have hbroken : Lantern.broken.WellFormed := by
    simp [Lantern.broken, Json.WellFormed, Json.MembersWellFormed]
  refine ⟨hspec, rfl, ?_, hbroken, ?_, ?_⟩
  · rw [← compile_withoutNulls hspec]
    exact Lantern.compile_plain
  · simp [withoutNulls, Lantern.broken, Json.withMembers, Members.prunedRoot, Members.present, Members.change,
      Json.prunedEvents, Members.prunedEvent, Json.withItems, Json.pruned, Json.isNull]
  · rw [← compile_withoutNulls hbroken]
    rfl

end StateEngine
