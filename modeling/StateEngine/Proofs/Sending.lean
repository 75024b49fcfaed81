import StateEngine.Proofs.Active
import StateEngine.Proofs.Build
import StateEngine.Proofs.Entering
import StateEngine.Proofs.Passing
import StateEngine.Proofs.Selection

/-!
# Sending an event

While an event is resolved its guards are read, and whoever answers for a guard may do anything with the machine
in between. The record is selected for the state at the call, but whether it may become active is decided on the
machine as the guards left it.

* `resolve_eq`: resolving an event is a search that does the same in any scene.
* `Machine.Sends`: **what is decided about an event**, and why.
* `Machine.Joins`, `Dispatched`: what comes of it.
* `send_atomic`: **sending an event changes nothing, or lets one new transition join the active ones**.
-/

namespace StateEngine

section

variable {κ φ α β : Type} {R : Response κ φ}

/-! ## Searches -/

open Program

theorem checkGuard_indifferent (name state : String) :
    (checkGuard name state : Program κ φ _).Indifferent := by
  rintro (_ | holds)
  · refine ⟨fun m m' h => ?_, fun m => trivial⟩
    change Program.done _ = Program.done _
    rw [h]
  · exact trivial

theorem passesUnless_indifferent (guards : Guards) (state : String) :
    (passesUnless guards state : Program κ φ _).Indifferent := by
  unfold passesUnless
  split
  · exact trivial
  · exact (checkGuard_indifferent _ _).bind fun _ => trivial

theorem passes_indifferent (guards : Guards) (state : String) :
    (passes guards state : Program κ φ _).Indifferent := by
  unfold passes
  split
  · exact passesUnless_indifferent guards state
  · refine (checkGuard_indifferent _ _).bind fun checked => ?_
    match checked with
    | .error error => exact trivial
    | .ok true => exact trivial
    | .ok false => exact passesUnless_indifferent guards state

theorem firstPassing_indifferent (state : String) (records : List Record) :
    (firstPassing state records : Program κ φ _).Indifferent := by
  induction records with
  | nil => exact trivial
  | cons record rest ih =>
    unfold firstPassing
    split
    · refine (passes_indifferent _ _).bind fun passed => ?_
      cases passed with
      | error error => exact trivial
      | ok passed =>
        cases passed with
        | true => exact trivial
        | false => exact ih
    · exact trivial

/-- Once it has looked at the current state, resolving an event is indifferent. -/
theorem resolve_eq (event : String) : ∃ search : Machine κ φ → Program κ φ (Except DispatchError Record),
    resolve event = look >>= search ∧ ∀ m, (search m).Indifferent := by
  refine ⟨_, rfl, fun m => ?_⟩
  dsimp only
  split
  · exact trivial
  · refine (firstPassing_indifferent _ _).bind fun found => ?_
    match found with
    | .error error => exact trivial
    | .ok none => exact trivial
    | .ok (some record) => exact trivial

/-! ## What is decided -/

/-- **What is decided about an event**, with the machine at the call and as the guards left it: the event is not
known, it selects no record, the machine has moved since, another transition is active that the record does not
stay with, or else the record may become active. Each of these is decided only if none of those before it is. -/
inductive Machine.Sends (called left : Machine κ φ) (event : String) :
    List Read → Except DispatchError Record → Prop where
  | unknown : event ∉ called.definition.eventNames →
      Sends called left event [] (.error (.unknownEvent event called.definition.eventNames))
  | unresolved {reads : List Read} {verdict : Verdict} {error : DispatchError} :
      event ∈ called.definition.eventNames → Selects (called.candidates event) reads verdict →
      verdict.resolved called event = .error error → Sends called left event reads (.error error)
  | stateChanged {reads : List Read} {record : Record} :
      event ∈ called.definition.eventNames → Selects (called.candidates event) reads (.selected record) →
      left.state ≠ called.state →
      Sends called left event reads (.error (.stateChanged event called.state left.state))
  | inProgress {reads : List Read} {record : Record} :
      event ∈ called.definition.eventNames → Selects (called.candidates event) reads (.selected record) →
      left.state = called.state → left.active ≠ [] → record.toState ≠ left.state →
      Sends called left event reads
        (.error (.transitionInProgress left.state record.toState left.activeLabels))
  | sent {reads : List Read} {record : Record} :
      event ∈ called.definition.eventNames → Selects (called.candidates event) reads (.selected record) →
      left.state = called.state → left.active = [] ∨ record.toState = left.state →
      Sends called left event reads (.ok record)

theorem Selects.mem {candidates : List Record} {reads : List Read} {record : Record}
    (h : Selects candidates reads (.selected record)) : record ∈ candidates := by
  cases h with
  | unguarded hsplit _ _ => exact hsplit ▸ List.mem_append_right _ List.mem_cons_self
  | passed hsplit _ _ => exact hsplit ▸ List.mem_append_right _ List.mem_cons_self

/-- What a program does alone tells what it comes to. -/
theorem Program.Does.unique {m : Machine κ φ} {p : Program κ φ α} {acts : List (Act κ φ)} {a b : α}
    (h : p.Does (· = m) acts a) (h' : p.Does (· = m) acts b) : a = b := by
  induction h with
  | done a =>
    cases h'
    rfl
  | look hm _ ih =>
    subst hm
    cases h' with
    | look hm' h' => exact ih (hm' ▸ h')
  | change _ ih =>
    cases h' with
    | change h' => exact ih h'
  | ask _ ih =>
    cases h' with
    | ask h' => exact ih h'

theorem Verdict.found_injective (target : String) : Function.Injective (Verdict.found target) := by
  intro verdict other h
  cases verdict <;> cases other <;> simp_all [found]

/-- The guards that were read tell which record is selected. -/
theorem Selects.unique {candidates : List Record} {reads : List Read} {verdict other : Verdict}
    (h : Selects candidates reads verdict) (h' : Selects candidates reads other) : verdict = other := by
  -- a search that reads these guards alone comes to one result, which tells the verdict
  have hdoes : ∀ {verdict}, Selects candidates reads verdict →
      (firstPassing "" candidates : Program Unit Unit _).Does (· = .start ⟨"", [], [], []⟩ "" toString "" 0)
        (reads.map (Read.act "")) (verdict.found "") :=
    fun h => firstPassing_does.2 ⟨reads, _, h, rfl, rfl⟩
  exact Verdict.found_injective "" ((hdoes h).unique (hdoes h'))

namespace Machine

variable {called left : Machine κ φ} {event : String} {record : Record} {reads : List Read}
  {decision : Except DispatchError Record}

/-- A record that was selected starts in the state at the call, and is one of the event. -/
theorem candidates_named (hn : called.definition.Named) (h : record ∈ called.candidates event) :
    record.fromState = called.state ∧ record.event = event := by
  have hfrom := Definition.fromState_of_recordsFor h
  obtain ⟨found, hfound, rfl, hrecord⟩ := Definition.mem_of_recordsFor h
  exact ⟨hfrom, hn found hfound record hrecord⟩

/-- Whether a record of the state at the call may become active on the machine that is left. -/
theorem permit_eq (hn : called.definition.Named) (h : record ∈ called.candidates event) :
    left.permit record =
      if left.state ≠ called.state then .error (.stateChanged event called.state left.state)
      else if left.active ≠ [] ∧ record.toState ≠ left.state then
        .error (.transitionInProgress left.state record.toState left.activeLabels)
      else .ok () := by
  obtain ⟨hfrom, hevent⟩ := candidates_named hn h
  have hjoins : (left.isTransitioning && record.toState != left.state) = true ↔
      left.active ≠ [] ∧ record.toState ≠ left.state := by simp [isTransitioning]
  unfold permit
  rw [hfrom, hevent]
  simp only [hjoins, ne_comm (a := called.state)]

/-- **What is decided about a known event** follows from what it selects, and from what is left. -/
theorem sends_iff (hn : called.definition.Named) (hk : event ∈ called.definition.eventNames) :
    called.Sends left event reads decision ↔
      ∃ verdict, Selects (called.candidates event) reads verdict ∧
        decision = (verdict.resolved called event).bind fun record => (left.permit record).map fun _ => record := by
  constructor
  · intro h
    cases h with
    | unknown hunknown => exact absurd hk hunknown
    | unresolved _ h hresolved => exact ⟨_, h, by rw [hresolved]; rfl⟩
    | @stateChanged _ record _ h hstate =>
      refine ⟨.selected record, h, ?_⟩
      change _ = (left.permit record).map fun _ => record
      rw [permit_eq hn h.mem, if_pos hstate]
      rfl
    | @inProgress _ record _ h hstate hactive htarget =>
      refine ⟨.selected record, h, ?_⟩
      change _ = (left.permit record).map fun _ => record
      rw [permit_eq hn h.mem, if_neg (not_not.2 hstate), if_pos ⟨hactive, htarget⟩]
      rfl
    | @sent _ record _ h hstate hjoins =>
      refine ⟨.selected record, h, ?_⟩
      change _ = (left.permit record).map fun _ => record
      rw [permit_eq hn h.mem, if_neg (not_not.2 hstate), if_neg (by tauto)]
      rfl
  · rintro ⟨verdict, h, rfl⟩
    cases hresolved : verdict.resolved called event with
    | error error => exact .unresolved hk h hresolved
    | ok record =>
      obtain rfl : verdict = .selected record := by
        cases verdict <;> simp_all [Verdict.resolved]
      change called.Sends left event reads ((left.permit record).map fun _ => record)
      rw [permit_eq hn h.mem]
      split_ifs with hstate hjoins
      · exact .stateChanged hk h hstate
      · exact .inProgress hk h (not_not.1 hstate) hjoins.1 hjoins.2
      · exact .sent hk h (not_not.1 hstate) (by tauto)

/-- **The decision is one**: what was read and what is left tell it. -/
theorem Sends.unique (hn : called.definition.Named) {other : Except DispatchError Record}
    (h : called.Sends left event reads decision) (h' : called.Sends left event reads other) :
    decision = other := by
  by_cases hk : event ∈ called.definition.eventNames
  · obtain ⟨verdict, hv, rfl⟩ := (sends_iff hn hk).1 h
    obtain ⟨verdict', hv', rfl⟩ := (sends_iff hn hk).1 h'
    rw [hv.unique hv']
  · cases h <;> cases h' <;> first | rfl | contradiction

end Machine

/-! ## How it is decided -/

variable {s s' : Scene κ φ} {acts : List (Act κ φ)} {event : String} {args : List Json} {target : String}

/-- **Resolving an event** reads the guards that a selection reads, one after the other. -/
theorem resolve_passes
    (hR : ∀ request s reply s₁, R request s reply s₁ → s₁.machine.targetName = target)
    (hs : s.machine.targetName = target) {resolved : Except DispatchError Record} :
    (resolve event).Passes R s acts resolved s' ↔
      ∃ reads verdict, Selects (s.machine.candidates event) reads verdict ∧
        acts = reads.map (Read.act s.machine.state) ∧ resolved = verdict.resolved s.machine event ∧
          Passage R s acts s' := by
  obtain ⟨search, hresolve, hsearch⟩ := resolve_eq (κ := κ) (φ := φ) event
  rw [hresolve, Passes.look_iff, (hsearch s.machine).passes_iff hR hs hs, ← Does.look_iff, ← hresolve,
    resolve_does]
  constructor
  · rintro ⟨⟨reads, verdict, h, hacts, hresolved⟩, hpassage⟩
    exact ⟨reads, verdict, h, hacts, hresolved, hpassage⟩
  · rintro ⟨reads, verdict, h, hacts, hresolved, hpassage⟩
    exact ⟨⟨reads, verdict, h, hacts, hresolved⟩, hpassage⟩

/-- Whether a record that was selected may become active is told by the machine as it is then. -/
theorem permitted_passes (resolved : Except DispatchError Record) {decision : Except DispatchError Record} :
    (match resolved with
      | .error error => pure (.error error)
      | .ok record => look >>= fun machine =>
        match machine.permit record with
        | .error error => pure (.error error)
        | .ok _ => pure (.ok record) : Program κ φ (Except DispatchError Record)).Passes R s acts decision s' ↔
      acts = [] ∧ decision = (resolved.bind fun record => (s.machine.permit record).map fun _ => record) ∧
        s' = s := by
  cases resolved with
  | error error => exact Passes.pure_iff
  | ok record =>
    refine Passes.look_iff.trans ?_
    rw [Except.bind]
    cases s.machine.permit record with
    | error error => exact Passes.pure_iff
    | ok _ => exact Passes.pure_iff

/-- **Selecting a record** for an event reads its guards, and comes to what is decided on the machine that they
leave. -/
theorem select_passes
    (hR : ∀ request s reply s₁, R request s reply s₁ → s₁.machine.targetName = target)
    (hs : s.machine.targetName = target) (hn : s.machine.definition.Named)
    {decision : Except DispatchError Record} :
    (select event).Passes R s acts decision s' ↔
      ∃ reads, acts = reads.map (Read.act s.machine.state) ∧ Passage R s acts s' ∧
        s.machine.Sends s'.machine event reads decision := by
  unfold select
  rw [Passes.look_iff]
  by_cases hk : event ∈ s.machine.definition.eventNames
  · have hhas : (!s.machine.definition.hasEvent event) = false := by
      simpa [Definition.hasEvent] using hk
    simp only [hhas, Bool.false_eq_true, if_false]
    constructor
    · intro h
      obtain ⟨before, after, resolved, s₁, rfl, hresolve, hafter⟩ := h.bind_inv
      obtain ⟨reads, verdict, hselects, rfl, rfl, hpassage⟩ := (resolve_passes hR hs).1 hresolve
      obtain ⟨rfl, rfl, rfl⟩ := (permitted_passes _).1 hafter
      rw [List.append_nil]
      exact ⟨reads, rfl, hpassage, (Machine.sends_iff hn hk).2 ⟨verdict, hselects, rfl⟩⟩
    · rintro ⟨reads, rfl, hpassage, hsends⟩
      obtain ⟨verdict, hselects, rfl⟩ := (Machine.sends_iff hn hk).1 hsends
      rw [← List.append_nil (reads.map _)]
      refine ((resolve_passes hR hs).2 ⟨reads, verdict, hselects, rfl, rfl, hpassage⟩).bind ?_
      exact (permitted_passes _).2 ⟨rfl, rfl, rfl⟩
  · have hhas : (!s.machine.definition.hasEvent event) = true := by
      simpa [Definition.hasEvent] using hk
    simp only [hhas, if_true]
    rw [Passes.pure_iff]
    constructor
    · rintro ⟨rfl, rfl, rfl⟩
      exact ⟨[], rfl, .refl _, .unknown hk⟩
    · rintro ⟨reads, rfl, hpassage, hsends⟩
      cases hsends with
      | unknown _ =>
        cases hpassage
        exact ⟨rfl, rfl, rfl⟩
      | _ => contradiction

/-! ## What comes of it -/

/-- **A new transition joins the active ones**, under an identity that none of them has, and nothing else
changes. The future that performs it has not been polled. -/
structure Machine.Joins (left : Machine κ φ) (record : Record) (args : List Json) (m : Machine κ φ) : Prop where
  fresh : left.nextTransition ∉ left.active
  active_eq : m.active = left.active ++ [left.nextTransition]
  transitions_eq : m.transitions = left.transitions ++ [⟨record, args, .fresh⟩]
  pending : (m.transition? left.nextTransition).map (·.progress.status) = some .pending
  futures_eq : m.futures = left.futures ++ [some ⟨left.nextTransition, .dispatch, .unpolled⟩]
  state_eq : m.state = left.state
  history_eq : m.history = left.history
  definition_eq : m.definition = left.definition
  targetName_eq : m.targetName = left.targetName
  listeners_eq : m.listeners = left.listeners
  wakeUps_eq : m.wakeUps = left.wakeUps

theorem Machine.launch_joins {left : Machine κ φ} (h : left.nextTransition ∉ left.active) (record : Record)
    (args : List Json) : left.Joins record args (left.launch record args) := by
  refine ⟨h, rfl, rfl, ?_, rfl, rfl, rfl, rfl, rfl, rfl, rfl⟩
  change ((left.transitions ++ [Transition.fresh record args])[left.transitions.length]?).map _ = _
  rw [List.getElem?_concat_length]
  rfl

/-- **What comes of a decision**: what is done then, and what is told. An event that is refused changes
nothing. -/
inductive Dispatched (left : Scene κ φ) (args : List Json) :
    Except DispatchError Record → List (Act κ φ) → Except DispatchError (TransitionId × FutureId) →
      Scene κ φ → Prop where
  | refused (error : DispatchError) : Dispatched left args (.error error) [] (.error error) left
  | joined {record : Record} : left.machine.Joins record args (left.make (.launch record args)).machine →
      Dispatched left args (.ok record) [.made (.launch record args)]
        (.ok (left.machine.nextTransition, left.machine.nextFuture)) (left.make (.launch record args))

/-- **Sending an event** is selecting a record for it, and launching a transition of the record if there is
one. -/
theorem send_passes
    (hR : ∀ request s reply s₁, R request s reply s₁ → s₁.machine.targetName = target)
    (hs : s.machine.targetName = target) (hn : s.machine.definition.Named)
    (hfresh : ∀ (reads : List Read) left, Passage R s (reads.map (Read.act s.machine.state)) left →
      left.machine.nextTransition ∉ left.machine.active)
    {result : Except DispatchError (TransitionId × FutureId)} :
    (send event args).Passes R s acts result s' ↔
      ∃ reads left decision last, Passage R s (reads.map (Read.act s.machine.state)) left ∧
        s.machine.Sends left.machine event reads decision ∧ Dispatched left args decision last result s' ∧
          acts = reads.map (Read.act s.machine.state) ++ last := by
  constructor
  · intro h
    obtain ⟨before, last, decision, left, rfl, hselect, hlast⟩ := h.bind_inv
    obtain ⟨reads, rfl, hpassage, hsends⟩ := (select_passes hR hs hn).1 hselect
    refine ⟨reads, left, decision, last, hpassage, hsends, ?_, rfl⟩
    cases decision with
    | error error =>
      obtain ⟨rfl, rfl, rfl⟩ := Passes.pure_iff.1 hlast
      exact .refused error
    | ok record =>
      obtain ⟨more, rfl, hmore⟩ := Passes.make_iff.1 (Passes.look_iff.1 hlast)
      obtain ⟨rfl, rfl, rfl⟩ := Passes.pure_iff.1 hmore
      exact .joined (Machine.launch_joins (hfresh reads left hpassage) record args)
  · rintro ⟨reads, left, decision, last, hpassage, hsends, hsent, rfl⟩
    refine ((select_passes hR hs hn).2 ⟨reads, rfl, hpassage, hsends⟩).bind ?_
    cases hsent with
    | refused error => exact .done _ _
    | joined _ => exact Passes.look_iff.2 (.change (.done _ _))

/-- Reading guards does not leave the run. -/
theorem Passage.reads_trail {m : Machine κ φ} {own : Option FutureId} {state : String} {reads : List Read}
    (hs : Trail m s) (h : Passage (Amid m own) s (reads.map (Read.act state)) s') : Trail m s' := by
  induction reads generalizing s with
  | nil =>
    cases h
    exact hs
  | cons read rest ih =>
    cases h with
    | asked hr h => exact ih hr.1 h

variable {m : Machine κ φ} {spec : Json} {inline : List (InlineHook κ)} {targetName : String}
  {idText : TransitionId → String} {initialState : Option String} {listeners : Nat} {w : World κ φ}

/-- **Sending an event is atomic**, whatever others do to the machine while guards are read. No callback is
called: the guards that a selection reads are read, and then at most one change is made, on the machine as the
guards left it. It is decided there whether the record that was selected for the state at the call may become
active. If it may, one new transition joins the active ones, and nothing else changes; if not, nothing changes
at all, and the first of the conditions that fails tells why. Every sending comes to an end, and every one that
ends in a run is like this. -/
theorem send_atomic (hb : Machine.build spec inline targetName idText initialState listeners = .ok m)
    (h : Reaches m w) (event : String) (args : List Json) :
    (∀ acts result s', (send event args).Passes (Amid m none) w.scene acts result s' ↔
      ∃ (reads : List Read) (left : Scene κ φ) (decision : Except DispatchError Record) (last : List (Act κ φ)),
        Passage (Amid m none) w.scene (reads.map (Read.act w.machine.state)) left ∧
          w.machine.Sends left.machine event reads decision ∧ Dispatched left args decision last result s' ∧
            acts = reads.map (Read.act w.machine.state) ++ last) ∧
      (∀ left reads decision, w.machine.Sends left event reads decision →
        (∀ other, w.machine.Sends left event reads other → other = decision) ∧
          ((∃ record, decision = .ok record) ↔
            event ∈ w.machine.definition.eventNames ∧
              ∃ record, Selects (w.machine.candidates event) reads (.selected record) ∧
                left.state = w.machine.state ∧ (left.active = [] ∨ record.toState = left.state))) ∧
      (∀ R : Response κ φ, (∀ request s, ∃ reply s₁, R request s reply s₁) →
        ∃ acts result s', (send event args).Passes R w.scene acts result s') ∧
      ∀ u u' result, Reaches m u → u.Yields (.send event args) result u' →
        ∃ v acts, Reaches m v ∧ (send event args).Passes (Amid m none) v.scene acts result u'.scene := by
  obtain ⟨definition, state, rfl, hnamed⟩ := Machine.build_eq_ok hb
  have htrail := h.sound.trail
  have hn : w.machine.definition.Named := htrail.definition_eq.symm ▸ hnamed
  refine ⟨fun acts result s' => ?_, fun left reads decision hsends => ⟨?_, ?_⟩, ?_, ?_⟩
  · refine send_passes (fun request s reply s₁ hr => hr.1.targetName_eq) htrail.targetName_eq hn ?_
    -- the identities of active transitions lie below the next one, also where the guards left the machine
    intro reads left hpassage hmem
    exact absurd ((hpassage.reads_trail htrail).orderly.active_lt hmem) (Nat.lt_irrefl _)
  · exact fun other hother => hother.unique hn hsends
  · constructor
    · rintro ⟨record, rfl⟩
      cases hsends with
      | sent hk hselects hstate hjoins => exact ⟨hk, record, hselects, hstate, hjoins⟩
    · rintro ⟨hk, record, hselects, hstate, hjoins⟩
      exact ⟨record, hsends.unique hn (.sent hk hselects hstate hjoins)⟩
  · exact fun R hR => Passes.exists_of_total hR _ _
  · intro u u' result hu hy
    obtain ⟨v, hv, hgoes⟩ := hu.yields hy
    obtain ⟨acts, hpasses⟩ := Passes.of_goes hgoes
    exact ⟨v, acts, hv, hpasses⟩

end

namespace Fork

/-- The fork is asked whether the way is clear, and meanwhile is set to the left. -/
def asking : Scene Unit Unit := ⟨machine, [.asked (.guard "clear" "off")]⟩

theorem asking_amid :
    Amid machine none (.guard "clear" "off") (World.start machine).scene (some true)
      (asking.make (.setState "left")) :=
  ⟨(show Trail machine asking from .ask .start trivial).make (.setState rfl),
    ⟨rfl, Change.grows _, fun _ h => nomatch h⟩, List.prefix_append _ _⟩

theorem selects_left : Selects (machine.candidates "go") [⟨"clear", some true⟩]
    (.selected ⟨"go", "off", "left", ⟨some "clear", none⟩, .ofFn fun _ => []⟩) :=
  @Selects.passed _ [] _ _ _ rfl (fun _ h => nomatch h) (@Tries.passed _ [] _ _ rfl)

end Fork

/-- The fork that is set to the left while its guard is read refuses to go there, and stays as it was set. -/
theorem send_atomic_fork :
    Machine.build Fork.spec [] "fork" toString none 0 = .ok Fork.machine ∧
      Reaches Fork.machine (.start Fork.machine) ∧
      (send "go" []).Passes (Amid Fork.machine none) (World.start Fork.machine).scene
        [.asked (.guard "clear" "off") (some true)] (.error (.stateChanged "go" "off" "left"))
        (Fork.asking.make (.setState "left")) := by
  refine ⟨Fork.build_spec, .start, ?_⟩
  refine ((send_atomic Fork.build_spec Reaches.start "go" []).1 _ _ _).2 ⟨[⟨"clear", some true⟩],
    Fork.asking.make (.setState "left"), .error (.stateChanged "go" "off" "left"), [], ?_⟩
  exact ⟨.asked Fork.asking_amid (.refl _), .stateChanged (by decide) Fork.selects_left (by decide),
    .refused _, rfl⟩

end StateEngine
