import StateEngine.Machine.Driver
import StateEngine.Proofs.Build
import StateEngine.Proofs.Dispatching

/-!
# What a driver ensures

A driver answers at once and leaves the machine alone, so that a program is followed from its start to its
end, function by function. Reading guards and finding callbacks leaves the machine as it is. The record
that is selected is the one that the interpreter selects.

* `Program.Ensures`: whatever the driver answers, a program ends in a way; `Driver.Runs.ensures`.
* `Driver.runs_any`: a driver answers every program.
* `Driver.Runs.reaches`: a program that a driver answers is a run of the machine.
* `Interpreter.winner_eq_some`: **the record that wins** among candidates.
* `select_ensures`: a machine at rest selects the record that the interpreter selects.
* `Driver.phase`, `Driver.perform`: what phases come to, by the callbacks that they list.
* `findAll_ensures`: the callbacks that a phase finds.
-/

namespace StateEngine

variable {κ φ α β : Type} {d : Driver κ φ} {m m' : Machine κ φ}

/-! ## Following a program -/

namespace Program

/-- Whether a program ends in a way, whatever the driver answers. -/
def Ensures (d : Driver κ φ) (post : α → Machine κ φ → Prop) : Program κ φ α → Machine κ φ → Prop
  | .done a, m => post a m
  | .look next, m => (next m).Ensures d post m
  | .change c next, m => next.Ensures d post (c.apply m)
  | .ask request resume, m => ∀ reply, d.Reply request reply → (resume reply).Ensures d post m

theorem Ensures.mono {post post' : α → Machine κ φ → Prop} (hpost : ∀ a m, post a m → post' a m)
    {p : Program κ φ α} : ∀ {m : Machine κ φ}, p.Ensures d post m → p.Ensures d post' m := by
  induction p with
  | done a => intro m h; exact hpost a m h
  | look next ih => intro m h; exact ih m h
  | change c next ih => intro m h; exact ih h
  | ask request resume ih => intro m h reply hr; exact ih reply (h reply hr)

theorem Ensures.pure {post : α → Machine κ φ → Prop} {a : α} (h : post a m) :
    (Pure.pure a : Program κ φ α).Ensures d post m := h

theorem Ensures.look {post : Machine κ φ → Machine κ φ → Prop} (h : post m m) :
    (StateEngine.look : Program κ φ (Machine κ φ)).Ensures d post m := h

theorem Ensures.make {post : Unit → Machine κ φ → Prop} {c : Change φ} (h : post () (c.apply m)) :
    (StateEngine.make c : Program κ φ Unit).Ensures d post m := h

theorem Ensures.ask {request : Request κ φ} {post : request.Reply → Machine κ φ → Prop}
    (h : ∀ reply, d.Reply request reply → post reply m) :
    (StateEngine.ask request).Ensures d post m := h

/-- **Programs are composed**: the second one goes on from where the first one ends. -/
theorem Ensures.bind {post : β → Machine κ φ → Prop} {f : α → Program κ φ β} {p : Program κ φ α} :
    ∀ {m : Machine κ φ}, p.Ensures d (fun a m' => (f a).Ensures d post m') m →
      (p >>= f).Ensures d post m := by
  induction p with
  | done a => intro m h; exact h
  | look next ih => intro m h; exact ih m h
  | change c next ih => intro m h; exact ih h
  | ask request resume ih => intro m h reply hr; exact ih reply (h reply hr)

end Program

open Program

namespace Driver

theorem Runs.ensures {p : Program κ φ α} {a : α} (h : d.Runs p m a m')
    {post : α → Machine κ φ → Prop} (hp : p.Ensures d post m) : post a m' := by
  induction h with
  | done a m => exact hp
  | look _ ih => exact ih hp
  | change _ ih => exact ih hp
  | ask hr _ ih => exact ih (hp _ hr)

theorem reply_any (d : Driver κ φ) (request : Request κ φ) : ∃ reply, d.Reply request reply := by
  cases request with
  | guard name state => exact ⟨_, rfl⟩
  | callback name => exact ⟨_, rfl⟩
  | call callback context => exact d.calls_any callback context
  | poll computation => exact d.polls_any computation
  | notify listener change => exact ⟨(), trivial⟩

/-- **A driver answers every program.** -/
theorem runs_any (d : Driver κ φ) (p : Program κ φ α) :
    ∀ m : Machine κ φ, ∃ a m', d.Runs p m a m' := by
  induction p with
  | done a => exact fun m => ⟨a, m, .done a m⟩
  | look next ih =>
    intro m
    obtain ⟨a, m', h⟩ := ih m m
    exact ⟨a, m', .look h⟩
  | change c next ih =>
    intro m
    obtain ⟨a, m', h⟩ := ih (c.apply m)
    exact ⟨a, m', .change h⟩
  | ask request resume ih =>
    intro m
    obtain ⟨reply, hr⟩ := d.reply_any request
    obtain ⟨a, m', h⟩ := ih reply m
    exact ⟨a, m', .ask hr h⟩

theorem Runs.proceeds {m₀ : Machine κ φ} {op : Operation} {p : Program κ φ op.Result} {a : op.Result}
    (h : d.Runs p m a m') : ∀ {trace : List (Deed κ φ)},
      Reaches m₀ (World.proceed op p ⟨⟨m, trace⟩, []⟩) → ∃ trace', Reaches m₀ ⟨⟨m', trace'⟩, []⟩ := by
  induction h with
  | done a m => exact fun hw => ⟨_, hw⟩
  | look _ ih => exact fun hw => ih hw
  | change _ ih => exact fun hw => ih hw
  | @ask request resume reply m _ _ _ _ ih =>
    intro trace hw
    -- the request is the only one that waits, and it is answered next
    exact ih (hw.next (.answer _ [] ⟨op, request, resume⟩ [] reply))

/-- **An operation that a driver answers is a run of the machine**, in which nothing waits at its end. -/
theorem Runs.reaches {m₀ : Machine κ φ} (op : Operation) {a : op.Result} (h : d.Runs op.program m a m')
    {trace : List (Deed κ φ)} (hm : Reaches m₀ ⟨⟨m, trace⟩, []⟩) :
    ∃ trace', Reaches m₀ ⟨⟨m', trace'⟩, []⟩ := h.proceeds (hm.next (.start op _))

end Driver

/-! ## Which record wins -/

/-- Stored values count as true to the interpreter if they do to guards. -/
theorem Interpreter.isTrue_eq (value : Json) : isTrue value = value.truthy := by
  cases value with
  | number n =>
    cases n with
    | integer value => exact Bool.eq_iff_iff.2 (by simp [isTrue, Json.truthy, Number.isZero])
    | double value =>
      exact Bool.eq_iff_iff.2 (by simp [isTrue, Json.truthy, Number.isZero, Double.isZero, Magnitude.isZero])
  | string value => exact Bool.eq_iff_iff.2 (by simp [isTrue, Json.truthy])
  | _ => rfl

theorem checkGuard_ensures (m₀ : Machine κ φ) (name state : String) :
    (checkGuard name state).Ensures d
      (fun holds m' => m' = m ∧ holds.toOption = (d.interpreter m₀).holds? name state) m := by
  refine .bind (.ask ?_)
  rintro _ rfl
  unfold Interpreter.holds? Driver.interpreter Target.guard?
  dsimp only
  cases d.target.guards.lookup name with
  | none => exact .bind (.look (.pure ⟨rfl, rfl⟩))
  | some guard =>
    refine .pure ⟨rfl, ?_⟩
    cases guard with
    | value value => exact congrArg some (Interpreter.isTrue_eq value).symm
    | predicate holds => rfl

/-- **The guards of a record** let it pass if it wins. -/
theorem passes_ensures (m₀ : Machine κ φ) (record : Record) (state : String) (hg : record.isGuarded = true) :
    (passes record.guards state).Ensures d (fun passed m' =>
      m' = m ∧ passed.toOption = (d.interpreter m₀).wins? record state) m := by
  have hcheck : ∀ name, (checkGuard name state).Ensures d
      (fun holds m' => m' = m ∧ holds.toOption = (d.interpreter m₀).holds? name state) m :=
    fun name => checkGuard_ensures m₀ name state
  unfold Record.isGuarded at hg
  unfold passes passesUnless Interpreter.wins?
  generalize record.guards = guards at hg ⊢
  match guards, hg with
  | ⟨some name, none⟩, _ =>
    refine .bind ((hcheck name).mono ?_)
    rintro (error | _ | _) _ ⟨rfl, h⟩ <;> exact .pure ⟨rfl, h⟩
  | ⟨none, some other⟩, _ =>
    refine .bind ((hcheck other).mono ?_)
    rintro holds _ ⟨rfl, h⟩
    refine .pure ⟨rfl, ?_⟩
    dsimp only
    rw [← h]
    cases holds <;> rfl
  | ⟨some name, some other⟩, _ =>
    refine .bind ((hcheck name).mono ?_)
    rintro holds _ ⟨rfl, h⟩
    dsimp only
    rw [← h]
    match holds with
    | .error error => exact .pure ⟨rfl, rfl⟩
    | .ok true => exact .pure ⟨rfl, rfl⟩
    | .ok false =>
      refine .bind ((checkGuard_ensures m₀ other state).mono ?_)
      rintro holds _ ⟨rfl, h⟩
      refine .pure ⟨rfl, ?_⟩
      change (holds.map (!·)).toOption = (do return !(← (d.interpreter m₀).holds? other state))
      rw [← h]
      cases holds <;> rfl

/-- A record without guards wins. -/
theorem Interpreter.wins_of_unguarded {I : Interpreter κ} {record : Record} (h : record.isGuarded = false)
    (state : String) : I.wins? record state = some true := by
  unfold Record.isGuarded at h
  unfold wins?
  generalize record.guards = guards at h ⊢
  match guards, h with
  | ⟨none, none⟩, _ => rfl

theorem firstPassing_ensures (m₀ : Machine κ φ) (state : String) (records : List Record) :
    (firstPassing state records).Ensures d (fun found m' =>
      m' = m ∧ found.toOption.join = (d.interpreter m₀).winner? state records) m := by
  induction records with
  | nil => exact .pure ⟨rfl, rfl⟩
  | cons record rest ih =>
    unfold firstPassing Interpreter.winner?
    split
    · rename_i hg
      refine .bind ((passes_ensures m₀ record state hg).mono ?_)
      rintro (error | passed) _ ⟨rfl, h⟩
      · rw [← h]
        exact .pure ⟨rfl, rfl⟩
      · rw [← h]
        cases passed with
        | true => exact .pure ⟨rfl, rfl⟩
        | false => exact ih
    · rename_i hg
      rw [Interpreter.wins_of_unguarded (Bool.eq_false_iff.2 hg)]
      exact .pure ⟨rfl, rfl⟩

theorem resolve_ensures (event : String) :
    (resolve event).Ensures d (fun found m' =>
      m' = m ∧ found.toOption = (d.interpreter m).selected? event m.state) m := by
  refine .bind (.look ?_)
  have hselected : (d.interpreter m).selected? event m.state =
      (d.interpreter m).winner? m.state (m.definition.recordsFor event (some m.state)) := rfl
  rw [hselected]
  dsimp only
  cases m.definition.recordsFor event (some m.state) with
  | nil => exact .pure ⟨rfl, rfl⟩
  | cons first others =>
    refine .bind ((firstPassing_ensures m m.state (first :: others)).mono ?_)
    rintro (error | _ | record) _ ⟨rfl, h⟩
    all_goals
      rw [← h]
      exact .pure ⟨rfl, rfl⟩

namespace Interpreter

variable {I : Interpreter κ} {event state : String} {record : Record}

/-- **The winner** is the candidate that wins after others that do not. -/
theorem winner_eq_some {records : List Record} :
    I.winner? state records = some record ↔ ∃ before after, records = before ++ record :: after ∧
      (∀ other ∈ before, I.wins? other state = some false) ∧ I.wins? record state = some true := by
  induction records with
  | nil => simp [winner?]
  | cons first rest ih =>
    unfold winner?
    constructor
    · intro h
      match hw : I.wins? first state with
      | none => rw [hw] at h; exact nomatch h
      | some true =>
        rw [hw] at h
        cases h
        exact ⟨[], rest, rfl, fun _ h => (nomatch h), hw⟩
      | some false =>
        rw [hw] at h
        obtain ⟨before, after, rfl, hothers, hwins⟩ := ih.1 h
        exact ⟨first :: before, after, rfl, List.forall_mem_cons.2 ⟨hw, hothers⟩, hwins⟩
    · rintro ⟨before, after, hrecords, hothers, hwins⟩
      cases before with
      | nil =>
        cases hrecords
        rw [hwins]
        rfl
      | cons other before =>
        cases hrecords
        obtain ⟨hfirst, hrest⟩ := List.forall_mem_cons.1 hothers
        rw [hfirst]
        exact ih.2 ⟨before, after, rfl, hrest, hwins⟩

theorem winner_mem {records : List Record} (h : I.winner? state records = some record) :
    record ∈ records := by
  obtain ⟨before, after, rfl, -, -⟩ := winner_eq_some.1 h
  exact List.mem_append_right before List.mem_cons_self

theorem selected_mem (h : I.selected? event state = some record) :
    record ∈ I.definition.recordsFor event (some state) := winner_mem h

/-- The selected record leads from the current state. -/
theorem selected_fromState (h : I.selected? event state = some record) : record.fromState = state := by
  have hmem := selected_mem h
  unfold Definition.recordsFor at hmem
  cases hf : I.definition.events.find? (·.name == event) with
  | none => rw [hf] at hmem; exact nomatch hmem
  | some found =>
    rw [hf] at hmem
    simpa using (List.mem_filter.1 hmem).2

theorem selected_event (hn : I.definition.Named) (h : I.selected? event state = some record) :
    record.event = event := hn.event_eq (Definition.recordsFor_none (selected_mem h))

/-- An unknown event selects nothing. -/
theorem selected_unknown (h : I.definition.hasEvent event = false) : I.selected? event state = none := by
  have hnone : I.definition.events.find? (·.name == event) = none := by
    rw [List.find?_eq_none]
    intro found hf hname
    have hmem : found.name ∈ I.definition.eventNames := List.mem_map_of_mem hf
    rw [beq_iff_eq.1 hname, ← List.contains_iff_mem] at hmem
    rw [Definition.hasEvent, hmem] at h
    exact nomatch h
  simp [selected?, Definition.recordsFor, hnone, winner?]

end Interpreter

/-- **A machine at rest selects the record that the interpreter selects.** -/
theorem select_ensures (hm : m.active = []) (event : String) :
    (select event).Ensures d (fun found m' =>
      m' = m ∧ found.toOption = (d.interpreter m).selected? event m.state) m := by
  refine .bind (.look ?_)
  cases he : m.definition.hasEvent event with
  | false =>
    have hnone : (d.interpreter m).selected? event m.state = none := Interpreter.selected_unknown he
    refine .pure ⟨rfl, ?_⟩
    rw [hnone]
    rfl
  | true =>
    refine .bind ((resolve_ensures event).mono ?_)
    rintro found m ⟨rfl, h⟩
    cases found with
    | error error => exact .pure ⟨rfl, h⟩
    | ok record =>
      -- nothing else is active, and the record leads from the current state
      have hfrom : record.fromState = m.state := Interpreter.selected_fromState h.symm
      have hpermit : m.permit record = .ok () := by
        simp [Machine.permit, Machine.isTransitioning, hfrom, hm]
      refine .bind (.look ?_)
      rw [hpermit]
      exact .pure ⟨rfl, h⟩

/-! ## Finding callbacks -/

namespace Driver

variable (d : Driver κ φ) (definition : Definition κ)

/-- The callback of a name, which the target has to have. -/
def named (name : String) (missing : String → MissingCallback) : Except MissingCallback κ :=
  match d.target.callback? name with
  | none => .error (missing d.target.describe)
  | some callback => .ok callback

/-- The callback that a phase lists. -/
def find (record : Record) (phase : Phase) : Listed κ → Except MissingCallback κ
  | .inlineHook _ _ callback => .ok callback
  | .stateHook state name => d.named name fun target => .stateHook name target state phase
  | .transition name => d.named name fun target => .transition name target record phase

/-- **What a phase comes to**, by the callbacks that it lists. -/
def phase (record : Record) (args : List Json) (phase : Phase) : Except Rejection Unit :=
  match (definition.listed record phase).mapM (d.find record phase) with
  | .error missing => .error (.missing missing)
  | .ok callbacks =>
    verdict (callbacks.map fun callback =>
      d.outcome callback ((Transition.fresh record args).context phase))

/-- What phases come to, one after the other. The first that fails ends it. -/
def perform (record : Record) (args : List Json) : List Phase → Except Rejection Unit
  | [] => .ok ()
  | phase :: rest => do
    d.phase definition record args phase
    perform record args rest

end Driver

theorem findNamed_ensures (ht : m.targetName = d.target.describe) (name : String)
    (missing : String → MissingCallback) :
    (findNamed name missing).Ensures d (fun found m' => m' = m ∧ found = d.named name missing) m := by
  refine .bind (.ask ?_)
  rintro _ rfl
  unfold Driver.named
  cases d.target.callback? name with
  | none => exact .bind (.look (.pure ⟨rfl, by rw [ht]⟩))
  | some callback => exact .pure ⟨rfl, rfl⟩

theorem find_ensures (ht : m.targetName = d.target.describe) (record : Record) (phase : Phase)
    (listed : Listed κ) :
    (find record phase listed).Ensures d (fun found m' => m' = m ∧ found = d.find record phase listed) m := by
  cases listed with
  | inlineHook stateIndex position callback => exact .pure ⟨rfl, rfl⟩
  | stateHook state name => exact findNamed_ensures ht name fun target => .stateHook name target state phase
  | transition name => exact findNamed_ensures ht name fun target => .transition name target record phase

/-- **The callbacks that a phase finds.** -/
theorem findAll_ensures (ht : m.targetName = d.target.describe) (record : Record) (phase : Phase)
    (listed : List (Listed κ)) :
    (findAll record phase listed).Ensures d (fun found m' =>
      m' = m ∧ found.map (·.map Prod.snd) = listed.mapM (d.find record phase)) m := by
  induction listed with
  | nil => exact .pure ⟨rfl, rfl⟩
  | cons first rest ih =>
    refine .bind ((find_ensures ht record phase first).mono ?_)
    rintro found _ ⟨rfl, h⟩
    rw [List.mapM_cons, ← h]
    cases found with
    | error error => exact .pure ⟨rfl, rfl⟩
    | ok callback =>
      refine .bind (ih.mono ?_)
      rintro others _ ⟨rfl, h⟩
      rw [← h]
      cases others with
      | error error => exact .pure ⟨rfl, rfl⟩
      | ok callbacks => exact .pure ⟨rfl, rfl⟩

end StateEngine
