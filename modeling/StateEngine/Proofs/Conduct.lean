import StateEngine.Machine.World
import StateEngine.Proofs.Effect

/-!
# What operations may do

All that is ever proved about runs rests on one account of what operations do. `Allowed` says which
changes an operation may make, and on which machines. An operation that polls a future holds it: no
other operation can touch it meanwhile (`Allowed.rely`). `Program.Safe` says that a program makes
only such changes, whatever the host does while it waits.

* `Program.Safe.bind`, `Program.Safe.mono`: programs are composed.
* `Program.Within`: an account of a program that does not depend on the machine; `Program.Within.safe`
  turns it into the other one.
-/

namespace StateEngine

variable {κ φ α β : Type}

/-- Whether some event can select a record. -/
def Definition.Declares (definition : Definition κ) (record : Record) : Prop :=
  ∃ event, record ∈ definition.recordsFor event none

/-- The future that an operation holds. -/
def Operation.own : Operation → Option FutureId
  | .poll future => some future
  | _ => none

namespace Machine

/-- Whether a future is being polled and performs a transition. -/
def Performs (m : Machine κ φ) (f : FutureId) (id : TransitionId) (purpose : Purpose) : Prop :=
  m.future? f = some ⟨id, purpose, .busy⟩

/-- Whether a transition is known to have settled in a way. -/
def Settled (m : Machine κ φ) (id : TransitionId) (result : Except Rejection Unit) : Prop :=
  ∃ t, m.transition? id = some t ∧
    match result with
    | .ok () => t.progress.isRejected = some false
    | .error rejection =>
      t.progress.isRejected = some true ∧ t.progress.rejection = some rejection

/-- Whether a future is gone or being polled. -/
def Held (m : Machine κ φ) (f : FutureId) : Prop :=
  ∃ slot, m.futures[f]? = some slot ∧ ∀ x, slot = some x → x.stage.isBusy = true

end Machine

/-- **What an operation may do to a machine**, by the future that it holds. -/
inductive Allowed (m : Machine κ φ) : Option FutureId → Change φ → Prop where
  | abort (id : TransitionId) : Allowed m none (.note id .abort)
  | note {f : FutureId} {id : TransitionId} {purpose : Purpose} {mark : Mark} :
      m.Performs f id purpose → mark ≠ .abort → Allowed m (some f) (.note id mark)
  | add {record : Record} (args : List Json) :
      m.definition.Declares record → Allowed m none (.add record args)
  | launch {record : Record} (args : List Json) :
      m.definition.Declares record → m.permit record = .ok () → Allowed m none (.launch record args)
  | relaunch {f : FutureId} {id : TransitionId} {rejection : Rejection} {record : Record}
      (args : List Json) :
      m.future? f = some ⟨id, .dispatch, .failed rejection⟩ →
      record ∈ m.definition.recordsFor errorEvent none → m.permit record = .ok () →
      Allowed m (some f) (.relaunch f rejection record args)
  | addFuture (id : TransitionId) {purpose : Purpose} :
      purpose.isDispatch = false → Allowed m none (.addFuture id purpose)
  | take {f : FutureId} {x : Future φ} :
      m.future? f = some x → x.stage.isBusy = false → Allowed m (some f) (.setStage f .busy)
  | rest {f : FutureId} {id : TransitionId} {purpose : Purpose} (phase : Phase) (roster : Roster φ) :
      m.Performs f id purpose → Allowed m (some f) (.setStage f (.waiting phase roster))
  | finish {f : FutureId} {id : TransitionId} {purpose : Purpose} :
      m.Performs f id purpose → purpose.isDispatch = false → Allowed m (some f) (.closeFuture f)
  | refuse {f : FutureId} {id : TransitionId} {rejection : Rejection} :
      m.future? f = some ⟨id, .dispatch, .failed rejection⟩ → Allowed m (some f) (.closeFuture f)
  | drop (f : FutureId) : Allowed m none (.dropFuture f)
  | release {f : FutureId} {id : TransitionId} {purpose : Purpose} :
      m.Performs f id purpose → purpose.isDispatch = true → m.Settled id (.ok ()) →
      id ∉ m.active ∨ m.isAborted id = true → Allowed m (some f) (.release f id)
  | commit {f : FutureId} {id : TransitionId} {purpose : Purpose} {record : Record} :
      m.Performs f id purpose → purpose.isDispatch = true → m.Settled id (.ok ()) →
      m.record? id = some record → id ∈ m.active → m.isAborted id = false →
      Allowed m (some f) (.commit f id record)
  | fail {f : FutureId} {id : TransitionId} {purpose : Purpose} {record : Record}
      {rejection : Rejection} :
      m.Performs f id purpose → purpose.isDispatch = true → m.Settled id (.error rejection) →
      m.record? id = some record → (purpose = .dispatch → record.event = errorEvent) →
      Allowed m (some f) (.fail f id none)
  | failDispatch {f : FutureId} {id : TransitionId} {record : Record} {rejection : Rejection} :
      m.Performs f id .dispatch → m.Settled id (.error rejection) → m.record? id = some record →
      record.event ≠ errorEvent → Allowed m (some f) (.fail f id (some rejection))
  | abortActive (id : TransitionId) : Allowed m none (.abortActive id)
  | abortAll : Allowed m none .abortAll
  | setState {name : String} : m.definition.hasState name = true → Allowed m none (.setState name)
  | subscribe : Allowed m none .subscribe
  | wake : Allowed m none .wake

/-! ## What an operation can count on -/

/-- What an operation can count on while it waits. -/
structure Rely (own : Option FutureId) (m m' : Machine κ φ) : Prop where
  definition : m'.definition = m.definition
  grows : m.Grows m'
  slot : ∀ f, own = some f → m'.futures[f]? = m.futures[f]?

theorem Rely.refl (own : Option FutureId) (m : Machine κ φ) : Rely own m m :=
  ⟨rfl, .of_eq rfl, fun _ _ => rfl⟩

theorem Rely.trans {own : Option FutureId} {m₁ m₂ m₃ : Machine κ φ} (h₁ : Rely own m₁ m₂)
    (h₂ : Rely own m₂ m₃) : Rely own m₁ m₃ :=
  ⟨h₂.definition.trans h₁.definition, h₁.grows.trans h₂.grows,
    fun f hf => (h₂.slot f hf).trans (h₁.slot f hf)⟩

theorem Rely.future {f : FutureId} {m m' : Machine κ φ} (h : Rely (some f) m m') :
    m'.future? f = m.future? f := by
  unfold Machine.future?
  rw [h.slot f rfl]

namespace Machine

variable {m : Machine κ φ} {f : FutureId}

theorem held_of_busy {x : Future φ} (h : m.future? f = some x) (hb : x.stage.isBusy = true) :
    m.Held f := by
  refine ⟨some x, future_eq_some.1 h, ?_⟩
  rintro y ⟨⟩
  exact hb

theorem Performs.held {id : TransitionId} {purpose : Purpose} (h : m.Performs f id purpose) :
    m.Held f := held_of_busy h rfl

theorem Held.of_slot {m' : Machine κ φ} (h : m.Held f) (hs : m'.futures[f]? = m.futures[f]?) :
    m'.Held f := by
  unfold Held
  rw [hs]
  exact h

/-- Dropping a future that is held does nothing. -/
theorem Held.dropFuture (h : m.Held f) : m.dropFuture f = m := by
  obtain ⟨slot, hs, hb⟩ := h
  cases slot with
  | none => exact dropFuture_of_none (by unfold future?; rw [hs]; rfl)
  | some x => exact dropFuture_of_busy (future_eq_some.2 hs) (hb x rfl)

/-- Dropping a future leaves the others alone. -/
theorem slot_dropFuture {g : FutureId} (hne : g ≠ f) :
    (m.dropFuture g).futures[f]? = m.futures[f]? := by
  rcases m.dropFuture_cases g with h | ⟨x, -, -, ⟨-, h⟩ | ⟨-, h⟩⟩
  · rw [h]
  · rw [h]; exact List.getElem?_set_ne hne
  · rw [h, futures_abortActive]; exact List.getElem?_set_ne hne

theorem slot_fail {g : FutureId} (hne : g ≠ f) (id : TransitionId) (rejection : Option Rejection) :
    (m.fail g id rejection).futures[f]? = m.futures[f]? := by
  rw [futures_fail]
  cases rejection with
  | none => exact List.getElem?_set_ne hne
  | some r => exact List.getElem?_modify_ne _ _ hne

end Machine

/-- An operation leaves the futures alone that it does not hold, unless it drops one. -/
theorem Allowed.slot {m : Machine κ φ} {own : Option FutureId} {c : Change φ} {f : FutureId}
    (h : Allowed m own c) (hlt : f < m.futures.length) (hne : own ≠ some f) (hdrop : c ≠ .dropFuture f) :
    (c.apply m).futures[f]? = m.futures[f]? := by
  -- new futures are appended, and whoever replaces one holds it, but for `dropFuture`
  cases h with
  | launch args _ _ => exact List.getElem?_append_left hlt
  | addFuture id _ => exact List.getElem?_append_left hlt
  | relaunch args _ _ _ => exact List.getElem?_set_ne fun e => hne (by rw [e])
  | take _ _ => exact List.getElem?_modify_ne _ _ fun e => hne (by rw [e])
  | rest phase roster _ => exact List.getElem?_modify_ne _ _ fun e => hne (by rw [e])
  | finish _ _ => exact List.getElem?_set_ne fun e => hne (by rw [e])
  | refuse _ => exact List.getElem?_set_ne fun e => hne (by rw [e])
  | release _ _ _ _ => exact List.getElem?_set_ne fun e => hne (by rw [e])
  | commit _ _ _ _ _ _ => exact List.getElem?_set_ne fun e => hne (by rw [e])
  | fail _ _ _ _ _ => exact Machine.slot_fail (fun e => hne (by rw [e])) ..
  | failDispatch _ _ _ _ => exact Machine.slot_fail (fun e => hne (by rw [e])) ..
  | drop g => exact Machine.slot_dropFuture fun e => hdrop (by rw [e])
  | abortActive id => rw [Change.apply, Machine.futures_abortActive]
  | abortAll => rw [Change.apply, Machine.abortAll_eq]
  | _ => rfl

/-- **Nobody touches a future that another operation holds.** -/
theorem Allowed.rely {m : Machine κ φ} {own other : Option FutureId} {c : Change φ}
    (h : Allowed m own c) (ho : ∀ f, other = some f → m.Held f ∧ own ≠ some f) :
    Rely other m (c.apply m) := by
  refine ⟨c.definition_apply, c.grows, ?_⟩
  rintro f rfl
  obtain ⟨hf, hne⟩ := ho f rfl
  obtain ⟨slot, hs, -⟩ := id hf
  by_cases hdrop : c = .dropFuture f
  · rw [hdrop, Change.apply, hf.dropFuture]
  · exact h.slot (List.getElem?_eq_some_iff.1 hs).1 hne hdrop

/-! ## Programs -/

def Request.isNotify : Request κ φ → Bool
  | .notify _ _ => true
  | _ => false

/-- The change that a request announces was committed. -/
def Announced (trace : List (Deed κ φ)) : Request κ φ → Prop
  | .notify _ change =>
    ∀ event, change.event = some event →
      ∃ m f id record, .changed m (.commit f id record) ∈ trace ∧ event = record.event ∧
        change.source = m.state ∧ change.target = record.toState
  | _ => True

/-- Whether a program that holds a future makes only changes that are allowed, and ends in a way,
whatever happens while it waits. -/
def Program.Safe (own : Option FutureId) (post : α → Scene κ φ → Prop) :
    Program κ φ α → Scene κ φ → Prop
  | .done a, s => post a s
  | .look next, s => (next s.machine).Safe own post s
  | .change c next, s => Allowed s.machine own c ∧ next.Safe own post (s.make c)
  | .ask request resume, s =>
    Announced s.trace request ∧ (∀ f, own = some f → s.machine.Held f) ∧
      ∀ s' : Scene κ φ, Rely own s.machine s'.machine → s.trace <+: s'.trace →
        ∀ reply, (resume reply).Safe own post s'

namespace Program

theorem Safe.mono {own : Option FutureId} {post post' : α → Scene κ φ → Prop}
    (hpost : ∀ a s, post a s → post' a s) {p : Program κ φ α} :
    ∀ {s : Scene κ φ}, p.Safe own post s → p.Safe own post' s := by
  induction p with
  | done a => intro s h; exact hpost a s h
  | look next ih => intro s h; exact ih s.machine h
  | change c next ih => intro s h; exact ⟨h.1, ih h.2⟩
  | ask request resume ih =>
    intro s h
    obtain ⟨ha, hh, hr⟩ := h
    exact ⟨ha, hh, fun s' hs ht reply => ih reply (hr s' hs ht reply)⟩

theorem Safe.pure {own : Option FutureId} {post : α → Scene κ φ → Prop} {a : α} {s : Scene κ φ}
    (h : post a s) : (Pure.pure a : Program κ φ α).Safe own post s := h

theorem Safe.look {own : Option FutureId} {post : Machine κ φ → Scene κ φ → Prop} {s : Scene κ φ}
    (h : post s.machine s) : (StateEngine.look : Program κ φ (Machine κ φ)).Safe own post s := h

theorem Safe.of_look {own : Option FutureId} {post : α → Scene κ φ → Prop}
    {f : Machine κ φ → Program κ φ α} {s : Scene κ φ}
    (h : (StateEngine.look >>= f).Safe own post s) : (f s.machine).Safe own post s := h

theorem Safe.make {own : Option FutureId} {post : Unit → Scene κ φ → Prop} {c : Change φ}
    {s : Scene κ φ} (hc : Allowed s.machine own c) (h : post () (s.make c)) :
    (StateEngine.make c : Program κ φ Unit).Safe own post s := ⟨hc, h⟩

theorem Safe.ask {own : Option FutureId} {request : Request κ φ}
    {post : request.Reply → Scene κ φ → Prop} {s : Scene κ φ} (ha : Announced s.trace request)
    (hh : ∀ f, own = some f → s.machine.Held f)
    (h : ∀ s' : Scene κ φ, Rely own s.machine s'.machine → s.trace <+: s'.trace →
      ∀ reply, post reply s') :
    (StateEngine.ask request).Safe own post s := ⟨ha, hh, h⟩

/-- **Programs are composed**: the second one goes on from where the first one ends. -/
theorem Safe.bind {own : Option FutureId} {post : β → Scene κ φ → Prop} {f : α → Program κ φ β}
    {p : Program κ φ α} :
    ∀ {s : Scene κ φ}, p.Safe own (fun a s' => (f a).Safe own post s') s →
      (p >>= f).Safe own post s := by
  induction p with
  | done a => intro s h; exact h
  | look next ih => intro s h; exact ih s.machine h
  | change c next ih => intro s h; exact ⟨h.1, ih h.2⟩
  | ask request resume ih =>
    intro s h
    obtain ⟨ha, hh, hr⟩ := h
    exact ⟨ha, hh, fun s' hs ht reply => ih reply (hr s' hs ht reply)⟩

/-- Whether a program makes only some changes, notifies nobody and ends in a way, whatever the
machine is and whatever the host answers. -/
def Within (P : Change φ → Prop) (post : α → Prop) : Program κ φ α → Prop
  | .done a => post a
  | .look next => ∀ m, (next m).Within P post
  | .change c next => P c ∧ next.Within P post
  | .ask request resume =>
    request.isNotify = false ∧ ∀ reply, (resume reply).Within P post

theorem Within.mono {P P' : Change φ → Prop} {post post' : α → Prop} (hP : ∀ c, P c → P' c)
    (hpost : ∀ a, post a → post' a) {p : Program κ φ α} (h : p.Within P post) :
    p.Within P' post' := by
  induction p with
  | done a => exact hpost a h
  | look next ih => exact fun m => ih m (h m)
  | change c next ih => exact ⟨hP c h.1, ih h.2⟩
  | ask request resume ih => exact ⟨h.1, fun reply => ih reply (h.2 reply)⟩

theorem Within.pure {P : Change φ → Prop} {post : α → Prop} {a : α} (h : post a) :
    (Pure.pure a : Program κ φ α).Within P post := h

theorem Within.look {P : Change φ → Prop} :
    (StateEngine.look : Program κ φ (Machine κ φ)).Within P fun _ => True := fun _ => trivial

theorem Within.make {P : Change φ → Prop} {c : Change φ} (h : P c) :
    (StateEngine.make c : Program κ φ Unit).Within P fun _ => True := ⟨h, trivial⟩

theorem Within.ask {P : Change φ → Prop} {request : Request κ φ} (h : request.isNotify = false) :
    (StateEngine.ask request).Within P fun _ => True := ⟨h, fun _ => trivial⟩

theorem Within.bind {P : Change φ → Prop} {mid : α → Prop} {post : β → Prop}
    {f : α → Program κ φ β} {p : Program κ φ α} (h : p.Within P mid)
    (hf : ∀ a, mid a → (f a).Within P post) : (p >>= f).Within P post := by
  induction p with
  | done a => exact hf a h
  | look next ih => exact fun m => ih m (h m)
  | change c next ih => exact ⟨h.1, ih h.2⟩
  | ask request resume ih => exact ⟨h.1, fun reply => ih reply (h.2 reply)⟩

end Program

/-- What an operation knows of the machine, and still knows after it waited. -/
structure Stable (own : Option FutureId) (I : Machine κ φ → Prop) : Prop where
  held : ∀ {m f}, I m → own = some f → m.Held f
  rely : ∀ {m m'}, I m → Rely own m m' → I m'

theorem Stable.none : Stable (κ := κ) (φ := φ) none fun _ => True :=
  ⟨fun _ h => (nomatch h), fun _ _ => trivial⟩

/-- The definition is known for good. -/
theorem Stable.and_definition {own : Option FutureId} {I : Machine κ φ → Prop} (hI : Stable own I)
    (d : Definition κ) : Stable own fun m => I m ∧ m.definition = d :=
  ⟨fun h hf => hI.held h.1 hf, fun h hr => ⟨hI.rely h.1 hr, hr.definition.trans h.2⟩⟩

/-- **From one account to the other**: a program is safe if its changes are allowed wherever a stable
fact holds, and keep it. -/
theorem Program.Within.safe {own : Option FutureId} {I : Machine κ φ → Prop} {P : Change φ → Prop}
    {post : α → Prop} (hI : Stable own I)
    (hP : ∀ m c, I m → P c → Allowed m own c ∧ I (c.apply m)) {p : Program κ φ α}
    (h : p.Within P post) :
    ∀ {s : Scene κ φ}, I s.machine → p.Safe own (fun a s' => post a ∧ I s'.machine) s := by
  induction p with
  | done a => intro s hs; exact ⟨h, hs⟩
  | look next ih => intro s hs; exact ih s.machine (h s.machine) hs
  | change c next ih =>
    intro s hs
    obtain ⟨ha, hi⟩ := hP s.machine c hs h.1
    exact ⟨ha, ih h.2 hi⟩
  | ask request resume ih =>
    intro s hs
    refine ⟨?_, fun f hf => hI.held hs hf, fun s' hr _ reply => ih reply (h.2 reply) (hI.rely hs hr)⟩
    cases request with
    | notify listener change => exact nomatch h.1
    | _ => trivial

end StateEngine
