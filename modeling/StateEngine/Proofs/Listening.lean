import StateEngine.Proofs.Commit

/-!
# What listeners hear

Each change of the state is told to all listeners that there are then, one after the other. Meanwhile the
host may do anything, and the next change may be told before the last one has reached everyone. So no
listener misses a change or hears of it twice, but it may hear of changes in another order than that in which
they were made. It does not if each change has reached it before the next one is made.

* `Scene.changes`, `Scene.heard`, `World.owed`: what was changed, what a listener heard of it, and what it is
  still to hear.
* `Program.Tells`, `Program.Informs`: a program that tells listeners of a change, and one that does so after
  each change that it makes. `Operation.informs`: **every operation does**.
* `Ledger`: what was changed against what was heard, deed by deed.
* `listeners_hear`: **each change is heard once**, and in order if none is made too early.
-/

namespace StateEngine

variable {κ φ α β : Type}

/-! ## Changes and listeners -/

/-- The change of the state that a change of a machine makes, as listeners are told of it. -/
def Machine.stateChange? (m : Machine κ φ) : Change φ → Option StateChange
  | .commit _ _ record => some ⟨some record.event, m.state, record.toState⟩
  | .setState name => some ⟨none, m.state, name⟩
  | _ => none

namespace Deed

def stateChange? : Deed κ φ → Option StateChange
  | changed m c => m.stateChange? c
  | asked _ => none

/-- The change that a listener is told of. -/
def heardBy? (listener : Nat) : Deed κ φ → Option StateChange
  | asked (.notify other change) => if other = listener then some change else none
  | _ => none

end Deed

namespace Scene

/-- The changes of the state, in the order in which they were made. -/
def changes (s : Scene κ φ) : List StateChange := s.trace.filterMap Deed.stateChange?

/-- The changes that a listener heard of, in the order in which it did. -/
def heard (s : Scene κ φ) (listener : Nat) : List StateChange :=
  s.trace.filterMap (Deed.heardBy? listener)

/-- Whether a listener had heard of all changes whenever one more was made. -/
def Prompt (s : Scene κ φ) (listener : Nat) : Prop :=
  ∀ before deed, before ++ [deed] <+: s.trace → deed.stateChange?.isSome = true →
    (before.filterMap (Deed.heardBy? listener)).length = (before.filterMap Deed.stateChange?).length

end Scene

/-- The change that a listener is still to hear of while one before it is being told. -/
def Request.owed? (listener : Nat) : Request κ φ → Option StateChange
  | notify other change => if other < listener then some change else none
  | _ => none

theorem Request.owed_of_asking {request : Request κ φ} (h : request.isNotify = false) (i : Nat) :
    request.owed? i = none := by
  cases request with
  | notify listener change => exact nomatch h
  | _ => rfl

theorem Request.owed_notify (listener : Nat) (change : StateChange) (i : Nat) :
    (notify listener change : Request κ φ).owed? i = if listener < i then some change else none := rfl

namespace World

/-- The changes that a listener is still to hear of. -/
def owed (w : World κ φ) (listener : Nat) : List StateChange :=
  w.waiting.filterMap (·.request.owed? listener)

/-- Whether no notification is in progress. -/
def Quiet (w : World κ φ) : Prop := ∀ x ∈ w.waiting, x.request.isNotify = false

end World

/-- Whether changes lead from a state to a state: each source is the target before it. -/
def Chained (first : String) (changes : List StateChange) (last : String) : Prop :=
  changes.map (·.source) ++ [last] = first :: changes.map (·.target)

/-! ## Programs that tell -/

/-- Whether a program only tells some listeners of a change, one after the other, and what it comes to. -/
inductive Program.Tells (change : StateChange) (result : α) :
    List Nat → Program κ φ α → Machine κ φ → Prop where
  | done (m : Machine κ φ) : Tells change result [] (.done result) m
  | look {listeners : List Nat} {next : Machine κ φ → Program κ φ α} {m : Machine κ φ} :
      Tells change result listeners (next m) m → Tells change result listeners (.look next) m
  | ask {listener : Nat} {listeners : List Nat} {resume : Unit → Program κ φ α} {m : Machine κ φ} :
      (∀ m', Tells change result listeners (resume ()) m') →
      Tells change result (listener :: listeners) (.ask (.notify listener change) resume) m

/-- Whether a program tells all listeners of each change that it makes, and nobody of anything else. -/
inductive Program.Informs : Program κ φ α → Machine κ φ → Prop where
  | done (a : α) (m : Machine κ φ) : Informs (.done a) m
  | look {next : Machine κ φ → Program κ φ α} {m : Machine κ φ} :
      Informs (next m) m → Informs (.look next) m
  | still {c : Change φ} {next : Program κ φ α} {m : Machine κ φ} :
      m.stateChange? c = none → Informs next (c.apply m) → Informs (.change c next) m
  | tell {c : Change φ} {next : Program κ φ α} {m : Machine κ φ} {change : StateChange} {result : α} :
      m.stateChange? c = some change →
      next.Tells change result (List.range m.listeners) (c.apply m) → Informs (.change c next) m
  | ask {request : Request κ φ} {resume : request.Reply → Program κ φ α} {m : Machine κ φ} :
      request.isNotify = false → (∀ reply m', Informs (resume reply) m') →
      Informs (.ask request resume) m

/-- Whether a change leaves the state of any machine alone. -/
def Change.Still (c : Change φ) : Prop :=
  ∀ {κ : Type} (m : Machine κ φ), m.stateChange? c = none

theorem Notes.still {id : TransitionId} {c : Change φ} (h : Notes id c) : c.Still := by
  obtain ⟨mark, -, rfl⟩ := h
  exact fun _ => rfl

theorem PhaseNotes.still {id : TransitionId} {c : Change φ} (h : PhaseNotes id c) : c.Still :=
  h.notes.still

namespace Program

variable {m : Machine κ φ} {change : StateChange}

theorem Tells.map {result : α} {p : Program κ φ α} {listeners : List Nat}
    (h : p.Tells change result listeners m) (g : α → β) :
    (p >>= fun a => pure (g a)).Tells change (g result) listeners m := by
  induction h with
  | done m => exact .done m
  | look _ ih => exact .look ih
  | ask _ ih => exact .ask ih

theorem notifyAll_tells (listeners : List Nat) (m : Machine κ φ) :
    (notifyAll change listeners : Program κ φ Unit).Tells change () listeners m := by
  induction listeners generalizing m with
  | nil => exact .done m
  | cons listener rest ih => exact .ask ih

theorem notify_tells (m : Machine κ φ) :
    (notify change : Program κ φ Unit).Tells change () (List.range m.listeners) m :=
  .look (notifyAll_tells _ m)

namespace Informs

theorem map {p : Program κ φ α} (h : p.Informs m) (g : α → β) : (p >>= fun a => pure (g a)).Informs m := by
  induction h with
  | done a m => exact .done (g a) m
  | look _ ih => exact .look ih
  | still hc _ ih => exact .still hc ih
  | tell hc ht => exact .tell hc (ht.map g)
  | ask hn _ ih => exact .ask hn ih

/-- A program that leaves the state alone and tells nobody anything, and goes on with one that informs. -/
theorem of_within {P : Change φ → Prop} {post : α → Prop} {p : Program κ φ α} {f : α → Program κ φ β}
    (h : p.Within P post) (hP : ∀ c, P c → c.Still) (hf : ∀ a m, post a → (f a).Informs m) :
    (p >>= f).Informs m := by
  change (p.bind f).Informs m
  induction p generalizing m with
  | done a => exact hf a m h
  | look next ih => exact .look (ih m (h m))
  | change c next ih => exact .still (hP c h.1 m) (ih h.2)
  | ask request resume ih => exact .ask h.1 fun reply m' => ih reply (h.2 reply)

theorem of_look {f : Machine κ φ → Program κ φ β} (h : (f m).Informs m) :
    (StateEngine.look >>= f).Informs m := .look h

theorem of_make {c : Change φ} {f : Unit → Program κ φ β} (hc : c.Still) (h : ∀ m, (f ()).Informs m) :
    (StateEngine.make c >>= f).Informs m := .still (hc m) (h _)

/-- A change of the state, and the telling of it. -/
theorem of_tell {c : Change φ} {f : Unit → Program κ φ β} {result : β}
    (hc : m.stateChange? c = some change)
    (h : (f ()).Tells change result (List.range m.listeners) (c.apply m)) :
    (StateEngine.make c >>= f).Informs m := .tell hc h

end Informs

end Program

open Program

/-! ## Every operation informs -/

variable {m : Machine κ φ} {f : FutureId} {id : TransitionId}

theorem send_informs (event : String) (args : List Json) : (send event args : Program κ φ _).Informs m := by
  refine .of_within (P := fun _ => False) (select_within event) (fun _ h => h.elim) fun result m _ => ?_
  cases result with
  | error error => exact .done _ m
  | ok record => exact .of_look (.of_make (fun _ => rfl) fun m => .done _ m)

theorem transitionFor_informs (event : String) (args : List Json) :
    (transitionFor event args : Program κ φ _).Informs m := by
  refine .of_within (P := fun _ => False) (resolve_within event) (fun _ h => h.elim) fun result m _ => ?_
  cases result with
  | error error => exact .done _ m
  | ok record => exact .of_look (.of_make (fun _ => rfl) fun m => .done _ m)

theorem canEnter_informs (target : String) : (canEnter target : Program κ φ _).Informs m :=
  .of_look <| .of_within (P := fun _ => False) (firstPassing_within m.state _) (fun _ h => h.elim)
    fun _ m _ => .done _ m

theorem callbackIds_informs (id : TransitionId) (phase : Phase) :
    (callbackIds id phase : Program κ φ _).Informs m := by
  refine .of_look ?_
  cases m.transition? id with
  | none => exact .done _ m
  | some t =>
    exact .of_within (P := fun _ => False) (callbacksFor_within t phase) (fun _ h => h.elim)
      fun _ m _ => .done _ m

/-- Setting the state is told. -/
theorem setState_informs (name : String) : (setState name : Program κ φ _).Informs m := by
  refine .of_look ?_
  cases m.definition.lookupState name with
  | error error => exact .done _ m
  | ok state => exact .of_tell rfl ((notify_tells (m.setState name)).map fun _ => Except.ok ())

/-- A commit is told. -/
theorem settle_informs (id : TransitionId) (record : Record) :
    (settle f id record : Program κ φ _).Informs m := by
  refine .of_look ?_
  split
  · exact .of_tell rfl (notify_tells (m.commit f id record))
  · exact .still rfl (.done _ _)

theorem rest_informs (phase : Phase) (roster : Roster φ) : (rest f phase roster : Program κ φ _).Informs m :=
  .of_make (fun _ => rfl) fun m => .done _ m

theorem finish_informs (polled : Polled) (result : Except Rejection Unit) :
    (finish f polled result : Program κ φ _).Informs m := by
  cases result with
  | ok _ => exact .of_make (fun _ => rfl) fun m => .done _ m
  | error rejection => exact .of_make (fun _ => rfl) fun m => .done _ m

theorem recover_informs (record : Record) (rejection : Rejection) (advance : Advance φ) :
    (recover f id record rejection advance : Program κ φ _).Informs m := by
  match advance with
  | .waiting phase roster => exact rest_informs phase roster
  | .over (.ok ()) => exact (settle_informs id record).map fun _ => Polled.rejected rejection
  | .over (.error other) => exact .of_make (fun _ => rfl) fun m => .done _ m

theorem dispatchError_informs (i : TransitionId) (t : Transition) (rejection : Rejection) :
    (dispatchError f i t rejection : Program κ φ _).Informs m := by
  refine .of_within (P := fun _ => False) (select_within errorEvent) (fun _ h => h.elim) fun result m _ => ?_
  cases result with
  | error error => exact .of_make (fun _ => rfl) fun m => .done _ m
  | ok record =>
    refine .of_look (.of_make (fun _ => rfl) fun m' => ?_)
    exact .of_within (startPhases_within _ _ Phase.all) (fun _ => Notes.still)
      fun advance m _ => recover_informs record rejection advance

theorem conclude_informs (t : Transition) (advance : Advance φ) :
    (conclude f id t advance : Program κ φ _).Informs m := by
  match advance with
  | .waiting phase roster => exact rest_informs phase roster
  | .over (.ok ()) => exact (settle_informs id t.record).map fun _ => Polled.resolved id
  | .over (.error rejection) =>
    unfold conclude
    dsimp only
    split
    · exact .of_make (fun _ => rfl) fun m => .done _ m
    · exact .of_make (fun _ => rfl) fun m => dispatchError_informs _ t rejection

theorem pollFrom_informs (t : Transition) (purpose : Purpose) (stage : Stage φ) :
    (pollFrom f id t purpose stage : Program κ φ _).Informs m := by
  cases purpose with
  | phase phase =>
    refine .of_within (advancePhase_within id t phase stage) (fun _ => PhaseNotes.still) fun advance m _ => ?_
    obtain ⟨phase, roster⟩ | result := advance
    · exact rest_informs phase roster
    · exact finish_informs _ result
  | perform =>
    refine .of_within (advance_within id t stage) (fun _ => Notes.still) fun advance m _ => ?_
    obtain ⟨phase, roster⟩ | result := advance
    · exact rest_informs phase roster
    · exact finish_informs _ result
  | dispatch =>
    exact .of_within (advance_within id t stage) (fun _ => Notes.still)
      fun advance m _ => conclude_informs t advance
  | recovery rejection =>
    exact .of_within (advance_within id t stage) (fun _ => Notes.still)
      fun advance m _ => recover_informs t.record rejection advance

theorem poll_informs (f : FutureId) : (poll f : Program κ φ _).Informs m := by
  refine .of_look ?_
  cases m.future? f with
  | none => exact .done _ m
  | some x =>
    obtain ⟨id, purpose, stage⟩ := x
    dsimp only
    split
    · exact .done _ m
    · cases m.transition? id with
      | none => exact .done _ m
      | some t => exact .of_make (fun _ => rfl) fun m => (pollFrom_informs t purpose stage).map some

/-- **Every operation tells all listeners of each change that it makes**, and nobody of anything else. -/
theorem Operation.informs (op : Operation) (m : Machine κ φ) : op.program.Informs m := by
  cases op with
  | send event args => exact send_informs event args
  | transitionFor event args => exact transitionFor_informs event args
  | perform id phase => exact .of_look (.of_make (fun _ => rfl) fun m => .done _ m)
  | callbacksFor id phase => exact callbackIds_informs id phase
  | poll f => exact poll_informs f
  | canEnter target => exact canEnter_informs target
  | setState name => exact setState_informs name
  | _ => exact .still rfl (.done _ _)

/-! ## Deed by deed -/

namespace Machine

theorem listeners_abortActive (m : Machine κ φ) (id : TransitionId) :
    (m.abortActive id).listeners = m.listeners := by
  by_cases h : id ∈ m.active
  · rw [abortActive_of_mem h]
    rfl
  · rw [abortActive_of_not_mem h]

theorem listeners_abortAll (m : Machine κ φ) : m.abortAll.listeners = m.listeners := by
  rw [abortAll_eq]

end Machine

/-- No listener is ever lost. -/
theorem Change.listeners_le (c : Change φ) (m : Machine κ φ) : m.listeners ≤ (c.apply m).listeners := by
  cases c with
  | abortActive id => exact Nat.le_of_eq (m.listeners_abortActive id).symm
  | abortAll => exact Nat.le_of_eq m.listeners_abortAll.symm
  | fail f id rejection =>
    cases rejection with
    | none => exact Nat.le_of_eq (m.release f id).listeners_abortAll.symm
    | some rejection =>
      exact Nat.le_of_eq ((m.setStage f (.failed rejection)).deactivate id).listeners_abortAll.symm
  | dropFuture f =>
    rcases m.dropFuture_cases f with h | ⟨x, -, -, ⟨-, h⟩ | ⟨-, h⟩⟩
    · exact Nat.le_of_eq (congrArg Machine.listeners h).symm
    · exact Nat.le_of_eq (congrArg Machine.listeners h).symm
    · have hdrop := (congrArg Machine.listeners h).trans (Machine.listeners_abortActive _ x.transition)
      exact Nat.le_of_eq hdrop.symm
  | subscribe => exact Nat.le_succ m.listeners
  | _ => exact Nat.le_refl m.listeners

namespace Scene

variable {s s' : Scene κ φ} {i : Nat}

theorem changes_make (s : Scene κ φ) (c : Change φ) :
    (s.make c).changes = s.changes ++ (s.machine.stateChange? c).toList := by
  unfold changes make
  rw [List.filterMap_append]
  cases h : s.machine.stateChange? c <;> simp [Deed.stateChange?, h]

theorem heard_make (s : Scene κ φ) (c : Change φ) (i : Nat) : (s.make c).heard i = s.heard i := by
  simp [heard, make, Deed.heardBy?]

theorem changes_ask (s : Scene κ φ) (request : Request κ φ) : (s.ask request).changes = s.changes := by
  simp [changes, ask, Deed.stateChange?]

theorem heard_ask (s : Scene κ φ) (request : Request κ φ) (i : Nat) :
    (s.ask request).heard i = s.heard i ++ (Deed.heardBy? i (.asked request)).toList := by
  unfold heard ask
  rw [List.filterMap_append]
  cases h : Deed.heardBy? i (.asked request) <;> simp [h]

theorem Prompt.of_prefix (h : s'.Prompt i) (hp : s.trace <+: s'.trace) : s.Prompt i :=
  fun before deed hbefore => h before deed (hbefore.trans hp)

/-- A scene is prompt up to a deed, and the deed does not come too early. -/
theorem prompt_concat {deed : Deed κ φ} (ht : s'.trace = s.trace ++ [deed]) :
    s'.Prompt i ↔ s.Prompt i ∧
      (deed.stateChange?.isSome = true → (s.heard i).length = s.changes.length) := by
  constructor
  · intro h
    exact ⟨h.of_prefix ⟨[deed], ht.symm⟩, h s.trace deed (ht ▸ List.prefix_rfl)⟩
  · rintro ⟨h, hdeed⟩ before deed' hbefore hchange
    rw [ht] at hbefore
    rcases List.prefix_concat_iff.1 hbefore with heq | hlt
    · obtain ⟨rfl, hd⟩ := List.append_inj' heq rfl
      obtain rfl := List.singleton_inj.1 hd
      exact hdeed hchange
    · exact h before deed' hlt hchange

theorem prompt_ask (s : Scene κ φ) (request : Request κ φ) (i : Nat) :
    (s.ask request).Prompt i ↔ s.Prompt i := by
  rw [prompt_concat (s := s) rfl]
  exact and_iff_left fun h => nomatch h

theorem prompt_start (m : Machine κ φ) (i : Nat) : (⟨m, []⟩ : Scene κ φ).Prompt i :=
  fun _ _ hp => absurd (List.prefix_nil.1 hp) (List.append_ne_nil_of_right_ne_nil _ (List.cons_ne_nil _ _))

end Scene

/-- **What was changed against what a listener heard**, and the changes that it is still to hear of. -/
structure Ledger (i : Nat) (s : Scene κ φ) (owed : List StateChange) : Prop where
  once : s.changes.Perm (s.heard i ++ owed)
  order : s.Prompt i → s.changes = s.heard i ++ owed ∧ owed.length ≤ 1
  first : i = 0 → s.Prompt i

namespace Ledger

variable {i : Nat} {s : Scene κ φ} {owed owed' : List StateChange} {change : StateChange}

/-- In which order a listener is to hear of changes does not matter, for there is but one if it was told
promptly. -/
theorem perm (h : Ledger i s owed) (hp : owed.Perm owed') : Ledger i s owed' := by
  refine ⟨h.once.trans (hp.append_left _), fun hprompt => ?_, h.first⟩
  obtain ⟨horder, hlength⟩ := h.order hprompt
  have heq : owed' = owed := by
    match owed, hlength with
    | [], _ => exact hp.nil_eq.symm
    | [_], _ => exact List.perm_singleton.1 hp.symm
  rw [heq]
  exact ⟨horder, hlength⟩

/-- A change that leaves the state alone. -/
theorem still {c : Change φ} (h : Ledger i s owed) (hc : s.machine.stateChange? c = none) :
    Ledger i (s.make c) owed := by
  have hchanges : (s.make c).changes = s.changes := by
    rw [Scene.changes_make, hc, Option.toList_none, List.append_nil]
  have hprompt : (s.make c).Prompt i ↔ s.Prompt i := by
    rw [Scene.prompt_concat (s := s) rfl, Deed.stateChange?, hc]
    exact and_iff_left fun h => nomatch h
  refine ⟨?_, ?_, fun hi => hprompt.2 (h.first hi)⟩
  · rw [hchanges, Scene.heard_make]
    exact h.once
  · rw [hchanges, Scene.heard_make, hprompt]
    exact h.order

/-- **A change of the state is owed to every listener.** -/
theorem owe {c : Change φ} (h : Ledger i s owed) (hc : s.machine.stateChange? c = some change)
    (hfirst : i = 0 → owed = []) : Ledger i (s.make c) (change :: owed) := by
  have hchanges : (s.make c).changes = s.changes ++ [change] := by
    rw [Scene.changes_make, hc, Option.toList_some]
  have hprompt : (s.make c).Prompt i ↔ s.Prompt i ∧ (s.heard i).length = s.changes.length := by
    rw [Scene.prompt_concat (s := s) rfl, Deed.stateChange?, hc]
    exact and_congr_right' (forall_prop_of_true rfl)
  refine ⟨?_, fun hp => ?_, fun hi => hprompt.2 ⟨h.first hi, ?_⟩⟩
  · rw [hchanges, Scene.heard_make]
    exact (h.once.append_right [change]).trans (by
      rw [List.append_assoc]
      exact (List.perm_append_singleton change owed).append_left _)
  · obtain ⟨hp, hlength⟩ := hprompt.1 hp
    obtain ⟨horder, -⟩ := h.order hp
    have hnil : owed = [] := by
      rw [horder, List.length_append] at hlength
      exact List.eq_nil_of_length_eq_zero (by omega)
    subst hnil
    rw [hchanges, Scene.heard_make, horder, List.append_nil]
    exact ⟨rfl, Nat.le_refl 1⟩
  · have hlength := h.once.length_eq
    rw [hfirst hi, List.append_nil] at hlength
    exact hlength.symm

/-- A listener does not hear of what is asked of others. -/
theorem ask {request : Request κ φ} (h : Ledger i s owed)
    (hr : Deed.heardBy? i (.asked request : Deed κ φ) = none) : Ledger i (s.ask request) owed := by
  have hheard : (s.ask request).heard i = s.heard i := by
    rw [Scene.heard_ask, hr, Option.toList_none, List.append_nil]
  refine ⟨?_, ?_, fun hi => (Scene.prompt_ask ..).2 (h.first hi)⟩
  · rw [Scene.changes_ask, hheard]
    exact h.once
  · rw [Scene.changes_ask, hheard, Scene.prompt_ask]
    exact h.order

/-- **A listener hears of a change** that is owed to it. -/
theorem hear (h : Ledger i s (change :: owed)) : Ledger i (s.ask (.notify i change)) owed := by
  have hheard : (s.ask (.notify i change)).heard i = s.heard i ++ [change] := by
    rw [Scene.heard_ask, Deed.heardBy?, if_pos rfl, Option.toList_some]
  refine ⟨?_, fun hp => ?_, fun hi => (Scene.prompt_ask ..).2 (h.first hi)⟩
  · rw [Scene.changes_ask, hheard, List.append_assoc, List.singleton_append]
    exact h.once
  · obtain ⟨horder, hlength⟩ := h.order ((Scene.prompt_ask ..).1 hp)
    rw [Scene.changes_ask, hheard, List.append_assoc, List.singleton_append]
    exact ⟨horder, Nat.le_of_succ_le hlength⟩

end Ledger

/-! ## Operations that wait -/

/-- Whether an operation that waits is to tell all of some listeners that have not heard of a change yet, or
tells all listeners of each change that it is to make. -/
inductive Waiting.Informs (listeners : Nat) : Waiting κ φ → Prop where
  | telling {op : Operation} {listener : Nat} {change : StateChange} {resume : Unit → Program κ φ op.Result}
      {result : op.Result} {others : Nat} :
      listeners ≤ listener + 1 + others →
      (∀ m, (resume ()).Tells change result (List.range' (listener + 1) others) m) →
      Informs listeners ⟨op, .notify listener change, resume⟩
  | asking {op : Operation} {request : Request κ φ} {resume : request.Reply → Program κ φ op.Result} :
      request.isNotify = false → (∀ reply m, (resume reply).Informs m) →
      Informs listeners ⟨op, request, resume⟩

namespace World

/-- Whether all operations that wait tell what they change, and all listeners that there were first are owed
what they have not heard of, also by the operation that moves. -/
structure Informing (m : Machine κ φ) (debts : Nat → List StateChange) (w : World κ φ) : Prop where
  listeners_le : m.listeners ≤ w.machine.listeners
  informs : ∀ x ∈ w.waiting, x.Informs m.listeners
  ledger : ∀ i < m.listeners, Ledger i w.scene (debts i ++ w.owed i)

theorem owed_cons (scene scene' : Scene κ φ) (x : Waiting κ φ) (older : List (Waiting κ φ)) (i : Nat) :
    (⟨scene, x :: older⟩ : World κ φ).owed i =
      (x.request.owed? i).toList ++ (⟨scene', older⟩ : World κ φ).owed i := by
  unfold owed
  cases h : x.request.owed? i <;> simp [h]

theorem owed_zero (w : World κ φ) : w.owed 0 = [] := by
  refine List.filterMap_eq_nil_iff.2 fun x _ => ?_
  cases x.request with
  | notify listener change =>
    rw [Request.owed_notify, if_neg (Nat.not_lt_zero listener)]
  | _ => rfl

theorem Quiet.owed_eq {w : World κ φ} (h : w.Quiet) (i : Nat) : w.owed i = [] :=
  List.filterMap_eq_nil_iff.2 fun x hx => Request.owed_of_asking (h x hx) i

variable {w : World κ φ} {change : StateChange}

/-- What an operation owes to a listener if it is to tell some of them of a change. -/
def debts (change : StateChange) (listeners : List Nat) (i : Nat) : List StateChange :=
  if i ∈ listeners then [change] else []

theorem debts_range' {first others i : Nat} (h : i < first + others) :
    debts change (List.range' first others) i = (if first ≤ i then some change else none).toList := by
  have hmem : i ∈ List.range' first others ↔ first ≤ i := by
    rw [List.mem_range'_1]
    exact and_iff_left h
  unfold debts
  simp only [hmem]
  split <;> rfl

/-- The next listener is called, and the operation waits for it. -/
theorem Informing.call {first others : Nat}
    (h : w.Informing m (debts change (List.range' first (others + 1))))
    (hall : m.listeners ≤ first + 1 + others) {op : Operation} {resume : Unit → Program κ φ op.Result}
    {result : op.Result}
    (hresume : ∀ m, (resume ()).Tells change result (List.range' (first + 1) others) m) :
    (⟨w.scene.ask (.notify first change), ⟨op, .notify first change, resume⟩ :: w.waiting⟩ :
      World κ φ).Informing m fun _ => [] := by
  refine ⟨h.listeners_le, List.forall_mem_cons.2 ⟨.telling hall hresume, h.informs⟩, fun i hi => ?_⟩
  have hledger := h.ledger i hi
  rw [owed_cons _ w.scene, List.nil_append, Request.owed_notify]
  rw [debts_range' (by omega)] at hledger
  by_cases hfirst : first = i
  · subst hfirst
    rw [if_pos (Nat.le_refl first)] at hledger
    rw [if_neg (Nat.lt_irrefl first)]
    exact hledger.hear
  · -- those before it have heard of the change, and those after it are still to hear of it
    have hafter : first ≤ i ↔ first < i := by omega
    simp only [hafter] at hledger
    exact hledger.ask (if_neg hfirst)

/-- **An operation that tells listeners** calls the next one, or is done. -/
theorem Informing.tell {first others : Nat}
    (h : w.Informing m (debts change (List.range' first others))) (hall : m.listeners ≤ first + others)
    {op : Operation} {p : Program κ φ op.Result} {result : op.Result}
    (hp : p.Tells change result (List.range' first others) w.machine) :
    (proceed op p w).Informing m fun _ => [] := by
  generalize hm : w.machine = machine at hp
  generalize hl : List.range' first others = listeners at hp
  induction hp with
  | done =>
    rw [hl] at h
    refine ⟨h.listeners_le, h.informs, fun i hi => ?_⟩
    have hledger := h.ledger i hi
    rwa [debts, if_neg List.not_mem_nil] at hledger
  | look _ ih =>
    subst hm
    exact ih rfl hl
  | ask hresume =>
    cases others with
    | zero => exact nomatch hl
    | succ others =>
      rw [List.range'_succ] at hl
      obtain ⟨rfl, rfl⟩ := List.cons.inj hl
      exact h.call (by omega) hresume

/-- **An operation that goes on** tells what it changes, as far as it comes. -/
theorem Informing.proceed {op : Operation} {p : Program κ φ op.Result}
    (h : w.Informing m fun _ => []) (hp : p.Informs w.machine) :
    (proceed op p w).Informing m fun _ => [] := by
  induction p generalizing w with
  | done a => exact h
  | look next ih =>
    cases hp with
    | look hp => exact ih w.machine h hp
  | change c next ih =>
    have hlisteners : m.listeners ≤ (w.scene.make c).machine.listeners :=
      Nat.le_trans h.listeners_le (c.listeners_le w.machine)
    cases hp with
    | still hc hnext =>
      exact ih (w := ⟨w.scene.make c, w.waiting⟩)
        ⟨hlisteners, h.informs, fun i hi => (h.ledger i hi).still hc⟩ hnext
    | @tell _ _ _ change result hc ht =>
      rw [List.range_eq_range'] at ht
      refine Informing.tell (w := ⟨w.scene.make c, w.waiting⟩) ⟨hlisteners, h.informs, fun i hi => ?_⟩
        (Nat.le_trans h.listeners_le (Nat.le_of_eq (Nat.zero_add _).symm)) ht
      have hmem : i ∈ List.range' 0 w.machine.listeners :=
        List.mem_range'_1.2 ⟨Nat.zero_le i, by have := h.listeners_le; omega⟩
      rw [debts, if_pos hmem]
      refine (h.ledger i hi).owe hc fun hfirst => ?_
      rw [hfirst, owed_zero, List.nil_append]
  | ask request resume ih =>
    cases hp with
    | ask hn hresume =>
      refine ⟨h.listeners_le, List.forall_mem_cons.2 ⟨.asking hn hresume, h.informs⟩, fun i hi => ?_⟩
      have hheard : Deed.heardBy? i (.asked request : Deed κ φ) = none := by
        cases request with
        | notify listener change => exact nomatch hn
        | _ => rfl
      rw [World.proceed, owed_cons _ w.scene, Request.owed_of_asking hn]
      exact (h.ledger i hi).ask hheard

/-- **Every move keeps what listeners are owed.** -/
theorem Informing.next {w' : World κ φ} {op : Operation} (h : w.Informing m fun _ => [])
    (hn : w.Next op w') : w'.Informing m fun _ => [] := by
  cases hn with
  | start => exact h.proceed (op.informs w.machine)
  | answer scene newer x older reply =>
    have hrest : ∀ y ∈ newer ++ older, y.Informs m.listeners := fun y hy =>
      h.informs y (List.mem_append.2 ((List.mem_append.1 hy).imp_right (List.mem_cons_of_mem x)))
    have howed : ∀ i, (⟨scene, newer ++ x :: older⟩ : World κ φ).owed i |>.Perm
        ((x.request.owed? i).toList ++ (⟨scene, newer ++ older⟩ : World κ φ).owed i) := fun i => by
      rw [← owed_cons scene]
      exact List.perm_middle.filterMap _
    have hledger : ∀ i < m.listeners, Ledger i scene
        ((x.request.owed? i).toList ++ (⟨scene, newer ++ older⟩ : World κ φ).owed i) := fun i hi =>
      (h.ledger i hi).perm (howed i)
    cases h.informs x (List.mem_append_right _ List.mem_cons_self) with
    | @telling op listener change resume result others hall hresume =>
      have htelling : (⟨scene, newer ++ older⟩ : World κ φ).Informing m
          (debts change (List.range' (listener + 1) others)) := by
        refine ⟨h.listeners_le, hrest, fun i hi => ?_⟩
        rw [debts_range' (Nat.lt_of_lt_of_le hi hall)]
        exact hledger i hi
      exact htelling.tell hall (hresume _)
    | asking hn hresume =>
      refine Informing.proceed (w := ⟨scene, newer ++ older⟩) ⟨h.listeners_le, hrest, fun i hi => ?_⟩
        (hresume reply _)
      have hi := hledger i hi
      rwa [Request.owed_of_asking hn] at hi

end World

/-- **In every reachable world, all listeners that there were first are owed what they have not heard of.** -/
theorem Reaches.informing {w : World κ φ} (h : Reaches m w) : w.Informing m fun _ => [] := by
  induction h with
  | start =>
    refine ⟨Nat.le_refl m.listeners, fun _ hx => absurd hx List.not_mem_nil, fun i _ => ?_⟩
    exact ⟨.nil, fun _ => ⟨rfl, Nat.zero_le 1⟩, fun _ => Scene.prompt_start m i⟩
  | next _ hn ih => exact ih.next hn

/-! ## Chains -/

namespace Chained

variable {first last : String} {changes more : List StateChange} {change : StateChange}

theorem concat (h : Chained first changes last) (hs : change.source = last) :
    Chained first (changes ++ [change]) change.target := by
  unfold Chained at h ⊢
  rw [List.map_append, List.map_append, List.map_singleton, List.map_singleton, hs, h]
  rfl

/-- What comes first in a chain is one. -/
theorem of_append (h : Chained first (changes ++ more) last) : ∃ last, Chained first changes last := by
  obtain ⟨next, rest, hnext⟩ := List.exists_cons_of_ne_nil
    (List.append_ne_nil_of_right_ne_nil (more.map (·.source)) (List.cons_ne_nil last []))
  unfold Chained at h
  rw [List.map_append, List.append_assoc, hnext, List.map_append, ← List.cons_append,
    ← List.singleton_append, ← List.append_assoc] at h
  exact ⟨next, List.append_inj_left h (by simp)⟩

end Chained

namespace Change

variable {c : Change φ} {change : StateChange}

theorem state_of_still (hc : m.stateChange? c = none) : (c.apply m).state = m.state := by
  rcases c.state_cases (m := m) with ⟨hs, -, -⟩ | ⟨name, rfl⟩ | ⟨f, i, record, rfl⟩
  · exact hs
  · exact nomatch hc
  · exact nomatch hc

theorem state_of_change (hc : m.stateChange? c = some change) :
    change.source = m.state ∧ (c.apply m).state = change.target := by
  cases c with
  | commit f id record =>
    cases hc
    exact ⟨rfl, rfl⟩
  | setState name =>
    cases hc
    exact ⟨rfl, rfl⟩
  | _ => exact nomatch hc

end Change

/-- **The changes lead from the first state to the current one.** -/
theorem Trail.changes_chained {s : Scene κ φ} (h : Trail m s) :
    Chained m.state s.changes s.machine.state := by
  induction h with
  | start => rfl
  | ask _ _ ih =>
    rw [Scene.changes_ask]
    exact ih
  | @make s own c _ _ ih =>
    have hstate : (s.make c).machine.state = (c.apply s.machine).state := rfl
    rw [Scene.changes_make, hstate]
    cases hc : s.machine.stateChange? c with
    | none =>
      rw [Change.state_of_still hc, Option.toList_none, List.append_nil]
      exact ih
    | some change =>
      obtain ⟨hsource, htarget⟩ := Change.state_of_change hc
      rw [htarget, Option.toList_some]
      exact ih.concat hsource

/-- **What a listener hears of a run.** Each change reaches it once, but for those that are still being told to
those before it. If it had heard of all changes whenever one more was made, it heard of them in order: the
changes that it heard of are a chain, and one that leads to the current state when nothing is being told. The
first listener always had. -/
structure Hears (m : Machine κ φ) (w : World κ φ) (i : Nat) : Prop where
  once : w.scene.changes.Perm (w.scene.heard i ++ w.owed i)
  once_of_quiet : w.Quiet → w.scene.changes.Perm (w.scene.heard i)
  chained : Chained m.state w.scene.changes w.machine.state
  prompt_first : i = 0 → w.scene.Prompt i
  order : w.scene.Prompt i → w.scene.changes = w.scene.heard i ++ w.owed i ∧ (w.owed i).length ≤ 1
  heard_chained : w.scene.Prompt i → ∃ last, Chained m.state (w.scene.heard i) last
  current : w.scene.Prompt i → w.Quiet → Chained m.state (w.scene.heard i) w.machine.state

/-- **What listeners hear**, in every run, also in those in which they go on with the machine themselves. -/
theorem listeners_hear {spec : Json} {inline : List (InlineHook κ)} {targetName : String}
    {idText : TransitionId → String} {initialState : Option String} {listeners : Nat}
    (hb : Machine.build spec inline targetName idText initialState listeners = .ok m) {w : World κ φ}
    (h : Reaches m w) {i : Nat} (hi : i < listeners) : Hears m w i := by
  obtain ⟨definition, state, rfl, -⟩ := Machine.build_eq_ok hb
  have hledger : Ledger i w.scene (w.owed i) := h.informing.ledger i hi
  have hchained := h.sound.trail.changes_chained
  refine ⟨hledger.once, fun hq => ?_, hchained, hledger.first, hledger.order, fun hp => ?_, fun hp hq => ?_⟩
  · have honce := hledger.once
    rwa [hq.owed_eq, List.append_nil] at honce
  · rw [(hledger.order hp).1] at hchained
    exact hchained.of_append
  · have horder := (hledger.order hp).1
    rw [hq.owed_eq, List.append_nil] at horder
    rw [← horder]
    exact hchained

namespace Switch

/-- The switch, with two listeners. -/
def watched : Machine Unit Unit := .start definition "switch" toString "off" 2

theorem build_watched : Machine.build spec [] "switch" toString none 2 = .ok watched := rfl

def setOn : StateChange := ⟨none, "off", "on"⟩

def setOff : StateChange := ⟨none, "on", "off"⟩

/-- The switch is set, and both listeners are told. -/
def told : World Unit Unit :=
  (((World.start watched).begin (.setState "on")).reply answers).reply answers

theorem reaches_told : Reaches watched told :=
  ((Reaches.start.begin (.setState "on")).next (World.next_reply rfl answers)).next
    (World.next_reply rfl answers)

/-- When the first listener is told that the switch is set, it sets it back. -/
def flipped : World Unit Unit :=
  ((((((World.start watched).begin (.setState "on")).begin (.setState "off")).reply answers).reply
    answers).reply answers).reply answers

theorem reaches_flipped : Reaches watched flipped :=
  (((((Reaches.start.begin (.setState "on")).begin (.setState "off")).next
    (World.next_reply rfl answers)).next (World.next_reply rfl answers)).next
      (World.next_reply rfl answers)).next (World.next_reply rfl answers)

end Switch

/-- Of a switch that is set once, the second listener hears once. -/
theorem listeners_hear_told :
    1 < 2 ∧ Switch.told.Quiet ∧ Switch.told.scene.heard 1 = [Switch.setOn] ∧
      Chained "off" (Switch.told.scene.heard 1) "on" := by
  have hquiet : Switch.told.Quiet := fun _ hx => absurd hx List.not_mem_nil
  have hears := listeners_hear Switch.build_watched Switch.reaches_told (i := 1) (by decide)
  have hset : ((World.start Switch.watched).scene.make (.setState "on")).Prompt 1 :=
    (Scene.prompt_concat (s := (World.start Switch.watched).scene) rfl).2
      ⟨Scene.prompt_start Switch.watched 1, fun _ => rfl⟩
  have hprompt : Switch.told.scene.Prompt 1 := (Scene.prompt_ask ..).2 ((Scene.prompt_ask ..).2 hset)
  exact ⟨by decide, hquiet, rfl, hears.current hprompt hquiet⟩

/-- **The second listener hears of changes in the wrong order** if the first one sets the switch back while it
is told that it was set: what it hears is no chain, and leads to a state in which the switch is not. -/
theorem listeners_disordered :
    Reaches Switch.watched Switch.flipped ∧ Switch.flipped.Quiet ∧ 1 < Switch.watched.listeners ∧
      Switch.flipped.scene.changes = [Switch.setOn, Switch.setOff] ∧
      Switch.flipped.scene.heard 1 = [Switch.setOff, Switch.setOn] ∧
      (¬ ∃ last, Chained Switch.watched.state (Switch.flipped.scene.heard 1) last) ∧
      (Switch.flipped.scene.heard 1).getLast?.map (·.target) ≠ some Switch.flipped.machine.state := by
  refine ⟨Switch.reaches_flipped, fun _ hx => absurd hx List.not_mem_nil, by decide, rfl, rfl, ?_, by decide⟩
  rintro ⟨last, h⟩
  have hsource : "on" = "off" := (List.cons.inj h).1
  exact absurd hsource (by decide)

end StateEngine
