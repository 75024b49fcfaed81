import StateEngine.Machine.Change

/-!
# What a change leaves alone

* `Machine.transition_note`, `Machine.transition_abortAll`, `Machine.transition_abortActive`: the books
  after a mark and after an abort.
* `Machine.dropFuture_cases`, `Machine.fail_eq`: giving a future up, and a rejection, step by step.
* `Machine.future_set`, `Machine.future_append`: the futures after one was replaced or added.
* `Change.definition_apply`: the definition stays the same.
* `Change.marked`: transitions are never forgotten, and all that changes of one is its book.
* `Change.grows`: each keeps its record, and one that was aborted stays aborted.
-/

namespace StateEngine

variable {κ φ : Type} {m : Machine κ φ}

/-- No mark takes an abort back. -/
theorem Transition.isAborted_mark {t : Transition} (mark : Mark) (h : t.isAborted = true) :
    (t.mark mark).isAborted = true := by
  simp only [isAborted, decide_eq_true_eq] at h
  cases mark with
  | settle phase id outcome =>
    cases outcome <;> simp [isAborted, Transition.mark, Progress.mark, Progress.settle, h]
  | _ =>
    simp [isAborted, Transition.mark, Progress.mark, Progress.begin, Progress.resolve,
      Progress.reject, Progress.abort, h]

theorem Transition.isAborted_mark_abort (t : Transition) : (t.mark .abort).isAborted = true := by
  simp [isAborted, Transition.mark, Progress.mark, Progress.abort]

namespace Machine

/-- The record of a transition. -/
def record? (m : Machine κ φ) (id : TransitionId) : Option Record :=
  (m.transition? id).map (·.record)

theorem record_eq_some {id : TransitionId} {r : Record} :
    m.record? id = some r ↔ ∃ t, m.transition? id = some t ∧ t.record = r := by
  simp [record?, Option.map_eq_some_iff]

theorem transition_lt {id : TransitionId} {t : Transition} (h : m.transition? id = some t) :
    id < m.transitions.length := by
  unfold transition? at h
  exact (List.getElem?_eq_some_iff.1 h).1

theorem transition_of_lt {id : TransitionId} (h : id < m.transitions.length) :
    ∃ t, m.transition? id = some t := ⟨_, List.getElem?_eq_getElem h⟩

/-! ## Books -/

/-- A mark changes one book. -/
theorem transition_note (id : TransitionId) (mark : Mark) (i : TransitionId) :
    (m.note id mark).transition? i =
      (m.transition? i).map fun t => if i = id then t.mark mark else t := by
  unfold note transition?
  simp only [List.getElem?_modify]
  cases m.transitions[i]? with
  | none => rfl
  | some t => by_cases h : id = i <;> simp [h, eq_comm]

theorem length_note (id : TransitionId) (mark : Mark) :
    (m.note id mark).transitions.length = m.transitions.length := by
  simp [note]

/-- Some transitions with an abort in the books of those listed. -/
def abortIn (ts : List Transition) (ids : List TransitionId) : List Transition :=
  ids.foldl (fun ts id => ts.modify id (·.mark .abort)) ts

theorem foldl_abort (ids : List TransitionId) :
    ∀ m : Machine κ φ, ids.foldl abort m = { m with transitions := abortIn m.transitions ids } := by
  induction ids with
  | nil => intro m; rfl
  | cons id ids ih => intro m; rw [List.foldl_cons, ih]; rfl

theorem abortAll_eq :
    m.abortAll = { m with active := [], transitions := abortIn m.transitions m.active } := by
  unfold abortAll; rw [foldl_abort]

theorem length_abortIn (ts : List Transition) (ids : List TransitionId) :
    (abortIn ts ids).length = ts.length := by
  induction ids generalizing ts with
  | nil => rfl
  | cons id ids ih =>
    have h := ih (ts.modify id (·.mark .abort))
    rw [List.length_modify] at h
    exact h

theorem getElem_abortIn (ids : List TransitionId) (i : TransitionId) :
    ∀ ts : List Transition,
      (abortIn ts ids)[i]? = (ts[i]?).map fun t => if i ∈ ids then t.mark .abort else t := by
  induction ids with
  | nil => intro ts; simp [abortIn]
  | cons id ids ih =>
    intro ts
    have h := ih (ts.modify id (·.mark .abort))
    unfold abortIn at h ⊢
    rw [List.foldl_cons, h, List.getElem?_modify]
    cases ts[i]? with
    | none => rfl
    | some t =>
      -- aborting twice is aborting once
      have twice : (t.mark .abort).mark .abort = t.mark .abort := rfl
      by_cases hi : id = i
      · subst hi; by_cases hm : id ∈ ids <;> simp [hm, twice]
      · have : i ≠ id := fun h => hi h.symm
        simp [hi, this]

theorem transition_abortAll (i : TransitionId) :
    m.abortAll.transition? i =
      (m.transition? i).map fun t => if i ∈ m.active then t.mark .abort else t := by
  rw [abortAll_eq]; exact getElem_abortIn m.active i m.transitions

/-! ## The ways out of the active list -/

theorem isActive_iff {id : TransitionId} : m.isActive id = true ↔ id ∈ m.active := by
  simp [isActive]

theorem abortActive_of_mem {id : TransitionId} (h : id ∈ m.active) :
    m.abortActive id = (m.deactivate id).note id .abort := by
  unfold abortActive; rw [if_pos (isActive_iff.2 h)]; rfl

theorem abortActive_of_not_mem {id : TransitionId} (h : id ∉ m.active) : m.abortActive id = m := by
  unfold abortActive; rw [if_neg (fun h' => h (isActive_iff.1 h'))]

theorem active_abortActive (id : TransitionId) :
    (m.abortActive id).active = m.active.filter (· != id) := by
  by_cases h : id ∈ m.active
  · rw [abortActive_of_mem h]; rfl
  · rw [abortActive_of_not_mem h, List.filter_eq_self.2]
    intro i hi
    simpa using fun e : i = id => h (e ▸ hi)

theorem transition_abortActive (id i : TransitionId) :
    (m.abortActive id).transition? i =
      (m.transition? i).map fun t => if i = id ∧ id ∈ m.active then t.mark .abort else t := by
  by_cases h : id ∈ m.active
  · rw [abortActive_of_mem h, transition_note]; simp only [h, and_true]; rfl
  · rw [abortActive_of_not_mem h]; simp [h]

/-- Whether a machine is where it was, by the way that it came, and no transition was added. -/
structure Keeps (m m' : Machine κ φ) : Prop where
  definition_eq : m'.definition = m.definition
  targetName_eq : m'.targetName = m.targetName
  idText_eq : m'.idText = m.idText
  state_eq : m'.state = m.state
  history_eq : m'.history = m.history
  length_eq : m'.transitions.length = m.transitions.length

theorem abortActive_keeps (id : TransitionId) : m.Keeps (m.abortActive id) := by
  by_cases h : id ∈ m.active
  · rw [abortActive_of_mem h]
    exact ⟨rfl, rfl, rfl, rfl, rfl, length_note id .abort⟩
  · rw [abortActive_of_not_mem h]
    exact ⟨rfl, rfl, rfl, rfl, rfl, rfl⟩

theorem futures_abortActive (id : TransitionId) : (m.abortActive id).futures = m.futures := by
  by_cases h : id ∈ m.active
  · rw [abortActive_of_mem h]
    rfl
  · rw [abortActive_of_not_mem h]

theorem abortAll_keeps : m.Keeps m.abortAll := by
  rw [abortAll_eq]
  exact ⟨rfl, rfl, rfl, rfl, rfl, length_abortIn ..⟩

/-- Giving a future up does nothing, or closes it, or also aborts its transition. -/
theorem dropFuture_cases (f : FutureId) :
    m.dropFuture f = m ∨
      ∃ x, m.future? f = some x ∧ x.stage.isBusy = false ∧
        ((x.purpose.isDispatch = false ∧ m.dropFuture f = m.closeFuture f) ∨
          (x.purpose.isDispatch = true ∧
            m.dropFuture f = (m.closeFuture f).abortActive x.transition)) := by
  unfold dropFuture
  cases hf : m.future? f with
  | none => exact .inl rfl
  | some x =>
    cases hb : x.stage.isBusy with
    | true => left; simp [hb]
    | false =>
      right
      refine ⟨x, rfl, hb, ?_⟩
      cases hd : x.purpose.isDispatch with
      | false => left; simp [hb, hd]
      | true => right; simp [hb, hd]

/-- Giving a future up does not move the machine. -/
theorem dropFuture_keeps (f : FutureId) : m.Keeps (m.dropFuture f) := by
  rcases m.dropFuture_cases f with h | ⟨x, -, -, ⟨-, h⟩ | ⟨-, h⟩⟩
  · rw [h]
    exact ⟨rfl, rfl, rfl, rfl, rfl, rfl⟩
  · rw [h]
    exact ⟨rfl, rfl, rfl, rfl, rfl, rfl⟩
  · have habort := (m.closeFuture f).abortActive_keeps x.transition
    rw [h]
    exact ⟨habort.definition_eq, habort.targetName_eq, habort.idText_eq, habort.state_eq, habort.history_eq,
      habort.length_eq⟩

theorem dropFuture_of_busy {f : FutureId} {x : Future φ} (hf : m.future? f = some x)
    (hb : x.stage.isBusy = true) : m.dropFuture f = m := by
  simp [dropFuture, hf, hb]

theorem dropFuture_of_none {f : FutureId} (hf : m.future? f = none) : m.dropFuture f = m := by
  simp [dropFuture, hf]

/-- A rejection empties the active list, and aborts all that were on it but the transition itself. -/
theorem fail_eq (f : FutureId) (id : TransitionId) (rejection : Option Rejection) :
    m.fail f id rejection =
      { m with
        active := []
        transitions := abortIn m.transitions (m.active.filter (· != id))
        futures := (m.fail f id rejection).futures } := by
  cases rejection <;> simp only [fail, abortAll_eq] <;> rfl

/-- A rejection does not move the machine. -/
theorem fail_keeps (f : FutureId) (id : TransitionId) (rejection : Option Rejection) :
    m.Keeps (m.fail f id rejection) := by
  rw [fail_eq]
  exact ⟨rfl, rfl, rfl, rfl, rfl, length_abortIn ..⟩

/-! ## Futures -/

theorem future_eq_some {f : FutureId} {x : Future φ} :
    m.future? f = some x ↔ m.futures[f]? = some (some x) := by
  unfold future?
  cases m.futures[f]? with
  | none => simp
  | some slot => simp

theorem lt_of_future {f : FutureId} {x : Future φ} (h : m.future? f = some x) :
    f < m.futures.length := (List.getElem?_eq_some_iff.1 (future_eq_some.1 h)).1

variable {m' : Machine κ φ} {f g : FutureId}

theorem future_of_futures (h : m'.futures = m.futures) : m'.future? g = m.future? g := by
  unfold future?
  rw [h]

theorem future_set {slot : Option (Future φ)} (hf : f < m.futures.length)
    (h : m'.futures = m.futures.set f slot) :
    m'.future? g = if g = f then slot else m.future? g := by
  unfold future?
  rw [h]
  by_cases hg : g = f
  · subst hg
    rw [List.getElem?_set_self hf, if_pos rfl]
    rfl
  · rw [List.getElem?_set_ne fun e => hg e.symm, if_neg hg]

theorem future_close (h : m'.futures = m.futures.set f none) :
    m'.future? g = if g = f then none else m.future? g := by
  by_cases hf : f < m.futures.length
  · exact future_set hf h
  · rw [List.set_eq_of_length_le (Nat.le_of_not_lt hf)] at h
    rw [future_of_futures h]
    by_cases hg : g = f
    · subst hg
      rw [if_pos rfl, future?, List.getElem?_eq_none (Nat.le_of_not_lt hf)]
      rfl
    · rw [if_neg hg]

theorem future_append {x : Future φ} (h : m'.futures = m.futures ++ [some x]) :
    m'.future? g = if g = m.nextFuture then some x else m.future? g := by
  unfold future? nextFuture
  rw [h]
  rcases Nat.lt_trichotomy g m.futures.length with hg | rfl | hg
  · rw [List.getElem?_append_left hg, if_neg (Nat.ne_of_lt hg)]
  · rw [List.getElem?_concat_length, if_pos rfl]
    rfl
  · have hnew : (m.futures ++ [some x])[g]? = none := by
      rw [List.getElem?_eq_none_iff, List.length_append, List.length_singleton]
      omega
    rw [hnew, List.getElem?_eq_none (Nat.le_of_lt hg), if_neg (Nat.ne_of_gt hg)]

theorem futures_setStage {x : Future φ} (h : m.future? f = some x) (stage : Stage φ) :
    (m.setStage f stage).futures = m.futures.set f (some { x with stage }) := by
  refine List.ext_getElem? fun g => ?_
  unfold setStage
  simp only
  by_cases hg : f = g
  · subst hg
    rw [List.getElem?_modify_eq, List.getElem?_set_self (lt_of_future h), future_eq_some.1 h]
    rfl
  · rw [List.getElem?_modify_ne _ _ hg, List.getElem?_set_ne hg]

theorem future_setStage {x : Future φ} (h : m.future? f = some x) (stage : Stage φ) :
    (m.setStage f stage).future? f = some { x with stage } := by
  rw [future_set (lt_of_future h) (futures_setStage h stage), if_pos rfl]

/-- A dispatch that rejects is closed, or it stays to dispatch the error event. -/
theorem futures_fail (f : FutureId) (id : TransitionId) (rejection : Option Rejection) :
    (m.fail f id rejection).futures = match rejection with
      | none => m.futures.set f none
      | some r => (m.setStage f (.failed r)).futures := by
  cases rejection <;> simp only [fail, abortAll_eq] <;> rfl

end Machine

/-! ## Changes -/

/-- A transition with more marks in its book. -/
def Transition.markAll (t : Transition) (marks : List Mark) : Transition := marks.foldl mark t

theorem Transition.record_markAll (t : Transition) (marks : List Mark) :
    (t.markAll marks).record = t.record := by
  induction marks generalizing t with
  | nil => rfl
  | cons mark rest ih => exact ih (t.mark mark)

theorem Transition.args_markAll (t : Transition) (marks : List Mark) :
    (t.markAll marks).args = t.args := by
  induction marks generalizing t with
  | nil => rfl
  | cons mark rest ih => exact ih (t.mark mark)

theorem Transition.isAborted_markAll {t : Transition} (marks : List Mark) (h : t.isAborted = true) :
    (t.markAll marks).isAborted = true := by
  induction marks generalizing t with
  | nil => exact h
  | cons mark rest ih => exact ih (isAborted_mark mark h)

/-- Whether every transition is still there, with more marks in its book. -/
def Machine.Marked (m m' : Machine κ φ) : Prop :=
  ∀ i t, m.transition? i = some t → ∃ marks, m'.transition? i = some (t.markAll marks)

theorem Machine.Marked.of_eq {m m' : Machine κ φ} (h : m'.transitions = m.transitions) :
    m.Marked m' := by
  intro i t ht
  refine ⟨[], ?_⟩
  unfold Machine.transition? at ht ⊢
  rw [h]; exact ht

theorem Machine.Marked.of_mark {m m' : Machine κ φ} (mark : Mark) (p : TransitionId → Prop)
    [DecidablePred p]
    (h : ∀ i, m'.transition? i = (m.transition? i).map fun t => if p i then t.mark mark else t) :
    m.Marked m' := by
  intro i t ht
  rw [h i, ht]
  by_cases hp : p i
  · exact ⟨[mark], by rw [Option.map_some, if_pos hp]; rfl⟩
  · exact ⟨[], by rw [Option.map_some, if_neg hp]; rfl⟩

theorem Machine.Marked.of_append {m m' : Machine κ φ} (t : Transition)
    (h : m'.transitions = m.transitions ++ [t]) : m.Marked m' := by
  intro i u hu
  refine ⟨[], ?_⟩
  have hi := m.transition_lt hu
  unfold Machine.transition? at hu ⊢
  rw [h, List.getElem?_append_left hi]; exact hu

theorem Machine.Marked.trans {m₁ m₂ m₃ : Machine κ φ} (h₁ : m₁.Marked m₂) (h₂ : m₂.Marked m₃) :
    m₁.Marked m₃ := by
  intro i t ht
  obtain ⟨marks, hm⟩ := h₁ i t ht
  obtain ⟨more, hm'⟩ := h₂ i _ hm
  exact ⟨marks ++ more, by rw [hm', Transition.markAll, Transition.markAll, Transition.markAll, List.foldl_append]⟩

/-- Whether every transition is still there, with its record, and aborted if it was. -/
def Machine.Grows (m m' : Machine κ φ) : Prop :=
  ∀ i t, m.transition? i = some t →
    ∃ t', m'.transition? i = some t' ∧ t'.record = t.record ∧ (t.isAborted = true → t'.isAborted = true)

theorem Machine.Grows.of_eq {m m' : Machine κ φ} (h : m'.transitions = m.transitions) :
    m.Grows m' := by
  intro i t ht
  refine ⟨t, ?_, rfl, id⟩
  unfold Machine.transition? at ht ⊢
  rw [h]; exact ht

/-- Marks keep records, and take no abort back. -/
theorem Machine.Marked.grows {m m' : Machine κ φ} (h : m.Marked m') : m.Grows m' := by
  intro i t ht
  obtain ⟨marks, hm⟩ := h i t ht
  exact ⟨_, hm, t.record_markAll marks, Transition.isAborted_markAll marks⟩

theorem Machine.Grows.trans {m₁ m₂ m₃ : Machine κ φ} (h₁ : m₁.Grows m₂) (h₂ : m₂.Grows m₃) :
    m₁.Grows m₃ := by
  intro i t ht
  obtain ⟨t₂, ht₂, hr₂, ha₂⟩ := h₁ i t ht
  obtain ⟨t₃, ht₃, hr₃, ha₃⟩ := h₂ i t₂ ht₂
  exact ⟨t₃, ht₃, hr₃.trans hr₂, fun h => ha₃ (ha₂ h)⟩

theorem Machine.Grows.length_le {m m' : Machine κ φ} (h : m.Grows m') :
    m.transitions.length ≤ m'.transitions.length := by
  refine Nat.le_of_not_lt fun hlt => ?_
  obtain ⟨t, ht⟩ := m.transition_of_lt hlt
  obtain ⟨t', ht', -⟩ := h _ _ ht
  exact absurd (m'.transition_lt ht') (Nat.lt_irrefl _)

theorem Machine.Grows.record {m m' : Machine κ φ} (h : m.Grows m') {id : TransitionId} {r : Record}
    (hr : m.record? id = some r) : m'.record? id = some r := by
  obtain ⟨t, ht, rfl⟩ := record_eq_some.1 hr
  obtain ⟨t', ht', hr', -⟩ := h id t ht
  exact record_eq_some.2 ⟨t', ht', hr'⟩

/-- A transition that is not new has the record that it had. -/
theorem Machine.Grows.record_of_lt {m m' : Machine κ φ} (h : m.Grows m') {id : TransitionId}
    (hlt : id < m.transitions.length) {r : Record} (hr : m'.record? id = some r) :
    m.record? id = some r := by
  obtain ⟨t, ht⟩ := m.transition_of_lt hlt
  have hold : m.record? id = some t.record := record_eq_some.2 ⟨t, ht, rfl⟩
  rw [hold, ← Option.some.inj ((h.record hold).symm.trans hr)]

theorem Machine.Grows.isAborted {m m' : Machine κ φ} (h : m.Grows m') {id : TransitionId}
    (ha : m.isAborted id = true) : m'.isAborted id = true := by
  unfold Machine.isAborted at ha ⊢
  obtain ⟨t, ht, hta⟩ := Option.any_eq_true .. |>.1 ha
  obtain ⟨t', ht', -, hk⟩ := h id t ht
  rw [ht']; exact hk hta

namespace Change

/-- No change touches the definition, the name of the target or the texts of identities. -/
theorem fixed_apply (c : Change φ) :
    (c.apply m).definition = m.definition ∧ (c.apply m).targetName = m.targetName ∧ (c.apply m).idText = m.idText := by
  have hkeeps : ∀ {m' : Machine κ φ}, m.Keeps m' →
      m'.definition = m.definition ∧ m'.targetName = m.targetName ∧ m'.idText = m.idText :=
    fun h => ⟨h.definition_eq, h.targetName_eq, h.idText_eq⟩
  cases c with
  | abortActive id => exact hkeeps (Machine.abortActive_keeps id)
  | abortAll => exact hkeeps Machine.abortAll_keeps
  | fail f id rejection => exact hkeeps (Machine.fail_keeps f id rejection)
  | dropFuture f => exact hkeeps (Machine.dropFuture_keeps f)
  | _ => exact ⟨rfl, rfl, rfl⟩

theorem definition_apply (c : Change φ) : (c.apply m).definition = m.definition := c.fixed_apply.1

theorem targetName_apply (c : Change φ) : (c.apply m).targetName = m.targetName := c.fixed_apply.2.1

theorem idText_apply (c : Change φ) : (c.apply m).idText = m.idText := c.fixed_apply.2.2

/-- No future is forgotten either, its slot stays. -/
theorem length_futures_le (c : Change φ) : m.futures.length ≤ (c.apply m).futures.length := by
  cases c with
  | launch record args => exact (List.length_append).symm ▸ Nat.le_add_right _ _
  | addFuture id purpose => exact (List.length_append).symm ▸ Nat.le_add_right _ _
  | relaunch f rejection record args => exact Nat.le_of_eq (List.length_set).symm
  | setStage f stage => exact Nat.le_of_eq (List.length_modify _ _ _).symm
  | closeFuture f => exact Nat.le_of_eq (List.length_set).symm
  | release f id => exact Nat.le_of_eq (List.length_set).symm
  | commit f id record => exact Nat.le_of_eq (List.length_set).symm
  | fail f id rejection =>
    rw [apply, Machine.futures_fail]
    cases rejection with
    | none => exact Nat.le_of_eq (List.length_set).symm
    | some r => exact Nat.le_of_eq (List.length_modify _ _ _).symm
  | dropFuture f =>
    rcases m.dropFuture_cases f with h | ⟨x, -, -, ⟨-, h⟩ | ⟨-, h⟩⟩
    · exact Nat.le_of_eq (by rw [apply, h])
    · rw [apply, h]
      exact Nat.le_of_eq (List.length_set).symm
    · rw [apply, h, Machine.futures_abortActive]
      exact Nat.le_of_eq (List.length_set).symm
  | abortActive id => exact Nat.le_of_eq (by rw [apply, Machine.futures_abortActive])
  | abortAll => exact Nat.le_of_eq (by rw [apply, Machine.abortAll_eq])
  | _ => exact Nat.le_refl _

/-- **A change only writes marks** into the books of transitions that are there already. -/
theorem marked (c : Change φ) : m.Marked (c.apply m) := by
  cases c with
  | note id mark => exact .of_mark mark (· = id) (Machine.transition_note id mark)
  | add record args => exact .of_append _ rfl
  | launch record args => exact .of_append _ rfl
  | relaunch f rejection record args => exact .of_append _ rfl
  | abortActive id =>
    exact .of_mark .abort (fun i => i = id ∧ id ∈ m.active) (Machine.transition_abortActive id)
  | abortAll => exact .of_mark .abort (· ∈ m.active) Machine.transition_abortAll
  | fail f id rejection =>
    refine .of_mark .abort (· ∈ m.active.filter (· != id)) fun i => ?_
    rw [apply, Machine.fail_eq]
    exact Machine.getElem_abortIn _ i m.transitions
  | dropFuture f =>
    rcases m.dropFuture_cases f with h | ⟨x, -, -, ⟨-, h⟩ | ⟨-, h⟩⟩
    · rw [apply, h]; exact .of_eq rfl
    · rw [apply, h]; exact .of_eq rfl
    · rw [apply, h]
      exact .of_mark .abort (fun i => i = x.transition ∧ x.transition ∈ m.active)
        (Machine.transition_abortActive (m := m.closeFuture f) x.transition)
  | _ => exact .of_eq rfl

/-- **No change forgets a transition.** -/
theorem grows (c : Change φ) : m.Grows (c.apply m) := (marked c).grows

end Change

end StateEngine
