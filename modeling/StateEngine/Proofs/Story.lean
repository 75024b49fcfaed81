import StateEngine.Proofs.Abort

/-!
# The story of a future

A future that dispatches a transition may find that it rejects. It may then dispatch the error event,
once, and that may be refused, or started. Nothing else can ever happen between a future and a rejection.

* `Turn`: what a deed makes of a future, and `Allowed.turn`: every deed makes one of these things of it.
* `Story`: what the rejections and the error dispatch of a future have come to, and `Trail.story`:
  **every future has such a story** at every point of every run.
* `Allowed.inactive`, `Trail.uncommitted`: a transition that has left the active list never joins it
  again, and is never committed.
-/

namespace StateEngine

variable {κ φ : Type} {m : Machine κ φ} {own : Option FutureId} {c : Change φ} {f : FutureId}

/-! ## What a deed makes of a future -/

/-- Whether a change is the rejection of a future, its error dispatch, or its end without either. -/
def Change.concerns (f : FutureId) : Change φ → Bool
  | .fail g _ _ => g == f
  | .relaunch g _ _ _ => g == f
  | .closeFuture g => g == f
  | _ => false

/-- **What a deed makes of a future.** -/
inductive Turn (m : Machine κ φ) (own : Option FutureId) (c : Change φ) (f : FutureId)
    (x : Future φ) : Option (Future φ) → Prop where
  | stays : c.concerns f = false → Turn m own c f x (some x)
  | moves (stage : Stage φ) : c.concerns f = false → own = some f → (∀ r, x.stage ≠ .failed r) →
      (∀ r, stage ≠ .failed r) → Turn m own c f x (some { x with stage })
  /-- Its transition settles, or it is given up. -/
  | ends : c.concerns f = false → (∀ r, x.stage ≠ .failed r) → Turn m own c f x none
  | finishes {id : TransitionId} {purpose : Purpose} : x = ⟨id, purpose, .busy⟩ →
      purpose.isDispatch = false → c = .closeFuture f → Turn m own c f x none
  | rejects {id : TransitionId} {purpose : Purpose} {r : Rejection} : x = ⟨id, purpose, .busy⟩ →
      purpose.isDispatch = true → m.Settled id (.error r) → c = .fail f id none → Turn m own c f x none
  | reports {id : TransitionId} {r : Rejection} : own = some f → x = ⟨id, .dispatch, .busy⟩ →
      m.Settled id (.error r) → c = .fail f id (some r) →
      Turn m own c f x (some ⟨id, .dispatch, .failed r⟩)
  | refuses {id : TransitionId} {r : Rejection} : x = ⟨id, .dispatch, .failed r⟩ →
      c = .closeFuture f → Turn m own c f x none
  | recovers {id : TransitionId} {r : Rejection} {record : Record} {args : List Json} : own = some f →
      x = ⟨id, .dispatch, .failed r⟩ → c = .relaunch f r record args →
      Turn m own c f x (some ⟨m.nextTransition, .recovery r, .busy⟩)

/-- A deed that leaves a future alone. -/
theorem Turn.of_eq {x : Future φ} (h : (c.apply m).future? f = m.future? f) (hx : m.future? f = some x)
    (hc : c.concerns f = false) : Turn m own c f x ((c.apply m).future? f) := by
  rw [h, hx]
  exact .stays hc

/-- A deed that only does something to another future. -/
theorem Machine.future_set_ne {m' : Machine κ φ} {g : FutureId} {slot : Option (Future φ)}
    (h : m'.futures = m.futures.set g slot) (hg : f ≠ g) : m'.future? f = m.future? f := by
  unfold future?
  rw [h, List.getElem?_set_ne fun e => hg e.symm]

theorem Machine.Performs.eq {id : TransitionId} {purpose : Purpose} {x : Future φ}
    (h : m.Performs f id purpose) (hx : m.future? f = some x) : x = ⟨id, purpose, .busy⟩ :=
  Option.some.inj (hx.symm.trans h)

theorem Machine.Performs.not_failed {id : TransitionId} {purpose : Purpose} {x : Future φ}
    (h : m.Performs f id purpose) (hx : m.future? f = some x) (r : Rejection) : x.stage ≠ .failed r := by
  rw [h.eq hx]
  exact fun e => nomatch e

theorem Future.not_failed_of_idle {x : Future φ} (h : x.stage.isBusy = false) (r : Rejection) :
    x.stage ≠ .failed r := by
  intro e
  rw [e] at h
  exact nomatch h

/-- A deed that replaces one future: it is this one, or this one is left alone. -/
theorem Turn.of_set {x y : Future φ} {g : FutureId} {slot : Option (Future φ)} (hy : m.future? g = some y)
    (h : (c.apply m).futures = m.futures.set g slot) (hx : m.future? f = some x)
    (hother : f ≠ g → c.concerns f = false) (hself : f = g → x = y → Turn m own c f x slot) :
    Turn m own c f x ((c.apply m).future? f) := by
  by_cases hg : f = g
  · have hturn := hself hg (Option.some.inj (hx.symm.trans (hg ▸ hy)))
    rwa [Machine.future_set (Machine.lt_of_future hy) h, if_pos hg]
  · exact .of_eq (Machine.future_set_ne h hg) hx (hother hg)

/-- **Every deed makes one of these things of a future.** -/
theorem Allowed.turn (h : Allowed m own c) {x : Future φ} (hx : m.future? f = some x) :
    Turn m own c f x ((c.apply m).future? f) := by
  -- a future that was there is not a new one
  have hnew : ∀ {m' : Machine κ φ} {y : Future φ}, m'.futures = m.futures ++ [some y] →
      m'.future? f = m.future? f := fun hf => by
    rw [Machine.future_append hf, if_neg (show f ≠ m.nextFuture from
      Nat.ne_of_lt (Machine.lt_of_future hx))]
  have hother : ∀ {g : FutureId}, f ≠ g → (g == f) = false := fun hg =>
    beq_false_of_ne fun e => hg e.symm
  cases h with
  | launch args _ _ => exact .of_eq (hnew rfl) hx rfl
  | addFuture id _ => exact .of_eq (hnew rfl) hx rfl
  | relaunch args hf _ _ =>
    refine .of_set hf rfl hx hother ?_
    rintro rfl rfl
    exact .recovers rfl rfl rfl
  | take hf hb =>
    refine .of_set hf (Machine.futures_setStage hf _) hx (fun _ => rfl) ?_
    rintro rfl rfl
    refine .moves .busy rfl rfl (Future.not_failed_of_idle hb) ?_
    rintro r ⟨⟩
  | rest phase roster hp =>
    refine .of_set hp (Machine.futures_setStage hp _) hx (fun _ => rfl) ?_
    rintro rfl rfl
    refine .moves (.waiting phase roster) rfl rfl (hp.not_failed hx) ?_
    rintro r ⟨⟩
  | finish hp hd =>
    refine .of_set hp rfl hx hother ?_
    rintro rfl rfl
    exact .finishes rfl hd rfl
  | refuse hf =>
    refine .of_set hf rfl hx hother ?_
    rintro rfl rfl
    exact .refuses rfl rfl
  | release hp _ _ _ =>
    refine .of_set hp rfl hx (fun _ => rfl) ?_
    rintro rfl rfl
    exact .ends rfl (hp.not_failed hx)
  | commit hp _ _ _ _ _ =>
    refine .of_set hp rfl hx (fun _ => rfl) ?_
    rintro rfl rfl
    exact .ends rfl (hp.not_failed hx)
  | fail hp hd hk _ _ =>
    refine .of_set hp (Machine.futures_fail _ _ none) hx hother ?_
    rintro rfl rfl
    exact .rejects rfl hd hk rfl
  | @failDispatch g id record r hp hk _ _ =>
    have hset := (Machine.futures_fail g id (some r)).trans (Machine.futures_setStage hp (.failed r))
    refine .of_set hp hset hx hother ?_
    rintro rfl rfl
    exact .reports rfl rfl hk rfl
  | drop g =>
    rcases m.dropFuture_cases g with hd | ⟨y, hy, hb, hd⟩
    · exact .of_eq (by rw [Change.apply, hd]) hx rfl
    · -- one that is given up was not being polled
      have hset : (m.dropFuture g).futures = m.futures.set g none := by
        rcases hd with ⟨-, hd⟩ | ⟨-, hd⟩
        · rw [hd]; rfl
        · rw [hd, Machine.futures_abortActive]; rfl
      refine .of_set hy hset hx (fun _ => rfl) ?_
      rintro rfl rfl
      exact .ends rfl (Future.not_failed_of_idle hb)
  | abortActive id =>
    exact .of_eq (Machine.future_of_futures (Machine.futures_abortActive id)) hx rfl
  | abortAll =>
    refine .of_eq (Machine.future_of_futures ?_) hx rfl
    rw [Change.apply, Machine.abortAll_eq]
  | _ => exact .of_eq rfl hx rfl

/-- A future that is not there is not concerned. -/
theorem Allowed.not_concerns (h : Allowed m own c) (hf : m.future? f = none) :
    c.concerns f = false := by
  have hne : ∀ {g : FutureId} {x : Future φ}, m.future? g = some x → (g == f) = false := by
    refine fun hx => beq_false_of_ne ?_
    rintro rfl
    exact nomatch hf.symm.trans hx
  cases h with
  | relaunch _ hf _ _ => exact hne hf
  | finish hp _ => exact hne hp
  | refuse hf => exact hne hf
  | fail hp _ _ _ _ => exact hne hp
  | failDispatch hp _ _ _ => exact hne hp
  | _ => rfl

/-- **A future that is not there stays away**, unless it is a new one. -/
theorem Allowed.turn_none (h : Allowed m own c) (hf : m.future? f = none) :
    (c.apply m).future? f = none ∨
      (m.futures.length ≤ f ∧ ∃ id purpose, (c.apply m).future? f = some ⟨id, purpose, .unpolled⟩ ∧
        (∀ r, purpose ≠ .recovery r) ∧
          ((∃ record args, c = .launch record args ∧ purpose = .dispatch ∧ id = m.nextTransition ∧
            f = m.nextFuture) ∨ c = .addFuture id purpose)) := by
  have hkeep : ∀ {m' : Machine κ φ}, m'.futures = m.futures → m'.future? f = none :=
    fun hfutures => (Machine.future_of_futures hfutures).trans hf
  have hset : ∀ {m' : Machine κ φ} {g : FutureId} {y : Future φ} {slot : Option (Future φ)},
      m.future? g = some y → m'.futures = m.futures.set g slot → m'.future? f = none := by
    intro m' g y slot hy hfutures
    refine (Machine.future_set_ne hfutures ?_).trans hf
    rintro rfl
    exact nomatch hf.symm.trans hy
  cases h with
  | @launch record args _ _ =>
    have hnew : (m.launch record args).future? f = _ := Machine.future_append rfl
    split at hnew
    · rename_i hnext
      exact .inr ⟨Nat.le_of_eq hnext.symm, _, _, hnew, nofun, .inl ⟨_, _, rfl, rfl, rfl, hnext⟩⟩
    · exact .inl (hnew.trans hf)
  | @addFuture id purpose hp =>
    have hnew : (m.addFuture id purpose).future? f = _ := Machine.future_append rfl
    split at hnew
    · rename_i hnext
      refine .inr ⟨Nat.le_of_eq hnext.symm, _, _, hnew, ?_, .inr rfl⟩
      rintro r rfl
      exact nomatch hp
    · exact .inl (hnew.trans hf)
  | relaunch _ hg _ _ => exact .inl (hset hg rfl)
  | take hg _ => exact .inl (hset hg (Machine.futures_setStage hg _))
  | rest _ _ hp => exact .inl (hset hp (Machine.futures_setStage hp _))
  | finish hp _ => exact .inl (hset hp rfl)
  | refuse hg => exact .inl (hset hg rfl)
  | release hp _ _ _ => exact .inl (hset hp rfl)
  | commit hp _ _ _ _ _ => exact .inl (hset hp rfl)
  | fail hp _ _ _ _ => exact .inl (hset hp (Machine.futures_fail _ _ none))
  | failDispatch hp _ _ _ =>
    exact .inl (hset hp ((Machine.futures_fail _ _ (some _)).trans (Machine.futures_setStage hp _)))
  | drop g =>
    rcases m.dropFuture_cases g with hd | ⟨y, hy, -, ⟨-, hd⟩ | ⟨-, hd⟩⟩
    · exact .inl (hkeep (by rw [Change.apply, hd]))
    · exact .inl (hset hy (by rw [Change.apply, hd]; rfl))
    · exact .inl (hset hy (by rw [Change.apply, hd, Machine.futures_abortActive]; rfl))
  | abortActive id => exact .inl (hkeep (Machine.futures_abortActive id))
  | abortAll => exact .inl (hkeep (by rw [Change.apply, Machine.abortAll_eq]))
  | _ => exact .inl (hkeep rfl)

/-! ## Stories -/

/-- Whether a deed concerns the rejection of a future, its error dispatch, or its end without either. -/
def Deed.concerns (f : FutureId) : Deed κ φ → Bool
  | .changed _ c => c.concerns f
  | .asked _ => false

/-- The deeds that concern the rejection and the error dispatch of a future. -/
def Scene.story (s : Scene κ φ) (f : FutureId) : List (Deed κ φ) := s.trace.filter (Deed.concerns f)

/-- A future performs a transition, which has rejected. -/
structure Machine.Rejects (m : Machine κ φ) (f : FutureId) (id : TransitionId) (purpose : Purpose)
    (r : Rejection) : Prop where
  performs : m.Performs f id purpose
  settled : m.Settled id (.error r)

/-- **What the rejection and the error dispatch of a future have come to**, and where the future is. -/
inductive Story (f : FutureId) : List (Deed κ φ) → Option (Future φ) → Prop where
  /-- It has not rejected. -/
  | quiet {slot : Option (Future φ)} :
      (∀ x, slot = some x → (∀ r, x.stage ≠ .failed r) ∧ ∀ r, x.purpose ≠ .recovery r) →
      Story f [] slot
  /-- It was no dispatch, and is over. -/
  | finished (m₀ : Machine κ φ) : Story f [.changed m₀ (.closeFuture f)] none
  /-- It dispatched the error event, which rejected. -/
  | rejected {m₀ : Machine κ φ} {id : TransitionId} {r : Rejection} : m₀.Rejects f id .dispatch r →
      Story f [.changed m₀ (.fail f id none)] none
  /-- It rejected, and the error event is being selected. -/
  | selecting {m₀ : Machine κ φ} {id : TransitionId} {r : Rejection} : m₀.Rejects f id .dispatch r →
      Story f [.changed m₀ (.fail f id (some r))] (some ⟨id, .dispatch, .failed r⟩)
  /-- It rejected, and the error event was refused. -/
  | refused {m₀ : Machine κ φ} (m₁ : Machine κ φ) {id : TransitionId} {r : Rejection} :
      m₀.Rejects f id .dispatch r →
      Story f [.changed m₀ (.fail f id (some r)), .changed m₁ (.closeFuture f)] none
  /-- It rejected, and the error event is being dispatched, or this has settled without a rejection. -/
  | started {m₀ m₁ : Machine κ φ} {id : TransitionId} {r : Rejection} (record : Record)
      (args : List Json) {slot : Option (Future φ)} : m₀.Rejects f id .dispatch r →
      (∀ x, slot = some x → x.transition = m₁.nextTransition ∧ x.purpose = .recovery r) →
      Story f [.changed m₀ (.fail f id (some r)), .changed m₁ (.relaunch f r record args)] slot
  /-- It rejected, the error event was dispatched, and that rejected as well. -/
  | failed {m₀ m₁ m₂ : Machine κ φ} {id : TransitionId} {r r' : Rejection} (record : Record)
      (args : List Json) : m₀.Rejects f id .dispatch r →
      m₂.Rejects f m₁.nextTransition (.recovery r) r' →
      Story f [.changed m₀ (.fail f id (some r)), .changed m₁ (.relaunch f r record args),
        .changed m₂ (.fail f m₁.nextTransition none)] none

theorem Scene.story_make (s : Scene κ φ) (c : Change φ) :
    (s.make c).story f = s.story f ++ if c.concerns f then [.changed s.machine c] else [] := by
  unfold story make
  rw [List.filter_append]
  cases h : c.concerns f <;> simp [Deed.concerns, h]

theorem Scene.story_concerned (s : Scene κ φ) (hc : c.concerns f = true) :
    (s.make c).story f = s.story f ++ [.changed s.machine c] := by
  rw [story_make, if_pos hc]

theorem Scene.story_ask (s : Scene κ φ) (request : Request κ φ) :
    (s.ask request).story f = s.story f := by
  simp [story, ask, Deed.concerns]

/-- A future that goes on, or is over, without a rejection. -/
theorem Story.go_on {story : List (Deed κ φ)} {x : Future φ} (h : Story f story (some x))
    (hx : ∀ r, x.stage ≠ .failed r) {slot : Option (Future φ)}
    (hslot : ∀ y, slot = some y →
      y.transition = x.transition ∧ y.purpose = x.purpose ∧ ∀ r, y.stage ≠ .failed r) :
    Story f story slot := by
  cases h with
  | quiet hq =>
    refine .quiet fun y hy => ?_
    obtain ⟨-, hp, hs⟩ := hslot y hy
    exact ⟨hs, hp ▸ (hq x rfl).2⟩
  | selecting _ => exact absurd rfl (hx _)
  | started record args hr hs =>
    refine .started record args hr fun y hy => ?_
    obtain ⟨ht, hp, -⟩ := hslot y hy
    obtain ⟨ht', hp'⟩ := hs x rfl
    exact ⟨ht.trans ht', hp.trans hp'⟩

/-- **One deed.** -/
theorem Story.turn {story : List (Deed κ φ)} {x : Future φ} (h : Story f story (some x))
    (hf : m.future? f = some x) {slot : Option (Future φ)} (ht : Turn m own c f x slot) :
    Story f (story ++ if c.concerns f then [.changed m c] else []) slot := by
  have hsame : c.concerns f = false →
      story ++ (if c.concerns f then [.changed m c] else []) = story := fun hc => by
    rw [hc, if_neg Bool.noConfusion, List.append_nil]
  have hmore : c.concerns f = true →
      story ++ (if c.concerns f then [.changed m c] else []) = story ++ [.changed m c] := fun hc => by
    rw [hc, if_pos rfl]
  cases ht with
  | stays hc =>
    rw [hsame hc]
    exact h
  | moves stage hc _ hx hstage =>
    rw [hsame hc]
    refine h.go_on hx ?_
    rintro y ⟨⟩
    exact ⟨rfl, rfl, hstage⟩
  | ends hc hx =>
    rw [hsame hc]
    exact h.go_on hx fun _ h => nomatch h
  | finishes hx hd hc =>
    subst hx hc
    rw [hmore (beq_self_eq_true f)]
    cases h with
    | quiet _ => exact .finished m
    | started _ _ _ hs => cases (hs _ rfl).2; exact nomatch hd
  | @rejects id purpose r hx hd hk hc =>
    subst hx hc
    rw [hmore (beq_self_eq_true f)]
    cases h with
    | quiet hq =>
      cases purpose with
      | dispatch => exact .rejected ⟨hf, hk⟩
      | recovery first => exact absurd rfl ((hq _ rfl).2 first)
      | _ => exact nomatch hd
    | started record args hr hs =>
      obtain ⟨ht, hp⟩ := hs _ rfl
      cases hp
      cases ht
      exact .failed record args hr ⟨hf, hk⟩
  | reports _ hx hk hc =>
    subst hx hc
    rw [hmore (beq_self_eq_true f)]
    cases h with
    | quiet _ => exact .selecting ⟨hf, hk⟩
    | started _ _ _ hs => exact nomatch (hs _ rfl).2
  | refuses hx hc =>
    subst hx hc
    rw [hmore (beq_self_eq_true f)]
    cases h with
    | quiet hq => exact absurd rfl ((hq _ rfl).1 _)
    | selecting hr => exact .refused m hr
    | started _ _ _ hs => exact nomatch (hs _ rfl).2
  | @recovers id r record args _ hx hc =>
    subst hx hc
    rw [hmore (beq_self_eq_true f)]
    cases h with
    | quiet hq => exact absurd rfl ((hq _ rfl).1 _)
    | selecting hr =>
      refine .started record args hr ?_
      rintro x ⟨⟩
      exact ⟨rfl, rfl⟩
    | started _ _ _ hs => exact nomatch (hs _ rfl).2

/-- **Every future has such a story** at every point of every run. -/
theorem Trail.story {s : Scene κ φ} (h : Trail m s) (hm : m.futures = []) (f : FutureId) :
    Story f (s.story f) (s.machine.future? f) ∧
      (s.machine.futures.length ≤ f → s.story f = []) := by
  induction h with
  | start =>
    refine ⟨.quiet fun x hx => ?_, fun _ => rfl⟩
    exact absurd (Machine.lt_of_future hx) (by rw [hm]; exact Nat.not_lt_zero f)
  | ask _ _ ih => rw [Scene.story_ask]; exact ih
  | @make s own c _ hc ih =>
    obtain ⟨hstory, hempty⟩ := ih
    rw [Scene.story_make]
    cases hf : s.machine.future? f with
    | some x =>
      rw [hf] at hstory
      refine ⟨hstory.turn hf (hc.turn hf), fun hle => ?_⟩
      exact absurd (Nat.lt_of_lt_of_le (Machine.lt_of_future hf) c.length_futures_le) (Nat.not_lt.2 hle)
    | none =>
      rw [hf] at hstory
      rw [hc.not_concerns hf, if_neg Bool.noConfusion, List.append_nil]
      refine ⟨?_, fun hle => hempty (Nat.le_trans c.length_futures_le hle)⟩
      rcases hc.turn_none hf with hnone | ⟨hle, id, purpose, hnew, hp, -⟩
      · rw [show (s.make c).machine.future? f = none from hnone]
        exact hstory
      · rw [show (s.make c).machine.future? f = _ from hnew, hempty hle]
        refine .quiet ?_
        rintro x ⟨⟩
        exact ⟨fun _ h => (nomatch h), hp⟩

/-- **The story of a future that is gone is over.** -/
theorem Trail.story_over {s s' : Scene κ φ} (hs : Trail m s) (hs' : Trail m s')
    (hp : s.trace <+: s'.trace) (hf : s.machine.future? f = none)
    (hlt : f < s.machine.futures.length) :
    s'.machine.future? f = none ∧ s'.story f = s.story f := by
  have hover : s'.machine.future? f = none ∧ f < s'.machine.futures.length ∧
      s'.story f = s.story f := by
    refine hs.later hs' hp (I := fun s' => s'.machine.future? f = none ∧
      f < s'.machine.futures.length ∧ s'.story f = s.story f) ?_ ?_ ⟨hf, hlt, rfl⟩
    · rintro s₁ own c - ⟨hf, hlt, hstory⟩ hc
      refine ⟨?_, Nat.lt_of_lt_of_le hlt c.length_futures_le, ?_⟩
      · exact (hc.turn_none hf).resolve_right fun hnew => absurd hlt (Nat.not_lt.2 hnew.1)
      · rw [Scene.story_make, hc.not_concerns hf, if_neg Bool.noConfusion, List.append_nil, hstory]
    · rintro s₁ request ⟨hf, hlt, hstory⟩
      exact ⟨hf, hlt, s₁.story_ask request ▸ hstory⟩
  exact ⟨hover.1, hover.2.2⟩

/-! ## Transitions that are done -/

/-- Whether a transition is there, and not active. -/
def Machine.Inactive (m : Machine κ φ) (i : TransitionId) : Prop :=
  i < m.transitions.length ∧ i ∉ m.active

/-- Whether a transition is there, and no future dispatches it but one, or none at all. -/
def Machine.OnlyIn (m : Machine κ φ) (f? : Option FutureId) (i : TransitionId) : Prop :=
  i < m.transitions.length ∧ ∀ g, m.Dispatches g i → f? = some g

/-- **A transition that has left the active list never joins it again.** -/
theorem Allowed.inactive (h : Allowed m own c) {i : TransitionId} (hi : m.Inactive i) :
    (c.apply m).Inactive i := by
  obtain ⟨hlt, ha⟩ := hi
  refine ⟨Nat.lt_of_lt_of_le hlt (Change.grows c).length_le, ?_⟩
  obtain ⟨new, gone, hf⟩ : ∃ new gone, Flow m (c.apply m) new gone := ⟨_, _, h.flow⟩
  cases hf with
  | stay h _ => rwa [h]
  | join _ _ h _ _ =>
    rw [h, List.mem_append, List.mem_singleton]
    rintro (hi | rfl)
    · exact ha hi
    · exact Nat.lt_irrefl _ hlt
  | leave _ h _ => rw [h]; exact fun hi => ha (List.mem_filter.1 hi).1
  | remove h _ _ => rw [h]; exact fun hi => ha (List.mem_filter.1 hi).1
  | fail _ h _ _ => rw [h]; exact List.not_mem_nil

/-- A transition that was sent is dispatched by no other future. -/
theorem Allowed.onlyIn (h : Allowed m own c) {f? : Option FutureId} {i : TransitionId}
    (hi : m.OnlyIn f? i) : (c.apply m).OnlyIn f? i := by
  obtain ⟨hlt, ho⟩ := hi
  refine ⟨Nat.lt_of_lt_of_le hlt (Change.grows c).length_le, fun g hg => ?_⟩
  obtain ⟨new, gone, hf⟩ : ∃ new gone, Flow m (c.apply m) new gone := ⟨_, _, h.flow⟩
  cases hf with
  | stay _ h => exact ho g ((h g i).1 hg)
  | join _ _ _ _ h =>
    rcases (h g i).1 hg with hg | ⟨-, rfl⟩
    · exact ho g hg
    · exact absurd hlt (Nat.lt_irrefl _)
  | leave _ _ h => exact ho g ((h g i).1 hg).1
  | remove _ _ h => exact ho g ((h g i).1 hg)
  | fail _ _ _ h => exact ho g ((h g i).1 hg).1

/-- Whether a deed is the commit of a transition. -/
def Deed.commits (i : TransitionId) : Deed κ φ → Bool
  | .changed _ (.commit _ j _) => j == i
  | _ => false

variable {definition : Definition κ} {targetName state : String} {idText : TransitionId → String} {listeners : Nat}

/-- **A transition that was committed is done.** -/
theorem Trail.committed {s : Scene κ φ} (h : Trail (.start definition targetName idText state listeners) s)
    {i : TransitionId} {d : Deed κ φ} (hd : d ∈ s.trace) (hc : d.commits i = true) :
    s.machine.Inactive i ∧ s.machine.OnlyIn none i := by
  induction h with
  | start => exact nomatch hd
  | @ask s request _ _ ih =>
    rcases List.mem_append.1 hd with hd | hd
    · exact ih hd
    · rw [List.mem_singleton.1 hd] at hc
      exact nomatch hc
  | @make s own c ht ha ih =>
    rcases List.mem_append.1 hd with hd | hd
    · exact ⟨ha.inactive (ih hd).1, ha.onlyIn (ih hd).2⟩
    · rw [List.mem_singleton.1 hd] at hc
      unfold Deed.commits at hc
      split at hc
      · rename_i f j record heq
        cases heq
        cases eq_of_beq hc
        cases ha with
        | commit hp hpd _ _ hact _ =>
          have hlt := ht.orderly.active_lt hact
          refine ⟨⟨hlt, fun hi => ?_⟩, hlt, fun g hg => ?_⟩
          · exact absurd rfl (bne_iff_ne.1 (List.mem_filter.1 hi).2)
          · -- the future that dispatched it is the only one, and it is closed
            obtain ⟨hg, hne⟩ := (Machine.dispatches_close rfl).1 hg
            exact absurd (ht.orderly.open_unique g f i hg (hp.dispatches hpd)) hne
      · exact nomatch hc

/-- **A transition that has left the active list is not committed any more.** -/
theorem Trail.uncommitted {s s' : Scene κ φ} (hs : Trail m s) (hs' : Trail m s')
    (hp : s.trace <+: s'.trace) {i : TransitionId} (hi : s.machine.Inactive i)
    (hnone : ∀ d ∈ s.trace, d.commits i = false) : ∀ d ∈ s'.trace, d.commits i = false := by
  have hdone : s'.machine.Inactive i ∧ ∀ d ∈ s'.trace, d.commits i = false := by
    refine hs.later hs' hp (I := fun s' => s'.machine.Inactive i ∧
      ∀ d ∈ s'.trace, d.commits i = false) ?_ ?_ ⟨hi, hnone⟩
    · rintro s₁ own c - ⟨hi, hnone⟩ hc
      refine ⟨hc.inactive hi, fun d hd => ?_⟩
      rcases List.mem_append.1 hd with hd | hd
      · exact hnone d hd
      · rw [List.mem_singleton.1 hd]
        -- a commit would be of a transition that is active
        cases hc with
        | @commit f j purpose record _ _ _ _ hact _ =>
          refine beq_false_of_ne ?_
          rintro rfl
          exact hi.2 hact
        | _ => rfl
    · rintro s₁ request ⟨hi, hnone⟩
      refine ⟨hi, fun d hd => ?_⟩
      rcases List.mem_append.1 hd with hd | hd
      · exact hnone d hd
      · rw [List.mem_singleton.1 hd]
        rfl
  exact hdone.2

end StateEngine
