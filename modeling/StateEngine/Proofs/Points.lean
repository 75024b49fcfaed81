import StateEngine.Proofs.Story
import StateEngine.Proofs.Walk

/-!
# The points of a poll

What a poll has to do with rejections, told for each point that it comes to.

* `Owes`: the rejection that a future is to yield, by what was done with it so far.
* `Calm`: the points that have nothing to do with rejections. `Scene.Performing.calm`,
  `Program.Safe.calm_of_closed`: **phases are calm, and so is a poll once its future is closed**.
* `Attempted`, `Attempting`: where the attempt to dispatch the error event has come to.
* `PollPoint`, `poll_points`: **what holds at each point of a poll**.
* `Reaches.busy_waits`: a future that is being polled is held by a poll that waits.
-/

namespace StateEngine

open Program

variable {κ φ α β : Type} {m : Machine κ φ} {f : FutureId} {id : TransitionId} {purpose : Purpose}

/-! ## What is owed -/

/-- The rejection that a future is to yield when its transition rejects: this one, but an error dispatch
yields the one that it was made for. -/
def Purpose.owed (r : Rejection) : Purpose → Rejection
  | .recovery first => first
  | _ => r

/-- The rejection that a future is to yield already. -/
def Future.owed? (x : Future φ) : Option Rejection :=
  match x.purpose, x.stage with
  | .recovery r, _ => some r
  | _, .failed r => some r
  | _, _ => none

/-- Whether the rejections of a future among some deeds leave it owing a rejection, or none. -/
def Owes (f : FutureId) (deeds : List (Deed κ φ)) (owed : Option Rejection) : Prop :=
  ∀ m₀ id purpose reported r, .changed m₀ (.fail f id reported) ∈ deeds →
    m₀.Rejects f id purpose r → owed = some (purpose.owed r)

theorem Machine.Settled.unique {r r' : Rejection} (h : m.Settled id (.error r))
    (h' : m.Settled id (.error r')) : r = r' := by
  obtain ⟨t, ht, -, hr⟩ := h
  obtain ⟨t', ht', -, hr'⟩ := h'
  cases Option.some.inj (ht.symm.trans ht')
  exact Option.some.inj (hr.symm.trans hr')

theorem Machine.Rejects.unique {purpose' : Purpose} {r r' : Rejection} (h : m.Rejects f id purpose r)
    (h' : m.Rejects f id purpose' r') : purpose = purpose' ∧ r = r' := by
  cases Option.some.inj (h.performs.symm.trans h'.performs)
  exact ⟨rfl, h.settled.unique h'.settled⟩

theorem Owes.nil (owed : Option Rejection) : Owes (κ := κ) (φ := φ) f [] owed :=
  fun _ _ _ _ _ h => nomatch h

/-- One more deed. -/
theorem Owes.concat {deeds : List (Deed κ φ)} {d : Deed κ φ} {owed : Option Rejection}
    (h : Owes f deeds owed)
    (hd : ∀ m₀ id purpose reported r, d = .changed m₀ (.fail f id reported) →
      m₀.Rejects f id purpose r → owed = some (purpose.owed r)) : Owes f (deeds ++ [d]) owed := by
  intro m₀ id purpose reported r hmem hr
  rcases List.mem_append.1 hmem with hmem | hmem
  · exact h m₀ id purpose reported r hmem hr
  · exact hd m₀ id purpose reported r (List.mem_singleton.1 hmem).symm hr

/-- Who owes nothing may yield anything. -/
theorem Owes.of_none {deeds : List (Deed κ φ)} (h : Owes f deeds none) (owed : Option Rejection) :
    Owes f deeds owed := fun m₀ id purpose reported r hmem hr =>
  nomatch h m₀ id purpose reported r hmem hr

/-- **A future that is there owes what its purpose and its stage say.** -/
theorem Story.owes {deeds : List (Deed κ φ)} {x : Future φ} (h : Story f deeds (some x)) :
    Owes f deeds x.owed? := by
  cases h with
  | quiet _ => exact .nil _
  | selecting hr =>
    refine Owes.concat (.nil _) fun m₀ id purpose reported r hd hr' => ?_
    cases hd
    obtain ⟨rfl, rfl⟩ := hr.unique hr'
    rfl
  | started record args hr hs =>
    refine Owes.concat (Owes.concat (.nil _) fun m₀ id purpose reported r hd hr' => ?_)
      fun _ _ _ _ _ hd => nomatch hd
    cases hd
    obtain ⟨rfl, rfl⟩ := hr.unique hr'
    rw [Future.owed?, (hs x rfl).2]
    rfl

/-! ## Performing a transition amid others -/

/-- What a poll knows that performs a transition. -/
structure Scene.Performing (m : Machine κ φ) (f : FutureId) (id : TransitionId) (purpose : Purpose)
    (t : Transition) (s : Scene κ φ) : Prop where
  trail : Trail m s
  polling : s.machine.Polling f id purpose t.record
  book : ∃ marks, s.machine.transition? id = some (t.markAll marks)

variable {t : Transition} {s : Scene κ φ}

theorem Transition.mark_markAll (t : Transition) (marks more : List Mark) :
    (t.markAll marks).markAll more = t.markAll (marks ++ more) := List.foldl_append.symm

theorem Scene.Performing.note (h : s.Performing m f id purpose t) {c : Change φ} (hc : Notes id c) :
    (s.make c).Performing m f id purpose t := by
  obtain ⟨ha, hp⟩ := h.polling.note hc
  obtain ⟨marks, hm⟩ := h.book
  obtain ⟨more, hm'⟩ := c.marked id _ hm
  exact ⟨h.trail.make ha, hp, marks ++ more, t.mark_markAll marks more ▸ hm'⟩

theorem Scene.Performing.amid (h : s.Performing m f id purpose t) {request : Request κ φ}
    {reply : request.Reply} {s₁ : Scene κ φ} (ha : Amid m (some f) request s reply s₁) :
    s₁.Performing m f id purpose t := by
  obtain ⟨ht, hr, hp⟩ := ha
  refine ⟨ht, (Machine.Polling.stable f id purpose t.record).rely h.polling hr, ?_⟩
  refine h.trail.later ht ((List.prefix_append _ _).trans hp)
    (I := fun s => ∃ marks, s.machine.transition? id = some (t.markAll marks)) ?_ ?_ h.book
  · rintro s own c - ⟨marks, hm⟩ -
    obtain ⟨more, hm'⟩ := c.marked id _ hm
    exact ⟨marks ++ more, t.mark_markAll marks more ▸ hm'⟩
  · exact fun s request h => h

/-- What a poll knows of the story of its future. -/
theorem Scene.Performing.story (h : s.Performing m f id purpose t) (hm : m.futures = []) :
    Story f (s.story f) (some ⟨id, purpose, .busy⟩) := by
  have hstory := (h.trail.story hm f).1
  rwa [show s.machine.future? f = _ from h.polling.performs] at hstory

/-! ## Calm points -/

/-- Whether a change has nothing to do with rejections. -/
def Change.isPlain : Change φ → Bool
  | .note _ (.reject _) => false
  | .fail _ _ _ => false
  | .relaunch _ _ _ _ => false
  | .closeFuture _ => false
  | _ => true

/-- What there is to say of a point that has nothing to do with the rejection of a future: how it ends. -/
def Calm (f : FutureId) (post : α → Scene κ φ → Prop) : Program κ φ α → Scene κ φ → Prop
  | .done a, s => post a s
  | .look _, _ => True
  | .change c _, _ => c.isPlain = true
  | .ask _ _, s => ∀ id r, s.machine.future? f ≠ some ⟨id, .dispatch, .failed r⟩

/-- Whether nothing is said of calm points. -/
structure Lenient (f : FutureId) (P : Program κ φ α → Scene κ φ → Prop) : Prop where
  change : ∀ c next s, c.isPlain = true → P (.change c next) s
  ask : ∀ request resume s, (∀ id r, s.machine.future? f ≠ some ⟨id, .dispatch, .failed r⟩) →
    P (.ask request resume) s

variable {R : Response κ φ}

theorem Calm.lenient (post : α → Scene κ φ → Prop) : Lenient f (Calm f post) :=
  ⟨fun _ _ _ h => h, fun _ _ _ h => h⟩

theorem Lenient.then {P : Program κ φ β → Scene κ φ → Prop} (h : Lenient f P)
    (g : α → Program κ φ β) : Lenient f (Then R P g) :=
  ⟨fun c _ s hc => h.change c _ s hc, fun request _ s hs => h.ask request _ s hs⟩

/-- A program that is calm, and then goes on. -/
theorem Program.Each.calm {P : Program κ φ β → Scene κ φ → Prop} (hP : Lenient f P)
    {g : α → Program κ φ β} {p : Program κ φ α} {post : α → Scene κ φ → Prop}
    (h : p.Each R (Calm f post) s) (hg : ∀ a s, post a s → (g a).Each R P s) :
    (p >>= g).Each R P s := by
  refine Each.bind (h.mono fun q s hq => ?_)
  cases q with
  | done a => exact hg a s hq
  | look _ => trivial
  | change c next => exact hP.change c _ s hq
  | ask request resume => exact hP.ask request _ s hq

theorem Scene.Performing.not_failed (h : s.Performing m f id purpose t) (i : TransitionId)
    (r : Rejection) : s.machine.future? f ≠ some ⟨i, .dispatch, .failed r⟩ := by
  rw [show s.machine.future? f = _ from h.polling.performs]
  exact fun e => nomatch e

/-- **A phase is calm.** -/
theorem Scene.Performing.calm (h : s.Performing m f id purpose t) {p : Program κ φ (Advance φ)}
    (hp : p.Within (PhaseNotes id) Advance.Rests) :
    p.Each (Amid m (some f))
      (Calm f fun advance s' => s'.Performing m f id purpose t ∧ advance.Rests) s := by
  have hpoints := hp.each (R := Amid m (some f)) (I := Scene.Performing m f id purpose t)
    (fun s c hs hc => hs.note hc.notes) (fun request s reply s₁ ha hs => hs.amid ha) h
  refine hpoints.mono fun q s hq => ?_
  obtain ⟨hs, hq⟩ := hq
  cases q with
  | done advance => exact ⟨hs, hq⟩
  | look _ => trivial
  | change c next =>
    obtain ⟨mark, hm, rfl⟩ := hq.1
    cases mark with
    | reject r => exact nomatch hm
    | _ => rfl
  | ask request resume => exact hs.not_failed

/-- Whether a poll can go on from where a transition rests or is over, and from where it rejects. -/
structure Follows (m : Machine κ φ) (f : FutureId) (id : TransitionId) (purpose : Purpose)
    (t : Transition) (P : Program κ φ β → Scene κ φ → Prop) (g : Advance φ → Program κ φ β) : Prop where
  goes : ∀ advance s, s.Performing m f id purpose t → advance.Known id s.machine → advance.Rests →
    (g advance).Each (Amid m (some f)) P s
  rejects : ∀ r s, s.Performing m f id purpose t →
    P (.change (.note id (.reject r)) (g (.over (.error r)))) s

variable {P : Program κ φ β → Scene κ φ → Prop} {g : Advance φ → Program κ φ β}

/-- Where a poll can go on, there is a walk through its transition. -/
theorem Follows.walk (hg : Follows m f id purpose t P g) (hP : Lenient f P) :
    Walk (Amid m (some f)) (Scene.Performing m f id purpose t) id P g where
  note _ _ h hc := h.note hc.notes
  amid _ _ _ _ ha h := h.amid ha
  change := by
    rintro c next s - ⟨mark, hm, rfl⟩
    refine hP.change _ _ s ?_
    cases mark with
    | reject r => exact nomatch hm
    | _ => rfl
  ask _ _ s h := hP.ask _ _ s h.not_failed
  waits phase roster s h hr := by
    refine hg.goes _ s h (fun _ h => nomatch h) ?_
    rintro _ _ ⟨⟩
    exact hr
  resolves s h := by
    refine Each.make (hP.change _ _ s rfl) ?_
    refine hg.goes _ _ (h.note ⟨.resolve, nofun, rfl⟩) ?_ (Advance.rests_over _)
    rintro result ⟨⟩
    exact .resolve h.polling.record_eq
  rejects r s h := by
    refine Each.make (hg.rejects r s h) ?_
    refine hg.goes _ _ (h.note ⟨.reject r, nofun, rfl⟩) ?_ (Advance.rests_over _)
    rintro result ⟨⟩
    exact .reject h.polling.record_eq r

/-- **The points of performing a transition**, and of what follows. -/
theorem Follows.advance (hg : Follows m f id purpose t P g) (hP : Lenient f P) (stage : Stage φ)
    (h : s.Performing m f id purpose t) :
    (advance id t stage >>= g).Each (Amid m (some f)) P s :=
  (hg.walk hP).advance stage h

/-- **Once its future is closed, a poll is calm**, and the story of the future is over. -/
theorem Program.Safe.calm_of_closed {p : Program κ φ α} {post : α → Scene κ φ → Prop}
    (h : p.Safe (some f) post s) (ht : Trail m s) (hf : s.machine.future? f = none)
    (hlt : f < s.machine.futures.length) :
    p.Each (Amid m (some f))
      (Calm f fun _ s' => s'.machine.future? f = none ∧ s'.story f = s.story f) s := by
  refine (h.each ht).course.mono fun q s' hq => ?_
  obtain ⟨⟨ht', hsafe⟩, hg⟩ := hq
  have hover := ht.story_over ht' (Goes.trace_prefix hg) hf hlt
  cases q with
  | done a => exact hover
  | look _ => trivial
  | change c next =>
    -- it could only do something to a future that it has
    obtain ⟨x, hx⟩ := hsafe.1.future_own
    exact nomatch hover.1.symm.trans hx
  | ask request resume => exact fun i r e => nomatch hover.1.symm.trans e

/-! ## The points of a poll -/

/-- Where the attempt to dispatch the error event starts: in the scene in which a dispatch has rejected.
The event is given the rejection and the transition that rejected. -/
structure Reported (m : Machine κ φ) (f : FutureId) (r : Rejection) (args : List Json) (s : Scene κ φ) :
    Prop where
  reported : ∃ s₀ id t, Trail m s₀ ∧ s₀.machine.Rejects f id .dispatch r ∧
    s₀.machine.transition? id = some t ∧ args = [errorPayload r (m.idText id) t] ∧
    s = s₀.make (.fail f id (some r))

/-- Whether an attempt to dispatch the error event has come to a result. -/
def Attempted (m : Machine κ φ) (f : FutureId) (r : Rejection) (args : List Json)
    (result : Except DispatchError Record) (s : Scene κ φ) : Prop :=
  ∃ s₁, Reported m f r args s₁ ∧ (select errorEvent).Goes (Amid m (some f)) s₁ (.done result) s

/-- Whether an attempt to dispatch the error event has come to a request. -/
def Attempting (m : Machine κ φ) (f : FutureId) (r : Rejection) (request : Request κ φ)
    (resume : request.Reply → Program κ φ α) (s : Scene κ φ) : Prop :=
  ∃ s₁ args rest next, Reported m f r args s₁ ∧
    (select errorEvent).Goes (Amid m (some f)) s₁ (.ask request rest) s ∧
    resume = fun reply => (rest reply).bind next

/-- The attempt is part of a poll. -/
theorem Reported.attempting {r : Rejection} {args : List Json} {s₁ s : Scene κ φ}
    {request : Request κ φ} {rest : request.Reply → Program κ φ (Except DispatchError Record)}
    (h : Reported m f r args s₁)
    (hg : (select errorEvent).Goes (Amid m (some f)) s₁ (.ask request rest) s)
    (g : Except DispatchError Record → Program κ φ β) (k : β → Program κ φ α) :
    Attempting m f r request (fun reply => ((rest reply).bind g).bind k) s :=
  ⟨s₁, args, rest, fun result => (g result).bind k, h, hg, funext fun reply =>
    Program.bind_assoc (rest reply) g k⟩

/-- What a poll yields. -/
def Polled.Fits (f : FutureId) (s : Scene κ φ) : Polled → Prop
  | .pending => ∃ x phase roster, s.machine.future? f = some x ∧ x.stage = .waiting phase roster ∧
      roster.outcomes? = none
  | .rejected r => s.machine.future? f = none ∧ Owes f (s.story f) (some r)
  | _ => s.machine.future? f = none ∧ Owes f (s.story f) none

/-- **What the points of a poll have to do with rejections.** -/
def PollPoint (m : Machine κ φ) (f : FutureId) :
    Program κ φ (Option Polled) → Scene κ φ → Prop
  | .done (some polled), s => polled.Fits f s
  | .change (.note id (.reject _)) next, s => ∀ purpose, s.machine.Performs f id purpose →
      purpose.isDispatch = true → ∃ reported rest, next = .change (.fail f id reported) rest
  | .change (.fail _ id none) next, s => ∃ purpose r, s.machine.Rejects f id purpose r ∧
      next = .done (some (.rejected (purpose.owed r)))
  | .change (.relaunch _ r record args) _, s => Attempted m f r args (.ok record) s
  | .change (.closeFuture _) _, s =>
      (∃ x, s.machine.future? f = some x ∧ x.purpose.isDispatch = false) ∨
        ∃ r args error, Attempted m f r args (.error error) s
  | .ask request resume, s => ∀ id r, s.machine.future? f = some ⟨id, .dispatch, .failed r⟩ →
      Attempting m f r request resume s
  | _, _ => True

theorem PollPoint.lenient : Lenient f (PollPoint m f) := by
  refine ⟨fun c next s hc => ?_, fun request resume s hs => ?_⟩
  · cases c with
    | note _ mark =>
      cases mark with
      | reject _ => exact nomatch hc
      | _ => trivial
    | fail _ _ _ => exact nomatch hc
    | relaunch _ _ _ _ => exact nomatch hc
    | closeFuture _ => exact nomatch hc
    | _ => trivial
  · exact fun id r h => absurd h (hs id r)

/-- The points of the part of a poll that goes on with the future. -/
def ResultPoint (m : Machine κ φ) (f : FutureId) : Program κ φ Polled → Scene κ φ → Prop :=
  Then (Amid m (some f)) (PollPoint m f) fun polled => pure (some polled)

theorem ResultPoint.lenient : Lenient f (ResultPoint m f) := PollPoint.lenient.then _

/-- A poll that has to wait. -/
theorem rest_points (h : s.Performing m f id purpose t) (phase : Phase) {roster : Roster φ}
    (hr : roster.outcomes? = none) :
    (rest f phase roster).Each (Amid m (some f)) (ResultPoint m f) s := by
  refine Each.make (ResultPoint.lenient.change _ _ s rfl) ?_
  exact ⟨_, phase, roster, Machine.future_setStage h.polling.performs _, rfl, hr⟩

/-- A deed that does not concern a future closes it. -/
theorem Scene.closed_make (hf : s.machine.future? f = some ⟨id, purpose, .busy⟩) {c : Change φ}
    (hc : c.concerns f = false) (hset : (c.apply s.machine).futures = s.machine.futures.set f none) :
    (s.make c).machine.future? f = none ∧ f < (s.make c).machine.futures.length ∧
      (s.make c).story f = s.story f := by
  refine ⟨(Machine.future_close hset).trans (if_pos rfl), ?_, ?_⟩
  · exact Nat.lt_of_lt_of_le (Machine.lt_of_future hf) c.length_futures_le
  · rw [Scene.story_make, hc, if_neg Bool.noConfusion, List.append_nil]

/-- A dispatch that settles without a rejection. -/
theorem settle_calm (h : s.Performing m f id purpose t) (hd : purpose.isDispatch = true)
    (hk : s.machine.Settled id (.ok ())) :
    (settle f id t.record).Each (Amid m (some f))
      (Calm f fun _ s' => s'.machine.future? f = none ∧ s'.story f = s.story f) s := by
  have hsafe := settle_safe h.polling hd hk
  unfold settle at hsafe ⊢
  refine Each.look ?_
  replace hsafe := Safe.of_look hsafe
  split at hsafe
  · rename_i hc
    rw [if_pos hc]
    refine Each.make rfl ?_
    obtain ⟨hnone, hlt, hstory⟩ := Scene.closed_make (c := .commit f id t.record)
      h.polling.performs rfl rfl
    exact hstory ▸ hsafe.2.calm_of_closed (h.trail.make hsafe.1) hnone hlt
  · rename_i hc
    rw [if_neg hc]
    obtain ⟨hnone, -, hstory⟩ := Scene.closed_make (c := .release f id) h.polling.performs rfl rfl
    exact ⟨rfl, hnone, hstory⟩

/-- Other deeds leave a future owing what it owed. -/
theorem Owes.make {owed : Option Rejection} (h : Owes f (s.story f) owed) {c : Change φ}
    (hc : ∀ i reported, c ≠ .fail f i reported) : Owes f ((s.make c).story f) owed := by
  rw [Scene.story_make]
  split
  · refine h.concat fun m₀ i purpose reported r hd hr => ?_
    cases hd
    exact absurd rfl (hc i reported)
  · rwa [List.append_nil]

/-- A rejection leaves its future owing what it is to yield then. -/
theorem Owes.fail {r : Rejection} (h : Owes f (s.story f) (some (purpose.owed r)))
    (hr : s.machine.Rejects f id purpose r) (reported : Option Rejection) :
    Owes f ((s.make (.fail f id reported)).story f) (some (purpose.owed r)) := by
  rw [Scene.story_concerned (c := .fail f id reported) s (beq_self_eq_true f)]
  refine h.concat fun m₀ i purpose' reported' r' hd hr' => ?_
  cases hd
  obtain ⟨rfl, rfl⟩ := hr.unique hr'
  rfl

/-- **The points of an error dispatch** that goes on. -/
theorem recover_points {r : Rejection} {advance : Advance φ} (hm : m.futures = [])
    (h : s.Performing m f id (.recovery r) t) (hk : advance.Known id s.machine)
    (hr : advance.Rests) :
    (recover f id t.record r advance).Each (Amid m (some f)) (ResultPoint m f) s := by
  have howes : Owes f (s.story f) (some r) := (h.story hm).owes
  match advance with
  | .waiting phase roster => exact rest_points h phase (hr phase roster rfl)
  | .over (.ok ()) =>
    refine (settle_calm h rfl (hk _ rfl)).calm ResultPoint.lenient fun _ s' hs' => ?_
    exact ⟨hs'.1, hs'.2 ▸ howes⟩
  | .over (.error other) =>
    have hrejects : s.machine.Rejects f id (.recovery r) other := ⟨h.polling.performs, hk _ rfl⟩
    refine Each.make ⟨_, other, hrejects, rfl⟩ ⟨?_, howes.fail hrejects none⟩
    exact (Machine.future_close (Machine.futures_fail f id none)).trans (if_pos rfl)

theorem recover_follows {r : Rejection} (hm : m.futures = []) :
    Follows m f id (.recovery r) t (ResultPoint m f) (recover f id t.record r) :=
  ⟨fun _ _ h hk hr => recover_points hm h hk hr, fun _ _ _ _ _ _ => ⟨none, _, rfl⟩⟩

theorem errorPayload_markAll (r : Rejection) (text : String) (t : Transition) (marks : List Mark) :
    errorPayload r text (t.markAll marks) = errorPayload r text t := by
  unfold errorPayload Transition.toJson
  rw [t.record_markAll, t.args_markAll]

/-- **The points of the attempt to dispatch the error event**, and of what follows it. -/
theorem dispatchError_points {r : Rejection} (hm : m.futures = []) {s₀ : Scene κ φ}
    (h : s₀.Performing m f id .dispatch t) (hk : s₀.machine.Settled id (.error r))
    (he : t.record.event ≠ errorEvent) :
    (dispatchError f id t r).Each (Amid m (some f)) (ResultPoint m f)
      (s₀.make (.fail f id (some r))) := by
  have hp := h.polling.performs
  have htrail : Trail m (s₀.make (.fail f id (some r))) :=
    h.trail.make (.failDispatch hp hk h.polling.record_eq he)
  have hfailed : (s₀.make (.fail f id (some r))).machine.future? f =
      some ⟨id, .dispatch, .failed r⟩ := Machine.future_fail hp id r
  have hreported : Reported m f r [errorPayload r (m.idText id) t] (s₀.make (.fail f id (some r))) := by
    obtain ⟨marks, hbook⟩ := h.book
    exact ⟨s₀, id, _, h.trail, ⟨hp, hk⟩, hbook, by rw [errorPayload_markAll], rfl⟩
  have howes : Owes f ((s₀.make (.fail f id (some r))).story f) (some r) :=
    ((h.story hm).owes.of_none _).fail ⟨hp, hk⟩ (some r)
  -- nothing is changed while the record is selected, and the future stays
  have hsafe := (select_safe (stable_failed r) errorEvent hfailed).each htrail
  have hquiet := (select_within (P := fun _ => False) errorEvent).each (R := Amid m (some f))
    (I := fun s => s.machine.future? f = some ⟨id, .dispatch, .failed r⟩)
    (fun _ _ _ h => h.elim) (fun _ _ _ _ ha hf => ha.2.1.future.trans hf) hfailed
  refine Each.bind (((hsafe.and hquiet).course).mono fun q s hq => ?_)
  obtain ⟨⟨⟨ht, hselected⟩, hf, hquiet⟩, hg⟩ := hq
  cases q with
  | look _ => trivial
  | change c next => exact hquiet.1.elim
  | ask request resume =>
    intro i r' hf'
    cases Option.some.inj (hf.symm.trans hf')
    exact hreported.attempting hg _ _
  | done result =>
    obtain ⟨⟨-, hd⟩, ha⟩ := hselected
    match result with
    | .error error =>
      refine Each.make (.inr ⟨r, _, error, _, hreported, hg⟩) ⟨?_, ?_⟩
      · exact (Machine.future_close rfl).trans (if_pos rfl)
      · refine Owes.make ?_ fun _ _ e => nomatch e
        have hstory := (ht.story hm f).1
        rw [hf] at hstory
        exact hstory.owes
    | .ok record =>
      refine Each.look ?_
      rw [ht.idText_eq]
      refine Each.make ⟨_, hreported, hg⟩ ?_
      generalize [errorPayload r (m.idText id) t] = args
      have hrelaunch := Allowed.relaunch args hf (hd record rfl) (ha record rfl)
      have hnew := Machine.transition_relaunch (f := f) (m := s.machine) r record args
      -- from here on the future performs the transition of the error event
      have hperforming : (s.make (.relaunch f r record args)).Performing m f
          s.machine.nextTransition (.recovery r) (.fresh record args) := by
        refine ⟨ht.make hrelaunch, ⟨?_, Machine.record_eq_some.2 ⟨_, hnew, rfl⟩⟩, [], hnew⟩
        exact Machine.future_eq_some.2 (List.getElem?_set_self (Machine.lt_of_future hf))
      exact (recover_follows hm).advance ResultPoint.lenient .unpolled hperforming

/-- **The points of a dispatch that goes on.** -/
theorem conclude_points {advance : Advance φ} (hm : m.futures = [])
    (h : s.Performing m f id .dispatch t) (hk : advance.Known id s.machine) (hr : advance.Rests) :
    (conclude f id t advance).Each (Amid m (some f)) (ResultPoint m f) s := by
  have howes : Owes f (s.story f) none := (h.story hm).owes
  match advance with
  | .waiting phase roster => exact rest_points h phase (hr phase roster rfl)
  | .over (.ok ()) =>
    refine (settle_calm h rfl (hk _ rfl)).calm ResultPoint.lenient fun _ s' hs' => ?_
    exact ⟨hs'.1, hs'.2 ▸ howes⟩
  | .over (.error r) =>
    have hrejects : s.machine.Rejects f id .dispatch r := ⟨h.polling.performs, hk _ rfl⟩
    unfold conclude
    dsimp only
    split
    · refine Each.make ⟨_, r, hrejects, rfl⟩ ⟨?_, (howes.of_none _).fail hrejects none⟩
      exact (Machine.future_close (Machine.futures_fail f id none)).trans (if_pos rfl)
    · rename_i he
      exact Each.make trivial (dispatchError_points hm h (hk _ rfl) he)

/-- The end of a future that is no dispatch. -/
theorem finish_points (hm : m.futures = []) (h : s.Performing m f id purpose t)
    (hd : purpose.isDispatch = false) {polled : Polled}
    (hp : polled = .finished ∨ ∃ i, polled = .resolved i) (result : Except Rejection Unit) :
    (finish f polled result).Each (Amid m (some f)) (ResultPoint m f) s := by
  have hclosed : (s.make (.closeFuture f)).machine.future? f = none :=
    (Machine.future_close rfl).trans (if_pos rfl)
  have howes : Owes f ((s.make (.closeFuture f)).story f) none := by
    have hstory := (h.story hm).owes
    cases purpose with
    | phase phase => exact hstory.make fun _ _ e => nomatch e
    | perform => exact hstory.make fun _ _ e => nomatch e
    | _ => exact nomatch hd
  have hclose : PollPoint m f (.change (.closeFuture f) (.done (some polled))) s :=
    .inl ⟨_, h.polling.performs, hd⟩
  cases result with
  | error r => exact Each.make hclose ⟨hclosed, howes.of_none _⟩
  | ok _ =>
    refine Each.make hclose ?_
    rcases hp with rfl | ⟨i, rfl⟩
    · exact ⟨hclosed, howes⟩
    · exact ⟨hclosed, howes⟩

/-- The points of a future that goes on from where it stands. -/
theorem pollFrom_points (hm : m.futures = []) (h : s.Performing m f id purpose t) (stage : Stage φ) :
    (pollFrom f id t purpose stage).Each (Amid m (some f)) (ResultPoint m f) s := by
  cases purpose with
  | phase phase =>
    refine (h.calm (advancePhase_within id t phase stage)).calm ResultPoint.lenient fun advance s' hs' => ?_
    obtain ⟨phase, roster⟩ | result := advance
    · exact rest_points hs'.1 phase (hs'.2 phase roster rfl)
    · exact finish_points hm hs'.1 rfl (.inl rfl) result
  | perform =>
    refine Follows.advance ⟨fun advance s' h' _ hr => ?_, fun r s' h' purpose hp hd => ?_⟩
      ResultPoint.lenient stage h
    · obtain ⟨phase, roster⟩ | result := advance
      · exact rest_points h' phase (hr phase roster rfl)
      · exact finish_points hm h' rfl (.inr ⟨id, rfl⟩) result
    · -- it is no dispatch
      cases Option.some.inj (hp.symm.trans h'.polling.performs)
      exact nomatch hd
  | dispatch =>
    refine Follows.advance ⟨fun _ _ h' hk hr => conclude_points hm h' hk hr, fun r s' h' _ _ _ => ?_⟩
      ResultPoint.lenient stage h
    unfold conclude
    dsimp only
    split
    · exact ⟨none, _, rfl⟩
    · exact ⟨some r, _, rfl⟩
  | recovery r => exact (recover_follows hm).advance ResultPoint.lenient stage h

/-- **The points of a poll.** -/
theorem poll_points (hm : m.futures = []) (ht : Trail m s) :
    (poll f).Each (Amid m (some f)) (PollPoint m f) s := by
  refine Each.look ?_
  cases hf : s.machine.future? f with
  | none => exact trivial
  | some x =>
    obtain ⟨id, purpose, stage⟩ := x
    cases hb : stage.isBusy with
    | true => simp only [hb]; exact trivial
    | false =>
      simp only [hb]
      cases htr : s.machine.transition? id with
      | none => exact trivial
      | some t =>
        have hperforming : (s.make (.setStage f .busy)).Performing m f id purpose t :=
          ⟨ht.make (.take hf hb), ⟨Machine.future_setStage hf .busy,
            Machine.record_eq_some.2 ⟨t, htr, rfl⟩⟩, [], htr⟩
        exact Each.make (PollPoint.lenient.change _ _ s rfl)
          (Each.bind (pollFrom_points hm hperforming stage))

/-! ## Polls that wait -/

/-- A poll yields something, unless there is nothing to poll. Then it does nothing. -/
theorem poll_gives (f : FutureId) (s : Scene κ φ) :
    (poll f).Each R (fun q s' => (q = .done none ∧ s' = s) ∨ q.Gives fun polled => polled.isSome = true) s := by
  refine Each.look ?_
  cases hf : s.machine.future? f with
  | none => exact .inl ⟨rfl, rfl⟩
  | some x =>
    obtain ⟨id, purpose, stage⟩ := x
    cases hb : stage.isBusy with
    | true => simp only [hb]; exact .inl ⟨rfl, rfl⟩
    | false =>
      simp only [hb]
      cases htr : s.machine.transition? id with
      | none => exact .inl ⟨rfl, rfl⟩
      | some t =>
        have hgives : (pollFrom f id t purpose stage >>= fun polled =>
            (pure (some polled) : Program κ φ (Option Polled))).Gives fun polled => polled.isSome = true := by
          refine Gives.bind (fun polled => ?_) _
          exact rfl
        exact Each.make (.inr hgives) (hgives.each.mono fun _ _ h => .inr h)

/-- An operation that holds no future makes none busy. -/
theorem Allowed.busy {own : Option FutureId} {c : Change φ} (h : Allowed m own c) (hown : own ≠ some f)
    (hb : ∃ x, (c.apply m).future? f = some x ∧ x.stage.isBusy = true) :
    ∃ x, m.future? f = some x ∧ x.stage.isBusy = true := by
  obtain ⟨x, hx, hb⟩ := hb
  cases hf : m.future? f with
  | none =>
    rcases h.turn_none hf with hnone | ⟨-, i, p, hnew, -⟩
    · exact nomatch hnone.symm.trans hx
    · cases Option.some.inj (hnew.symm.trans hx)
      exact nomatch hb
  | some y =>
    have hturn := h.turn hf
    rw [hx] at hturn
    cases hturn with
    | stays _ => exact ⟨x, rfl, hb⟩
    | moves _ _ ho _ _ => exact absurd ho hown
    | reports ho _ _ _ => exact absurd ho hown
    | recovers ho _ _ => exact absurd ho hown

theorem Path.busy {own : Option FutureId} {s s' : Scene κ φ} (h : Path own s s') (hown : own ≠ some f)
    (hb : ∃ x, s'.machine.future? f = some x ∧ x.stage.isBusy = true) :
    ∃ x, s.machine.future? f = some x ∧ x.stage.isBusy = true := by
  induction h with
  | refl s => exact hb
  | make hc _ ih => exact hc.busy hown (ih hb)
  | ask _ _ ih => exact ih hb

/-- Once a poll has ended its future is not busy, unless there was nothing to poll. -/
theorem Polled.Fits.idle {polled : Polled} (h : polled.Fits f s) {x : Future φ}
    (hx : s.machine.future? f = some x) : x.stage.isBusy = false := by
  have hgone : s.machine.future? f = none → x.stage.isBusy = false := fun hnone =>
    nomatch hnone.symm.trans hx
  cases polled with
  | pending =>
    obtain ⟨y, phase, roster, hy, hstage, -⟩ := h
    rw [Option.some.inj (hx.symm.trans hy), hstage]
    rfl
  | finished => exact hgone h.1
  | resolved _ => exact hgone h.1
  | rejected _ => exact hgone h.1

/-- A poll that waits yields something in the end. -/
theorem Course.poll_gives {request : Request κ φ} {resume : request.Reply → Program κ φ (Option Polled)}
    (h : Course m (.poll f) (.ask request resume) s) (reply : request.Reply) :
    (resume reply).Gives fun polled => polled.isSome = true := by
  have hpoint : (Program.ask request resume).Each (Amid m (some f))
      (fun q _ => q = .done none ∨ q.Gives fun polled => polled.isSome = true) s :=
    h.each fun s _ => (StateEngine.poll_gives f s).mono fun _ _ hq => hq.imp_left And.left
  rcases hpoint.1 with hdone | hgives
  · exact nomatch hdone
  · exact hgives reply

/-- What holds at each point that a poll comes to in a run, and from there on. -/
theorem Course.poll_points {q : Program κ φ (Option Polled)} (hm : m.futures = [])
    (h : Course m (.poll f) q s) : q.Each (Amid m (some f)) (PollPoint m f) s := by
  obtain ⟨w, hw, hg⟩ := h
  exact (StateEngine.poll_points hm hw.sound.trail).goes hg

/-- What a poll that ends yields fits its future. -/
theorem Reaches.fits {w w' : World κ φ} (hm : m.futures = []) (h : Reaches m w) {polled : Polled}
    (hy : w.Yields (.poll f) (some polled) w') : polled.Fits f w'.scene :=
  Course.poll_points hm (h.yields hy)

/-- **A future that is being polled is held by a poll that waits.** -/
theorem Reaches.busy_waits {w : World κ φ} (hm : m.futures = []) (h : Reaches m w)
    (hb : ∃ x, w.machine.future? f = some x ∧ x.stage.isBusy = true) :
    ∃ y ∈ w.waiting, y.operation = .poll f := by
  induction h with
  | start =>
    obtain ⟨x, hx, -⟩ := hb
    exact absurd (Machine.lt_of_future hx) (by rw [World.start, World.machine, hm]; exact Nat.not_lt_zero f)
  | @next op w w' hw hn ih =>
    -- a poll that has yielded something leaves no future busy
    have hidle : ∀ {polled}, ¬ w.Yields (.poll f) (some polled) w' := by
      intro polled hy
      obtain ⟨x, hx, hb⟩ := hb
      exact nomatch hb.symm.trans ((hw.fits hm hy).idle hx)
    have hother : op.own ≠ some f → ∃ y ∈ w.waiting, y.operation = .poll f := fun hown =>
      ih ((hw.path hn).busy hown hb)
    cases hn with
    | start =>
      by_cases hown : op.own = some f
      · cases Operation.own_eq_some hown
        rcases World.proceed_waits (R := Amid m (some f)) (.poll f) (p := poll f) (w := w) with
          ⟨hwait, result, ho⟩ | ⟨request, resume, s, hwait, -⟩
        · have hend : (poll f).Goes (Amid m (some f)) w.scene (.done result)
              (w.proceed (.poll f) (poll f)).scene := World.proceed_outcome (.poll f) ho
          cases result with
          | some polled => exact absurd (World.Yields.start (.poll f) ho) hidle
          | none =>
            rcases (poll_gives f w.scene).goes hend with ⟨-, hs⟩ | hgives
            · obtain ⟨x, hx, hb⟩ := hb
              have hx' := (congrArg (fun s : Scene κ φ => s.machine.future? f) hs).symm.trans hx
              obtain ⟨y, hy, hyf⟩ := ih ⟨x, hx', hb⟩
              exact ⟨y, World.proceed_subset _ _ _ hy, hyf⟩
            · exact nomatch hgives
        · exact ⟨_, hwait ▸ List.mem_cons_self, rfl⟩
      · obtain ⟨y, hy, hyf⟩ := hother hown
        exact ⟨y, World.proceed_subset _ _ _ hy, hyf⟩
    | answer scene newer x older reply =>
      by_cases hown : x.operation.own = some f
      · obtain ⟨operation, request, resume⟩ := x
        cases Operation.own_eq_some hown
        obtain ⟨s₀, hcourse, -⟩ := hw.waits _ (List.mem_append_right _ List.mem_cons_self)
        rcases World.proceed_waits (R := Amid m (some f)) (.poll f) (p := resume reply)
          (w := ⟨scene, newer ++ older⟩) with ⟨-, result, ho⟩ | ⟨request, resume, s, hwait, -⟩
        · have hsome := (hcourse.poll_gives reply).outcome ho
          cases result with
          | some polled =>
            exact absurd (World.Yields.answer (x := ⟨.poll f, request, resume⟩) ho) hidle
          | none => exact nomatch hsome
        · exact ⟨_, hwait ▸ List.mem_cons_self, rfl⟩
      · obtain ⟨y, hy, hyf⟩ := hother hown
        refine ⟨y, World.proceed_subset _ _ _ ?_, hyf⟩
        -- it is another one that moves
        have hne : y ≠ x := by
          rintro rfl
          exact hown (by rw [hyf]; rfl)
        simpa [hne] using hy

end StateEngine
