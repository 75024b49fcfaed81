import StateEngine.Proofs.Run

/-!
# Courses of operations

Runs forget how far an operation has come: they know what it did, and what it is going to do with the
answer that it waits for. Here an operation is followed from its start, point by point.

* `Program.Goes`: a program comes to a point, under some account of how its requests are answered.
* `Program.Each`: what holds at each point that a program comes to.
* `Amid`, `Course`: requests are answered amid other operations of the same run.
* `Made`, `Reaches.made_in`: **every deed was made in a move** of some operation.
* `Reaches.made`, `Reaches.waits`, `Reaches.yields`: **every deed was made, every operation waits and
  every operation ends at a point of its course**.
* `World.ends`: **every operation that waits comes to an end**, however it is answered.
-/

namespace StateEngine

variable {κ φ α β : Type} {m : Machine κ φ}

/-- How requests are answered: what is asked in a scene, the reply, and the scene in which the operation
that asked goes on. -/
abbrev Response (κ φ : Type) :=
  (request : Request κ φ) → Scene κ φ → request.Reply → Scene κ φ → Prop

/-- A list is no prefix of a shorter one. -/
theorem not_concat_prefix {l : List α} {a : α} : ¬ l ++ [a] <+: l := fun h =>
  absurd h.length_le (by simp)

/-- Of two prefixes of a list that end after an element each, one comes first. -/
theorem prefix_concat_cases {l l' t : List α} {a b : α} (h : l <+: l') (ha : l ++ [a] <+: t)
    (hb : l' ++ [b] <+: t) : (l = l' ∧ a = b) ∨ l ++ [a] <+: l' := by
  rcases List.prefix_or_prefix_of_prefix ha hb with hab | hba
  · rcases List.prefix_concat_iff.1 hab with heq | hlt
    · obtain ⟨hl, hab⟩ := List.append_inj' heq rfl
      exact .inl ⟨hl, List.singleton_inj.1 hab⟩
    · exact .inr hlt
  · rcases List.prefix_concat_iff.1 hba with heq | hlt
    · obtain ⟨hl, hab⟩ := List.append_inj' heq rfl
      exact .inl ⟨hl.symm, (List.singleton_inj.1 hab).symm⟩
    · exact absurd (hlt.trans h) not_concat_prefix

namespace Program

/-- Whether a program that goes on in a scene comes to a point, in another scene. -/
inductive Goes (R : Response κ φ) :
    Program κ φ α → Scene κ φ → Program κ φ α → Scene κ φ → Prop where
  | refl (p : Program κ φ α) (s : Scene κ φ) : Goes R p s p s
  | look {next : Machine κ φ → Program κ φ α} {q : Program κ φ α} {s s' : Scene κ φ} :
      Goes R (next s.machine) s q s' → Goes R (.look next) s q s'
  | change {c : Change φ} {next q : Program κ φ α} {s s' : Scene κ φ} :
      Goes R next (s.make c) q s' → Goes R (.change c next) s q s'
  | ask {request : Request κ φ} {resume : request.Reply → Program κ φ α} {q : Program κ φ α}
      {s s₁ s' : Scene κ φ} {reply : request.Reply} :
      R request s reply s₁ → Goes R (resume reply) s₁ q s' → Goes R (.ask request resume) s q s'

variable {R : Response κ φ}

theorem Goes.trans {p q r : Program κ φ α} {s s₁ s₂ : Scene κ φ} (h : p.Goes R s q s₁)
    (h' : q.Goes R s₁ r s₂) : p.Goes R s r s₂ := by
  induction h with
  | refl p s => exact h'
  | look _ ih => exact .look (ih h')
  | change _ ih => exact .change (ih h')
  | ask hr _ ih => exact .ask hr (ih h')

theorem Goes.bind {p q : Program κ φ α} {s s' : Scene κ φ} (h : p.Goes R s q s')
    (f : α → Program κ φ β) : (p >>= f).Goes R s (q >>= f) s' := by
  induction h with
  | refl p s => exact .refl _ s
  | look _ ih => exact .look ih
  | change _ ih => exact .change ih
  | ask hr _ ih => exact .ask hr ih

theorem Goes.of_look {f : Machine κ φ → Program κ φ α} {q : Program κ φ α} {s s' : Scene κ φ}
    (h : (f s.machine).Goes R s q s') : (StateEngine.look >>= f).Goes R s q s' := .look h

/-- Whether something holds at each point that a program comes to: where it changes the machine, asks,
or is done. -/
def Each (R : Response κ φ) (P : Program κ φ α → Scene κ φ → Prop) :
    Program κ φ α → Scene κ φ → Prop
  | .done a, s => P (.done a) s
  | .look next, s => (next s.machine).Each R P s
  | .change c next, s => P (.change c next) s ∧ next.Each R P (s.make c)
  | .ask request resume, s =>
    P (.ask request resume) s ∧
      ∀ reply s₁, R request s reply s₁ → (resume reply).Each R P s₁

/-- What is to hold at the points of a program so that something holds at those of another one that
follows it with more. -/
def Then (R : Response κ φ) (P : Program κ φ β → Scene κ φ → Prop) (f : α → Program κ φ β) :
    Program κ φ α → Scene κ φ → Prop
  | .done a, s => (f a).Each R P s
  | .look _, _ => True
  | .change c next, s => P (.change c (next.bind f)) s
  | .ask request resume, s => P (.ask request fun reply => (resume reply).bind f) s

theorem Each.bind {P : Program κ φ β → Scene κ φ → Prop} {f : α → Program κ φ β}
    {p : Program κ φ α} : ∀ {s : Scene κ φ}, p.Each R (Then R P f) s → (p >>= f).Each R P s := by
  induction p with
  | done a => intro s h; exact h
  | look next ih => intro s h; exact ih s.machine h
  | change c next ih => intro s h; exact ⟨h.1, ih h.2⟩
  | ask request resume ih => intro s h; exact ⟨h.1, fun reply s₁ hr => ih reply (h.2 reply s₁ hr)⟩

theorem Each.look {P : Program κ φ α → Scene κ φ → Prop} {f : Machine κ φ → Program κ φ α}
    {s : Scene κ φ} (h : (f s.machine).Each R P s) : (StateEngine.look >>= f).Each R P s := h

theorem Each.make {P : Program κ φ α → Scene κ φ → Prop} {c : Change φ} {f : Unit → Program κ φ α}
    {s : Scene κ φ} (hc : P (.change c (f ())) s) (h : (f ()).Each R P (s.make c)) :
    (StateEngine.make c >>= f).Each R P s := ⟨hc, h⟩

theorem Each.mono {P P' : Program κ φ α → Scene κ φ → Prop} (hP : ∀ q s, P q s → P' q s)
    {p : Program κ φ α} : ∀ {s : Scene κ φ}, p.Each R P s → p.Each R P' s := by
  induction p with
  | done a => intro s h; exact hP _ s h
  | look next ih => intro s h; exact ih s.machine h
  | change c next ih => intro s h; exact ⟨hP _ s h.1, ih h.2⟩
  | ask request resume ih =>
    intro s h
    exact ⟨hP _ s h.1, fun reply s₁ hr => ih reply (h.2 reply s₁ hr)⟩

theorem Each.and {P P' : Program κ φ α → Scene κ φ → Prop} {p : Program κ φ α} :
    ∀ {s : Scene κ φ}, p.Each R P s → p.Each R P' s → p.Each R (fun q s => P q s ∧ P' q s) s := by
  induction p with
  | done a => intro s h h'; exact ⟨h, h'⟩
  | look next ih => intro s h h'; exact ih s.machine h h'
  | change c next ih => intro s h h'; exact ⟨⟨h.1, h'.1⟩, ih h.2 h'.2⟩
  | ask request resume ih =>
    intro s h h'
    exact ⟨⟨h.1, h'.1⟩, fun reply s₁ hr => ih reply (h.2 reply s₁ hr) (h'.2 reply s₁ hr)⟩

/-- What holds at each point from one point on holds at each point from any later one on. -/
theorem Each.goes {P : Program κ φ α → Scene κ φ → Prop} {p q : Program κ φ α} {s s' : Scene κ φ}
    (h : p.Each R P s) (hg : p.Goes R s q s') : q.Each R P s' := by
  induction hg with
  | refl p s => exact h
  | look _ ih => exact ih h
  | change _ ih => exact ih h.2
  | ask hr _ ih => exact ih (h.2 _ _ hr)

/-- The points of a program, together with how it came to them. -/
theorem Each.course {P : Program κ φ α → Scene κ φ → Prop} {p : Program κ φ α} :
    ∀ {s : Scene κ φ}, p.Each R P s → p.Each R (fun q s' => P q s' ∧ p.Goes R s q s') s := by
  induction p with
  | done a => intro s h; exact ⟨h, .refl _ s⟩
  | look next ih =>
    intro s h
    exact (ih s.machine h).mono fun q s' hq => ⟨hq.1, .look hq.2⟩
  | change c next ih =>
    intro s h
    exact ⟨⟨h.1, .refl _ s⟩, (ih h.2).mono fun q s' hq => ⟨hq.1, .change hq.2⟩⟩
  | ask request resume ih =>
    intro s h
    refine ⟨⟨h.1, .refl _ s⟩, fun reply s₁ hr => ?_⟩
    exact (ih reply (h.2 reply s₁ hr)).mono fun q s' hq => ⟨hq.1, .ask hr hq.2⟩

/-- A program that makes only some changes and notifies nobody, and what is known of the scene meanwhile. -/
theorem Within.each {Q : Change φ → Prop} {post : α → Prop} {I : Scene κ φ → Prop}
    (hmake : ∀ s c, I s → Q c → I (s.make c))
    (hask : ∀ request s reply s₁, R request s reply s₁ → I s → I s₁) {p : Program κ φ α}
    (h : p.Within Q post) :
    ∀ {s : Scene κ φ}, I s → p.Each R (fun q s' => I s' ∧ q.Within Q post) s := by
  induction p with
  | done a => intro s hs; exact ⟨hs, h⟩
  | look next ih => intro s hs; exact ih s.machine (h s.machine) hs
  | change c next ih => intro s hs; exact ⟨⟨hs, h⟩, ih h.2 (hmake s c hs h.1)⟩
  | ask request resume ih =>
    intro s hs
    exact ⟨⟨hs, h⟩, fun reply s₁ hr => ih reply (h.2 reply) (hask request s reply s₁ hr hs)⟩

end Program

/-! ## Amid other operations -/

/-- While an operation waits, others may do anything in the same run but touch the future that it
holds. -/
def Amid (m : Machine κ φ) (own : Option FutureId) : Response κ φ := fun request s _ s₁ =>
  Trail m s₁ ∧ Rely own s.machine s₁.machine ∧ (s.ask request).trace <+: s₁.trace

/-- A safe program is safe at each point, and all of them lie in the same run. -/
theorem Program.Safe.each {own : Option FutureId} {post : α → Scene κ φ → Prop}
    {p : Program κ φ α} :
    ∀ {s : Scene κ φ}, p.Safe own post s → Trail m s →
      p.Each (Amid m own) (fun q s' => Trail m s' ∧ q.Safe own post s') s := by
  induction p with
  | done a => intro s h ht; exact ⟨ht, h⟩
  | look next ih => intro s h ht; exact ih s.machine h ht
  | change c next ih => intro s h ht; exact ⟨⟨ht, h⟩, ih h.2 (ht.make h.1)⟩
  | ask request resume ih =>
    intro s h ht
    refine ⟨⟨ht, h⟩, fun reply s₁ ⟨ht₁, hr, hp⟩ => ih reply ?_ ht₁⟩
    exact h.2.2 s₁ hr ((List.prefix_append _ _).trans hp) reply

theorem Program.Goes.trace_prefix {own : Option FutureId} {p q : Program κ φ α} {s s' : Scene κ φ}
    (h : p.Goes (Amid m own) s q s') : s.trace <+: s'.trace := by
  induction h with
  | refl p s => exact List.prefix_rfl
  | look _ ih => exact ih
  | change _ ih => exact (List.prefix_append _ _).trans ih
  | ask hr _ ih => exact ((List.prefix_append _ _).trans hr.2.2).trans ih

/-- **Whether an operation comes to a point** in some run. -/
def Course (m : Machine κ φ) (op : Operation) (q : Program κ φ op.Result) (s : Scene κ φ) : Prop :=
  ∃ w, Reaches m w ∧ op.program.Goes (Amid m op.own) w.scene q s

theorem Course.goes {op : Operation} {q r : Program κ φ op.Result} {s s' : Scene κ φ}
    (h : Course m op q s) (hg : q.Goes (Amid m op.own) s r s') : Course m op r s' := by
  obtain ⟨w, hw, hq⟩ := h
  exact ⟨w, hw, hq.trans hg⟩

/-- What holds at each point of an operation, wherever it starts in a run. -/
theorem Course.each {op : Operation} {P : Program κ φ op.Result → Scene κ φ → Prop}
    (hP : ∀ s, Trail m s → op.program.Each (Amid m op.own) P s) {q : Program κ φ op.Result}
    {s : Scene κ φ} (h : Course m op q s) : q.Each (Amid m op.own) P s := by
  obtain ⟨w, hw, hq⟩ := h
  exact (hP w.scene hw.sound.trail).goes hq

/-- Every point of an operation lies in the run, and the operation is safe there. -/
theorem Course.safe {op : Operation} {q : Program κ φ op.Result} {s : Scene κ φ}
    (h : Course m op q s) :
    q.Each (Amid m op.own) (fun q s => Trail m s ∧ q.Safe op.own (fun _ _ => True) s) s :=
  h.each fun s ht => (op.safe s).each ht

/-! ## One move -/

/-- What a program comes to that asks for nothing. -/
def Program.outcome? : Program κ φ α → Machine κ φ → Option α
  | .done a, _ => some a
  | .look next, m => (next m).outcome? m
  | .change c next, m => next.outcome? (c.apply m)
  | .ask _ _, _ => none

namespace World

/-- **A move in which an operation ends**, with what it comes to. -/
inductive Yields : (op : Operation) → World κ φ → op.Result → World κ φ → Prop where
  | start (op : Operation) {w : World κ φ} {result : op.Result} :
      op.program.outcome? w.machine = some result → Yields op w result (w.begin op)
  | answer {scene : Scene κ φ} {newer : List (Waiting κ φ)} {x : Waiting κ φ}
      {older : List (Waiting κ φ)} {reply : x.request.Reply} {result : x.operation.Result} :
      (x.resume reply).outcome? scene.machine = some result →
      Yields x.operation ⟨scene, newer ++ x :: older⟩ result
        (proceed x.operation (x.resume reply) ⟨scene, newer ++ older⟩)

theorem Yields.next {op : Operation} {w w' : World κ φ} {result : op.Result}
    (h : w.Yields op result w') : w.Next op w' := by
  cases h with
  | start op _ => exact .start op w
  | answer _ => exact .answer ..

variable {R : Response κ φ}

theorem proceed_outcome (op : Operation) {p : Program κ φ op.Result} {result : op.Result} :
    ∀ {w : World κ φ}, p.outcome? w.machine = some result →
      p.Goes R w.scene (.done result) (proceed op p w).scene := by
  induction p with
  | done a =>
    intro w h
    cases h
    exact .refl _ w.scene
  | look next ih => intro w h; exact .look (ih w.machine h)
  | change c next ih => intro w h; exact .change (ih (w := { w with scene := w.scene.make c }) h)
  | ask request resume _ => intro w h; exact nomatch h

/-- An operation that goes on is done, or it waits where it comes to a request. -/
theorem proceed_waits (op : Operation) {p : Program κ φ op.Result} :
    ∀ {w : World κ φ},
      ((proceed op p w).waiting = w.waiting ∧ ∃ result, p.outcome? w.machine = some result) ∨
        ∃ request resume s, (proceed op p w).waiting = ⟨op, request, resume⟩ :: w.waiting ∧
          (proceed op p w).scene = s.ask request ∧ p.Goes R w.scene (.ask request resume) s := by
  induction p with
  | done a => intro w; exact .inl ⟨rfl, a, rfl⟩
  | look next ih =>
    intro w
    rcases ih w.machine (w := w) with h | ⟨request, resume, s, hw, hs, hg⟩
    · exact .inl h
    · exact .inr ⟨request, resume, s, hw, hs, .look hg⟩
  | change c next ih =>
    intro w
    rcases ih (w := { w with scene := w.scene.make c }) with h | ⟨request, resume, s, hw, hs, hg⟩
    · exact .inl h
    · exact .inr ⟨request, resume, s, hw, hs, .change hg⟩
  | ask request resume _ => intro w; exact .inr ⟨request, resume, w.scene, rfl, rfl, .refl _ w.scene⟩

/-- Operations that wait go on waiting while another one moves. -/
theorem proceed_subset (op : Operation) (p : Program κ φ op.Result) (w : World κ φ) :
    w.waiting ⊆ (proceed op p w).waiting := by
  rcases proceed_waits (R := fun _ _ _ _ => True) op (p := p) (w := w) with
    ⟨hw, -⟩ | ⟨request, resume, s, hw, -⟩
  · rw [hw]
    exact fun _ hx => hx
  · rw [hw]
    exact List.subset_cons_self _ _

theorem trace_proceed (op : Operation) {p : Program κ φ op.Result} :
    ∀ {w : World κ φ}, w.trace <+: (proceed op p w).trace := by
  induction p with
  | done a => intro w; exact List.prefix_rfl
  | look next ih => intro w; exact ih w.machine
  | change c next ih =>
    intro w
    exact (List.prefix_append _ _).trans (ih (w := { w with scene := w.scene.make c }))
  | ask request resume _ => intro w; exact List.prefix_append _ _

/-- A deed that a move adds was made where the operation came to it, and the move goes on from there. -/
theorem proceed_made {op : Operation} {p : Program κ φ op.Result} :
    ∀ {w : World κ φ} {s : Scene κ φ} {c : Change φ}, w.trace <+: s.trace →
      (s.make c).trace <+: (proceed op p w).trace →
      ∃ next, p.Goes R w.scene (.change c next) s ∧
        proceed op p w = proceed op next ⟨s.make c, w.waiting⟩ ∧
        p.outcome? w.machine = next.outcome? (s.make c).machine := by
  induction p with
  | done a => intro w s c hw hd; exact absurd (hd.trans hw) not_concat_prefix
  | look next ih =>
    intro w s c hw hd
    obtain ⟨q, hq, hp, ho⟩ := ih w.machine hw hd
    exact ⟨q, .look hq, hp, ho⟩
  | change c' next ih =>
    intro w s c hw hd
    have hfirst : w.trace ++ [.changed w.machine c'] <+: (proceed op (.change c' next) w).trace :=
      trace_proceed op (p := next) (w := { w with scene := w.scene.make c' })
    rcases prefix_concat_cases hw hfirst hd with ⟨htrace, heq⟩ | hlater
    · obtain ⟨machine, trace⟩ := s
      cases htrace
      cases heq
      exact ⟨next, .refl _ w.scene, rfl, rfl⟩
    · obtain ⟨q, hq, hp, ho⟩ := ih (w := { w with scene := w.scene.make c' }) hlater hd
      exact ⟨q, .change hq, hp, ho⟩
  | ask request resume _ =>
    intro w s c hw hd
    rcases prefix_concat_cases hw (List.prefix_rfl : w.trace ++ [.asked request] <+: _) hd with
      ⟨-, hd⟩ | hlater
    · exact nomatch hd
    · exact absurd (hd.trans hlater) not_concat_prefix

end World

/-! ## Runs -/

/-- Where an operation waits: it came to the request there, and others did the rest. -/
def Waiting.At (m : Machine κ φ) (x : Waiting κ φ) (s : Scene κ φ) : Prop :=
  ∃ s₀, Course m x.operation (.ask x.request x.resume) s₀ ∧
    Rely x.own s₀.machine s.machine ∧ (s₀.ask x.request).trace <+: s.trace

theorem Waiting.At.path {x : Waiting κ φ} {s s' : Scene κ φ} (h : x.At m s)
    (hr : Rely x.own s.machine s'.machine) (hp : s.trace <+: s'.trace) : x.At m s' := by
  obtain ⟨s₀, hc, hr₀, hp₀⟩ := h
  exact ⟨s₀, hc, hr₀.trans hr, hp₀.trans hp⟩

/-- An operation that is answered goes on from where it waits. -/
theorem Waiting.At.resume {x : Waiting κ φ} {s : Scene κ φ} (h : x.At m s) (ht : Trail m s)
    (reply : x.request.Reply) : Course m x.operation (x.resume reply) s := by
  obtain ⟨s₀, hc, hr, hp⟩ := h
  exact hc.goes (.ask ⟨ht, hr, hp⟩ (.refl _ s))

/-- The operations that wait after a move: those that did before, and perhaps the one that moved. -/
theorem World.proceed_at {w : World κ φ} {op : Operation} {p : Program κ φ op.Result}
    (hat : ∀ x ∈ w.waiting, x.At m w.scene)
    (hrely : ∀ x ∈ w.waiting, Rely x.own w.machine (w.proceed op p).machine)
    (hc : Course m op p w.scene) : ∀ x ∈ (w.proceed op p).waiting, x.At m (w.proceed op p).scene := by
  have hold : ∀ x ∈ w.waiting, x.At m (w.proceed op p).scene := fun x hx =>
    (hat x hx).path (hrely x hx) (World.trace_proceed op)
  rcases World.proceed_waits (R := Amid m op.own) op (p := p) (w := w) with
    ⟨hw, -⟩ | ⟨request, resume, s, hw, hs, hg⟩
  · rw [hw]
    exact hold
  · rw [hw]
    refine List.forall_mem_cons.2 ⟨⟨s, hc.goes hg, ?_, ?_⟩, hold⟩
    · rw [hs]
      exact .refl _ s.machine
    · exact hs ▸ List.prefix_rfl

/-- **Every operation waits at a point of its course.** -/
theorem Reaches.waits {w : World κ φ} (h : Reaches m w) : ∀ x ∈ w.waiting, x.At m w.scene := by
  induction h with
  | start => exact fun x hx => nomatch hx
  | @next op w w' hw hn ih =>
    have hsound := hw.sound
    have hpath := hw.path hn
    cases hn with
    | start =>
      have hc : Course m op op.program w.scene := ⟨w, hw, .refl _ w.scene⟩
      refine World.proceed_at ih (fun x hx => ?_) hc
      rcases hsound.begin_cases op with hidle | hapart
      · rw [show w.proceed op op.program = w from hidle]
        exact .refl x.own w.machine
      · exact hpath.rely fun f hf => ⟨(hsound.safe x hx).held f hf, hapart x hx f hf⟩
    | answer scene newer x older reply =>
      have hx := (ih x (by simp)).resume hsound.trail reply
      obtain ⟨hrest, hapart⟩ := hsound.without
      have hsub : newer ++ older ⊆ newer ++ x :: older := (List.sublist_cons_self x older).append_left newer |>.subset
      refine World.proceed_at (fun y hy => ih y (hsub hy)) (fun y hy => ?_) hx
      exact hpath.rely fun f hf => ⟨(hrest.safe y hy).held f hf, hapart y hy f hf⟩

/-- **A deed of a move was made at a point of the operation that moves**, which goes on from there. -/
theorem Reaches.moved {w w' : World κ φ} (h : Reaches m w) {op : Operation} (hn : w.Next op w')
    {s : Scene κ φ} {c : Change φ} (hs : w.trace <+: s.trace) (hd : (s.make c).trace <+: w'.trace) :
    ∃ next waiting, Course m op (.change c next) s ∧
      w' = World.proceed op next ⟨s.make c, waiting⟩ ∧
      ∀ result, next.outcome? (s.make c).machine = some result → w.Yields op result w' := by
  cases hn with
  | start =>
    obtain ⟨next, hg, hp, ho⟩ := World.proceed_made (R := Amid m op.own) hs hd
    exact ⟨next, w.waiting, ⟨w, h, hg⟩, hp, fun result hr => .start op (ho.trans hr)⟩
  | answer scene newer x older reply =>
    have hx := (h.waits x (by simp)).resume h.sound.trail reply
    obtain ⟨next, hg, hp, ho⟩ :=
      World.proceed_made (R := Amid m x.own) (w := ⟨scene, newer ++ older⟩) hs hd
    exact ⟨next, newer ++ older, hx.goes hg, hp, fun result hr => .answer (ho.trans hr)⟩

/-- Whether an operation made a change in a scene, in one of the moves up to some point of a run. -/
def Made (m : Machine κ φ) (w : World κ φ) (op : Operation) (s : Scene κ φ) (c : Change φ) : Prop :=
  ∃ u u', Reaches m u ∧ u.Next op u' ∧ u.trace <+: s.trace ∧ (s.make c).trace <+: u'.trace ∧
    u'.trace <+: w.trace

/-- **Every deed was made in a move.** -/
theorem Reaches.made_in {w : World κ φ} (h : Reaches m w) {s : Scene κ φ} {c : Change φ}
    (hd : (s.make c).trace <+: w.trace) : ∃ op, Made m w op s c := by
  induction h with
  | start => exact absurd (hd.trans (List.nil_prefix : [] <+: s.trace)) not_concat_prefix
  | @next op w w' hw hn ih =>
    have hgrows : w.trace <+: w'.trace := Path.trace_prefix (hw.path hn)
    have hold : (s.make c).trace <+: w.trace → ∃ op, Made m w' op s c := by
      intro h
      obtain ⟨op, u, u', hu, hnext, hs, hmade, hbefore⟩ := ih h
      exact ⟨op, u, u', hu, hnext, hs, hmade, hbefore.trans hgrows⟩
    -- a deed is an old one, or the move that was made last came to it
    rcases List.prefix_or_prefix_of_prefix hd hgrows with h | hnew
    · exact hold h
    rcases List.prefix_concat_iff.1 hnew with heq | hbefore
    · exact hold (show s.trace ++ _ <+: w.scene.trace from heq ▸ List.prefix_rfl)
    · exact ⟨op, w, w', hw, hn, hbefore, hd, List.prefix_rfl⟩

/-- **Every deed was made at a point of an operation.** -/
theorem Reaches.made {w : World κ φ} (h : Reaches m w) {s : Scene κ φ} {c : Change φ}
    (hd : (s.make c).trace <+: w.trace) : ∃ op next, Course m op (.change c next) s := by
  obtain ⟨op, u, u', hu, hn, hs, hmade, -⟩ := h.made_in hd
  obtain ⟨next, -, hc, -⟩ := hu.moved hn hs hmade
  exact ⟨op, next, hc⟩

/-- **Every operation that ends does so at the end of its course.** -/
theorem Reaches.yields {w w' : World κ φ} (h : Reaches m w) {op : Operation} {result : op.Result}
    (hy : w.Yields op result w') : Course m op (.done result) w'.scene := by
  cases hy with
  | start op ho => exact ⟨w, h, World.proceed_outcome op ho⟩
  | @answer scene newer x older reply _ ho =>
    have hx := (h.waits x (by simp)).resume h.sound.trail reply
    exact hx.goes (World.proceed_outcome x.operation (w := ⟨scene, newer ++ older⟩) ho)

/-! ## Ends -/

/-- Whether a program can only come to some results. -/
def Program.Gives (post : α → Prop) : Program κ φ α → Prop
  | .done a => post a
  | .look next => ∀ machine, (next machine).Gives post
  | .change _ next => next.Gives post
  | .ask _ resume => ∀ reply, (resume reply).Gives post

theorem Program.Gives.bind {post : β → Prop} {f : α → Program κ φ β} (hf : ∀ a, (f a).Gives post)
    (p : Program κ φ α) : (p >>= f).Gives post := by
  induction p with
  | done a => exact hf a
  | look next ih => exact ih
  | change _ next ih => exact ih
  | ask _ resume ih => exact ih

theorem Program.Gives.outcome {post : α → Prop} {a : α} {p : Program κ φ α} :
    ∀ {machine : Machine κ φ}, p.Gives post → p.outcome? machine = some a → post a := by
  induction p with
  | done b =>
    intro machine h ho
    cases ho
    exact h
  | look next ih => intro machine h ho; exact ih machine (h machine) ho
  | change c next ih => intro machine h ho; exact ih h ho
  | ask request resume _ => intro machine _ ho; exact nomatch ho

theorem Program.Gives.each {R : Response κ φ} {post : α → Prop} {p : Program κ φ α} :
    ∀ {s : Scene κ φ}, p.Gives post → p.Each R (fun q _ => q.Gives post) s := by
  induction p with
  | done a => intro s h; exact h
  | look next ih => intro s h; exact ih s.machine (h s.machine)
  | change c next ih => intro s h; exact ⟨h, ih h⟩
  | ask request resume ih => intro s h; exact ⟨h, fun reply s₁ _ => ih reply (h reply)⟩

/-- Whether one world becomes another by answers alone, all of them as a host knows them. -/
inductive World.Served (answers : (request : Request κ φ) → request.Reply) :
    World κ φ → World κ φ → Prop where
  | refl (w : World κ φ) : Served answers w w
  | answer (scene : Scene κ φ) (newer : List (Waiting κ φ)) (x : Waiting κ φ) (older : List (Waiting κ φ))
      {w : World κ φ} :
      Served answers (proceed x.operation (x.resume (answers x.request)) ⟨scene, newer ++ older⟩) w →
      Served answers ⟨scene, newer ++ x :: older⟩ w

variable {answers : (request : Request κ φ) → request.Reply}

theorem Reaches.served {w w' : World κ φ} (h : Reaches m w) (hs : w.Served answers w') :
    Reaches m w' := by
  induction hs with
  | refl w => exact h
  | answer scene newer x older _ ih => exact ih (h.next (.answer scene newer x older _))

/-- An operation that goes on ends in its move, or once it is answered often enough. -/
theorem World.proceed_ends (answers : (request : Request κ φ) → request.Reply) {op : Operation}
    {post : op.Result → Prop} (p : Program κ φ op.Result) :
    ∀ {w : World κ φ}, p.Gives post →
      (∃ result, p.outcome? w.machine = some result ∧ post result) ∨
        ∃ u result w', (proceed op p w).Served answers u ∧ u.Yields op result w' ∧
          u.Served answers w' ∧ post result := by
  induction p with
  | done a => intro w hp; exact .inl ⟨a, rfl, hp⟩
  | look next ih => intro w hp; exact ih w.machine (hp w.machine)
  | change c next ih => intro w hp; exact ih (w := { w with scene := w.scene.make c }) hp
  | ask request resume ih =>
    intro w hp
    right
    have hserved : ∀ {w'}, Served answers (proceed op (resume (answers request))
        ⟨w.scene.ask request, w.waiting⟩) w' → Served answers (proceed op (.ask request resume) w) w' :=
      .answer (w.scene.ask request) [] ⟨op, request, resume⟩ w.waiting
    rcases ih (answers request) (w := ⟨w.scene.ask request, w.waiting⟩) (hp _) with
      ⟨result, ho, hpost⟩ | ⟨u, result, w', hu, hy, hw', hpost⟩
    · have hy : Yields op ⟨w.scene.ask request, [] ++ ⟨op, request, resume⟩ :: w.waiting⟩ result _ :=
        .answer (x := ⟨op, request, resume⟩) ho
      exact ⟨_, result, _, .refl _, hy, hserved (.refl _), hpost⟩
    · exact ⟨u, result, w', hserved hu, hy, hw', hpost⟩

/-- **Every operation that waits comes to an end**, however it is answered. -/
theorem World.ends (answers : (request : Request κ φ) → request.Reply) {w : World κ φ}
    {x : Waiting κ φ} (hx : x ∈ w.waiting) {post : x.operation.Result → Prop}
    (hp : ∀ reply, (x.resume reply).Gives post) :
    ∃ u result w', w.Served answers u ∧ u.Yields x.operation result w' ∧ u.Served answers w' ∧
      post result := by
  obtain ⟨scene, waiting⟩ := w
  obtain ⟨newer, older, rfl⟩ := List.append_of_mem hx
  have hserved : ∀ {w'}, Served answers (proceed x.operation (x.resume (answers x.request))
      ⟨scene, newer ++ older⟩) w' → Served answers ⟨scene, newer ++ x :: older⟩ w' :=
    .answer scene newer x older
  rcases World.proceed_ends answers (x.resume (answers x.request)) (w := ⟨scene, newer ++ older⟩)
    (hp _) with ⟨result, ho, hpost⟩ | ⟨u, result, w', hu, hy, hw', hpost⟩
  · exact ⟨_, result, _, .refl _, .answer ho, hserved (.refl _), hpost⟩
  · exact ⟨u, result, w', hserved hu, hy, hw', hpost⟩

end StateEngine
