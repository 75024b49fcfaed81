import StateEngine.Proofs.Dispatching

/-!
# Runs

Whatever a host does with a machine, in whatever order and from inside whatever request, the deeds of
all operations together are steps that `Allowed` knows. An invariant of runs is therefore proved once
for each kind of change (`Trail.induct`), and never for each operation or for each interleaving.

* `Path`: the deeds of one move, all by the same operation.
* `World.Sound`: the operations that wait are safe, and no two of them hold the same future.
* `Reaches.sound`, `Reaches.path`: **every reachable world is sound**, and every move is a path.
* `Trail.induct`, `Trail.later`: invariants of runs, from their start or from some point on.
-/

namespace StateEngine

variable {κ φ : Type} {m : Machine κ φ}

/-- The deeds of an operation, one after the other. -/
inductive Path (own : Option FutureId) : Scene κ φ → Scene κ φ → Prop where
  | refl (s : Scene κ φ) : Path own s s
  | make {s s' : Scene κ φ} {c : Change φ} :
      Allowed s.machine own c → Path own (s.make c) s' → Path own s s'
  | ask {s s' : Scene κ φ} {request : Request κ φ} :
      Announced s.trace request → Path own (s.ask request) s' → Path own s s'

/-- The deeds of any operations since the machine was made. -/
inductive Trail (m : Machine κ φ) : Scene κ φ → Prop where
  | start : Trail m ⟨m, []⟩
  | make {s : Scene κ φ} {own : Option FutureId} {c : Change φ} :
      Trail m s → Allowed s.machine own c → Trail m (s.make c)
  | ask {s : Scene κ φ} {request : Request κ φ} :
      Trail m s → Announced s.trace request → Trail m (s.ask request)

theorem Trail.path {own : Option FutureId} {s s' : Scene κ φ} (h : Trail m s) (hp : Path own s s') : Trail m s' := by
  induction hp with
  | refl s => exact h
  | make hc _ ih => exact ih (h.make hc)
  | ask hr _ ih => exact ih (h.ask hr)

theorem Trail.definition_eq {s : Scene κ φ} (h : Trail m s) :
    s.machine.definition = m.definition := by
  induction h with
  | start => rfl
  | make _ _ ih => exact (Change.definition_apply _).trans ih
  | ask _ _ ih => exact ih

theorem Trail.targetName_eq {s : Scene κ φ} (h : Trail m s) :
    s.machine.targetName = m.targetName := by
  induction h with
  | start => rfl
  | make _ _ ih => exact (Change.targetName_apply _).trans ih
  | ask _ _ ih => exact ih

theorem Trail.idText_eq {s : Scene κ φ} (h : Trail m s) : s.machine.idText = m.idText := by
  induction h with
  | start => rfl
  | make _ _ ih => exact (Change.idText_apply _).trans ih
  | ask _ _ ih => exact ih

theorem Path.grows {own : Option FutureId} {s s' : Scene κ φ} (h : Path own s s') :
    s.machine.Grows s'.machine := by
  induction h with
  | refl s => exact .of_eq rfl
  | make _ _ ih => exact (Change.grows _).trans ih
  | ask _ _ ih => exact ih

/-- Nothing that was done is forgotten. -/
theorem Path.trace_prefix {own : Option FutureId} {s s' : Scene κ φ} (h : Path own s s') : s.trace <+: s'.trace := by
  induction h with
  | refl s => exact List.prefix_rfl
  | make _ _ ih => exact (List.prefix_append _ _).trans ih
  | ask _ _ ih => exact (List.prefix_append _ _).trans ih

/-- An operation can count on what others leave alone. -/
theorem Path.rely {own other : Option FutureId} {s s' : Scene κ φ} (h : Path own s s')
    (ho : ∀ f, other = some f → s.machine.Held f ∧ own ≠ some f) :
    Rely other s.machine s'.machine := by
  induction h with
  | refl s => exact .refl other s.machine
  | make hc _ ih =>
    -- the other operation still holds its future after the step, for its slot is the same
    have hr := hc.rely ho
    exact hr.trans (ih fun f hf => ⟨(ho f hf).1.of_slot (hr.slot f hf), (ho f hf).2⟩)
  | ask _ _ ih => exact ih ho

/-! ## Operations that wait -/

theorem Operation.own_eq_some {op : Operation} {f : FutureId} (h : op.own = some f) :
    op = .poll f := by
  cases op with
  | poll g => rw [Option.some.inj h]
  | _ => exact nomatch h

/-- The future that a waiting operation holds. -/
def Waiting.own (x : Waiting κ φ) : Option FutureId := x.operation.own

/-- Whether a waiting operation holds its future, and is safe whatever it is answered, and however
others change the machine until then. -/
structure Waiting.Safe (x : Waiting κ φ) (s : Scene κ φ) : Prop where
  held : ∀ f, x.own = some f → s.machine.Held f
  resume : ∀ s' : Scene κ φ, Rely x.own s.machine s'.machine → s.trace <+: s'.trace →
    ∀ reply, (x.resume reply).Safe x.own (fun _ _ => True) s'

/-- Whether two waiting operations hold no future in common. -/
def Waiting.Apart (x y : Waiting κ φ) : Prop := ∀ f, x.own = some f → y.own ≠ some f

theorem Waiting.Apart.symm {x y : Waiting κ φ} (h : x.Apart y) : y.Apart x :=
  fun f hy hx => h f hx hy

/-- What others do keeps a waiting operation safe. -/
theorem Waiting.Safe.path {x : Waiting κ φ} {own : Option FutureId} {s s' : Scene κ φ}
    (h : x.Safe s) (hp : Path own s s') (hx : ∀ f, x.own = some f → own ≠ some f) : x.Safe s' := by
  have hr := hp.rely fun f hf => ⟨h.held f hf, hx f hf⟩
  exact ⟨fun f hf => (h.held f hf).of_slot (hr.slot f hf),
    fun s'' hs ht => h.resume s'' (hr.trans hs) (hp.trace_prefix.trans ht)⟩

namespace World

/-- **What holds of a world at every point of every run.** -/
structure Sound (m : Machine κ φ) (w : World κ φ) : Prop where
  trail : Trail m w.scene
  safe : ∀ x ∈ w.waiting, x.Safe w.scene
  apart : w.waiting.Pairwise Waiting.Apart

/-- An operation that goes on leaves a path behind, and waits at its end if it is not done. -/
theorem proceed_path (op : Operation) (p : Program κ φ op.Result) :
    ∀ w : World κ φ, p.Safe op.own (fun _ _ => True) w.scene →
      Path op.own w.scene (proceed op p w).scene ∧
        ((proceed op p w).waiting = w.waiting ∨
          ∃ x : Waiting κ φ, (proceed op p w).waiting = x :: w.waiting ∧ x.own = op.own ∧
            x.Safe (proceed op p w).scene) := by
  induction p with
  | done a => intro w _; exact ⟨.refl w.scene, .inl rfl⟩
  | look next ih => intro w h; exact ih w.machine w h
  | change c next ih =>
    intro w h
    obtain ⟨hp, hw⟩ := ih { w with scene := w.scene.make c } h.2
    exact ⟨.make h.1 hp, hw⟩
  | ask request resume _ =>
    intro w h
    -- the move ends here, and the rest of the program waits
    obtain ⟨ha, hh, hr⟩ := h
    exact ⟨.ask ha (.refl _), .inr ⟨⟨op, request, resume⟩, rfl, rfl, hh,
      fun s' hs ht => hr s' hs ((List.prefix_append _ _).trans ht)⟩⟩

/-- An operation goes on in a sound world, if no other one holds its future. -/
theorem Sound.proceed {w : World κ φ} (h : w.Sound m) {op : Operation} {p : Program κ φ op.Result}
    (hp : p.Safe op.own (fun _ _ => True) w.scene)
    (hw : ∀ x ∈ w.waiting, ∀ f, x.own = some f → op.own ≠ some f) :
    Path op.own w.scene (w.proceed op p).scene ∧ (w.proceed op p).Sound m := by
  obtain ⟨hpath, hwait⟩ := proceed_path op p w hp
  have hsafe : ∀ x ∈ w.waiting, x.Safe (w.proceed op p).scene :=
    fun x hx => (h.safe x hx).path hpath (hw x hx)
  -- the operation itself is safe at its next request, the others because they rely on no more
  refine ⟨hpath, h.trail.path hpath, ?_, ?_⟩
  · rcases hwait with e | ⟨x, e, -, hx⟩
    · rw [e]; exact hsafe
    · rw [e]; exact List.forall_mem_cons.2 ⟨hx, hsafe⟩
  · rcases hwait with e | ⟨x, e, hown, -⟩
    · rw [e]; exact h.apart
    · rw [e]
      refine List.pairwise_cons.2 ⟨fun y hy f hx hf => ?_, h.apart⟩
      exact hw y hy f hf (hown ▸ hx)

/-- Polling a future that is gone or is being polled already does nothing. -/
theorem begin_idle {w : World κ φ} {f : FutureId}
    (h : ∀ x, w.machine.future? f = some x → x.stage.isBusy = true) :
    w.begin (.poll f) = w := by
  simp only [begin, Operation.program, poll, look, bind, Program.bind, World.proceed]
  cases hf : w.machine.future? f with
  | none => rfl
  | some x => simp only [h x hf]; rfl

/-- An operation that starts holds no future of one that waits, unless it does nothing. -/
theorem Sound.begin_cases {w : World κ φ} (h : w.Sound m) (op : Operation) :
    w.begin op = w ∨ ∀ x ∈ w.waiting, ∀ f, x.own = some f → op.own ≠ some f := by
  by_cases hidle : ∃ f, op = .poll f ∧ ∀ x, w.machine.future? f = some x → x.stage.isBusy = true
  · obtain ⟨f, rfl, hf⟩ := hidle
    exact .inl (begin_idle hf)
  · refine .inr fun x hx f hxf hf => ?_
    -- the future is held by the operation that waits, so that polling it would have been idle
    refine hidle ⟨f, Operation.own_eq_some hf, fun y hy => ?_⟩
    obtain ⟨slot, hs, hb⟩ := (h.safe x hx).held f hxf
    have heq : some slot = some (some y) := hs.symm.trans (Machine.future_eq_some.1 hy)
    exact hb y (Option.some.inj heq)

/-- Without an operation that waits the others are as they were, and hold other futures. -/
theorem Sound.without {scene : Scene κ φ} {newer older : List (Waiting κ φ)} {x : Waiting κ φ}
    (h : Sound m ⟨scene, newer ++ x :: older⟩) :
    Sound m ⟨scene, newer ++ older⟩ ∧ ∀ y ∈ newer ++ older, ∀ f, y.own = some f → x.own ≠ some f := by
  have hapart := (List.pairwise_middle Waiting.Apart.symm).1 h.apart
  rw [List.pairwise_cons] at hapart
  have hsub : newer ++ older ⊆ newer ++ x :: older := (List.sublist_cons_self x older).append_left newer |>.subset
  exact ⟨⟨h.trail, fun y hy => h.safe y (hsub hy), hapart.2⟩, fun y hy f hf hxf => hapart.1 y hy f hxf hf⟩

/-- **Every move keeps a world sound**, and is a path of the operation that moves. -/
theorem Sound.next {w w' : World κ φ} {op : Operation} (h : w.Sound m) (hn : w.Next op w') :
    Path op.own w.scene w'.scene ∧ w'.Sound m := by
  cases hn with
  | start =>
    rcases h.begin_cases op with hidle | hapart
    · rw [hidle]
      exact ⟨.refl w.scene, h⟩
    · exact h.proceed (op.safe w.scene) hapart
  | answer scene newer x older reply =>
    have hx : x.Safe scene := h.safe x (by simp)
    obtain ⟨hrest, hapart⟩ := h.without
    exact hrest.proceed (hx.resume scene (.refl x.own scene.machine) List.prefix_rfl reply) hapart

end World

theorem Reaches.begin {w : World κ φ} (h : Reaches m w) (op : Operation) : Reaches m (w.begin op) :=
  h.next (.start op w)

/-- The youngest operation that waits is answered, by a host that knows an answer to every request. -/
def World.reply (answers : (request : Request κ φ) → request.Reply) (w : World κ φ) : World κ φ :=
  match w.waiting with
  | [] => w
  | x :: older => proceed x.operation (x.resume (answers x.request)) ⟨w.scene, older⟩

theorem World.next_reply {w : World κ φ} {op : Operation}
    (h : w.waiting.head?.map Waiting.operation = some op)
    (answers : (request : Request κ φ) → request.Reply) : w.Next op (w.reply answers) := by
  obtain ⟨scene, waiting⟩ := w
  cases waiting with
  | nil => exact nomatch h
  | cons x older =>
    cases h
    exact .answer scene [] x older (answers x.request)

/-- **Every reachable world is sound.** -/
theorem Reaches.sound {w : World κ φ} (h : Reaches m w) : w.Sound m := by
  induction h with
  | start => exact ⟨.start, fun _ h => (nomatch h), .nil⟩
  | next _ hn ih => exact (ih.next hn).2

theorem Reaches.path {w w' : World κ φ} {op : Operation} (h : Reaches m w) (hn : w.Next op w') :
    Path op.own w.scene w'.scene := (h.sound.next hn).1

/-- **Invariants of runs**: what holds at the start and is kept by each deed holds ever after. -/
theorem Trail.induct {I : Scene κ φ → Prop} (hstart : I ⟨m, []⟩)
    (hmake : ∀ s own c, I s → Allowed s.machine own c → I (s.make c))
    (hask : ∀ s request, I s → Announced s.trace request → I (s.ask request)) {s : Scene κ φ}
    (h : Trail m s) : I s := by
  induction h with
  | start => exact hstart
  | make _ hc ih => exact hmake _ _ _ ih hc
  | ask _ hr ih => exact hask _ _ ih hr

/-- The deeds tell the machine. -/
theorem Trail.scene_eq {s s' : Scene κ φ} (h : Trail m s) (h' : Trail m s') (ht : s.trace = s'.trace) :
    s = s' := by
  induction h generalizing s' with
  | start =>
    cases h' with
    | start => rfl
    | make _ _ => exact absurd ht.symm (List.append_ne_nil_of_right_ne_nil _ (List.cons_ne_nil _ _))
    | ask _ _ => exact absurd ht.symm (List.append_ne_nil_of_right_ne_nil _ (List.cons_ne_nil _ _))
  | @make s own c _ _ ih =>
    cases h' with
    | start => exact absurd ht (List.append_ne_nil_of_right_ne_nil _ (List.cons_ne_nil _ _))
    | make h' _ =>
      obtain ⟨hpre, hd⟩ := List.append_inj' ht rfl
      cases ih h' hpre
      cases hd
      rfl
    | ask _ _ => exact nomatch (List.append_inj' ht rfl).2
  | @ask s request _ _ ih =>
    cases h' with
    | start => exact absurd ht (List.append_ne_nil_of_right_ne_nil _ (List.cons_ne_nil _ _))
    | make _ _ => exact nomatch (List.append_inj' ht rfl).2
    | ask h' _ =>
      obtain ⟨hpre, hd⟩ := List.append_inj' ht rfl
      cases ih h' hpre
      cases hd
      rfl

/-- **Invariants from some point on**: what holds in a scene and is kept by each deed holds later in the
same run. -/
theorem Trail.later {I : Scene κ φ → Prop} {s s' : Scene κ φ} (hs : Trail m s) (hs' : Trail m s')
    (hp : s.trace <+: s'.trace)
    (hmake : ∀ s own c, Trail m s → I s → Allowed s.machine own c → I (s.make c))
    (hask : ∀ s request, I s → I (s.ask request)) (h : I s) : I s' := by
  induction hs' with
  | start =>
    cases hs.scene_eq .start (List.prefix_nil.1 hp)
    exact h
  | make ht hc ih =>
    rcases List.prefix_concat_iff.1 hp with heq | hlt
    · cases hs.scene_eq (ht.make hc) heq
      exact h
    · exact hmake _ _ _ ht (ih hlt) hc
  | ask ht hr ih =>
    rcases List.prefix_concat_iff.1 hp with heq | hlt
    · cases hs.scene_eq (ht.ask hr) heq
      exact h
    · exact hask _ _ (ih hlt)

end StateEngine
