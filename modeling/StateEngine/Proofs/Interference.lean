import StateEngine.Machine.Interference
import StateEngine.Proofs.Story

/-!
# A host interferes

What a host does with a machine is interference, as a future has it: the moves of other operations change the
machine, and the moves of its own poll go on with the poll. A host that only enters the machine where it is asked
or after a move makes some of the runs of the future, but others could make more of them.

* `Allowed.directs`: a future that is no dispatch never becomes one.
* `Path.moves`: the deeds of other operations.
* `Reaches.moves`: **every move of a host is a run of the future**.
-/

namespace StateEngine

variable {κ φ : Type} {m : Machine κ φ} {f : FutureId} {own : Option FutureId} {c : Change φ} {s s' : Scene κ φ}

/-- A future that is gone, or is no dispatch, is never one again. -/
theorem Allowed.directs (hc : Allowed m own c) (hlt : f < m.futures.length) (hd : m.Directs f) :
    (c.apply m).Directs f := by
  intro x hx
  cases hf : m.future? f with
  | none =>
    rcases hc.turn_none hf with hnone | ⟨hle, -⟩
    · exact nomatch hnone.symm.trans hx
    · exact absurd hlt (Nat.not_lt.2 hle)
  | some y =>
    have hturn := hc.turn hf
    rw [hx] at hturn
    cases hturn with
    | stays _ => exact hd x hf
    | moves _ _ _ _ _ => exact hd y hf
    | reports _ hy _ _ => exact nomatch (hy ▸ hd y hf)
    | recovers _ hy _ => exact nomatch (hy ▸ hd y hf)

/-- Whether a future is there, or was, and is no dispatch. -/
structure Machine.Direct (m : Machine κ φ) (f : FutureId) : Prop where
  lt : f < m.futures.length
  directs : m.Directs f

theorem Allowed.direct (hc : Allowed m own c) (h : m.Direct f) : (c.apply m).Direct f :=
  ⟨Nat.lt_of_lt_of_le h.lt c.length_futures_le, hc.directs h.lt h.directs⟩

theorem Trail.direct (hs : Trail m s) (hs' : Trail m s') (hp : s.trace <+: s'.trace)
    (h : s.machine.Direct f) : s'.machine.Direct f :=
  hs.later hs' hp (I := fun s => s.machine.Direct f) (fun _ _ _ _ hd hc => hc.direct hd) (fun _ _ hd => hd) h

/-- **What other operations do is interference.** -/
theorem Path.moves (hp : Path own s s') (hlt : f < s.machine.futures.length)
    (poll? : Option (Program κ φ (Option Polled))) :
    ∃ moves, Moment.Runs f ⟨s.machine, poll?⟩ moves ⟨s'.machine, poll?⟩ := by
  induction hp with
  | refl s => exact ⟨[], .nil _⟩
  | @make s s' c hc _ ih =>
    obtain ⟨moves, hruns⟩ := ih (Nat.lt_of_lt_of_le hlt c.length_futures_le)
    exact ⟨.other c :: moves, .cons (.other (hc.directs hlt)) hruns⟩
  | ask _ _ ih => exact ih hlt

/-! ## Operations that wait -/

theorem Waiting.poll_eq_none {x : Waiting κ φ} (h : x.own ≠ some f) : x.poll? f = none := by
  obtain ⟨op, request, resume⟩ := x
  cases op with
  | poll g => exact if_neg fun hg => h (congrArg some hg)
  | _ => rfl

/-- One that waits is the next to go on. -/
theorem Waiting.poll_head (request : Request κ φ) (resume : request.Reply → Program κ φ (Option Polled))
    (rest : List (Waiting κ φ)) :
    (⟨.poll f, request, resume⟩ :: rest).findSome? (Waiting.poll? f) = some (.ask request resume) := by
  have hhead : (⟨.poll f, request, resume⟩ : Waiting κ φ).poll? f = some (.ask request resume) := if_pos rfl
  rw [List.findSome?_cons, hhead]

theorem World.poll_eq_none {waiting : List (Waiting κ φ)} (h : ∀ x ∈ waiting, x.own ≠ some f) :
    waiting.findSome? (Waiting.poll? f) = none :=
  List.findSome?_eq_none_iff.2 fun x hx => Waiting.poll_eq_none (h x hx)

theorem Moment.Runs.of_eq {x y : Moment κ φ} (h : x = y) : x.Runs f [] y := h ▸ .nil x

/-- A poll of the future goes on, up to its end or to its next request. -/
theorem World.proceed_moves (p : Program κ φ (Option Polled)) :
    ∀ w : World κ φ, w.waiting.findSome? (Waiting.poll? f) = none →
      ∃ moves, Moment.Runs f ⟨w.machine, some p⟩ moves ((proceed (.poll f) p w).moment f) := by
  induction p with
  | done polled =>
    intro w hnone
    exact ⟨[.yield polled], .cons .yield (.of_eq (congrArg (Moment.mk w.machine) hnone.symm))⟩
  | look next ih =>
    intro w hnone
    obtain ⟨moves, hruns⟩ := ih w.machine w hnone
    exact ⟨.look :: moves, .cons .look hruns⟩
  | change c next ih =>
    intro w hnone
    obtain ⟨moves, hruns⟩ := ih { w with scene := w.scene.make c } hnone
    exact ⟨.change c :: moves, .cons .change hruns⟩
  | ask request resume _ =>
    intro w _
    exact ⟨[], .of_eq (congrArg (Moment.mk w.machine) (Waiting.poll_head request resume w.waiting).symm)⟩

/-- The moves of other operations leave a poll waiting as it does. -/
theorem World.moment_proceed {op : Operation} (hop : op.own ≠ some f) (p : Program κ φ op.Result) :
    ∀ w : World κ φ, (proceed op p w).waiting.findSome? (Waiting.poll? f) =
      w.waiting.findSome? (Waiting.poll? f) := by
  induction p with
  | done a => exact fun w => rfl
  | look next ih => exact fun w => ih w.machine w
  | change c next ih => exact fun w => ih { w with scene := w.scene.make c }
  | ask request resume _ =>
    intro w
    have hhead : (⟨op, request, resume⟩ : Waiting κ φ).poll? f = none := Waiting.poll_eq_none hop
    rw [proceed, List.findSome?_cons, hhead]

/-- A move of another operation. -/
theorem Reaches.moves_other {w w' : World κ φ} {op : Operation} (h : Reaches m w) (hlt : f < w.machine.futures.length)
    (hn : w.Next op w') (hop : op.own ≠ some f) : ∃ moves, (w.moment f).Runs f moves (w'.moment f) := by
  obtain ⟨moves, hruns⟩ := (h.path hn).moves hlt (w.waiting.findSome? (Waiting.poll? f))
  refine ⟨moves, ?_⟩
  have hmoment : w'.moment f = ⟨w'.machine, w.waiting.findSome? (Waiting.poll? f)⟩ := by
    refine congrArg (Moment.mk w'.machine) ?_
    cases hn with
    | start => exact World.moment_proceed hop _ w
    | answer scene newer x older reply =>
      have hx : x.poll? f = none := Waiting.poll_eq_none hop
      rw [World.moment_proceed hop, List.findSome?_append, List.findSome?_append, List.findSome?_cons, hx]
  rw [hmoment]
  exact hruns

/-- A move of the poll of the future. -/
theorem Reaches.moves_own {w w' : World κ φ} {op : Operation} (h : Reaches m w) (hn : w.Next op w')
    (hop : op.own = some f) : ∃ moves, (w.moment f).Runs f moves (w'.moment f) := by
  cases hn with
  | start =>
    cases Operation.own_eq_some hop
    rcases h.sound.begin_cases (.poll f) with hidle | hapart
    · rw [hidle]
      exact ⟨[], .nil _⟩
    · have hnone : w.waiting.findSome? (Waiting.poll? f) = none :=
        World.poll_eq_none fun x hx hown => hapart x hx f hown rfl
      obtain ⟨moves, hruns⟩ := World.proceed_moves (poll f) w hnone
      have hmoment : w.moment f = ⟨w.machine, none⟩ := congrArg (Moment.mk w.machine) hnone
      rw [hmoment]
      exact ⟨.poll :: moves, .cons .poll hruns⟩
  | answer scene newer x older reply =>
    obtain ⟨-, hapart⟩ := h.sound.without
    have hothers : ∀ y ∈ newer ++ older, y.own ≠ some f := fun y hy hown => hapart y hy f hown hop
    have hnone := World.poll_eq_none hothers
    have hnewer := World.poll_eq_none fun y hy => hothers y (List.mem_append_left older hy)
    obtain ⟨operation, request, resume⟩ := x
    cases Operation.own_eq_some hop
    obtain ⟨moves, hruns⟩ := World.proceed_moves (resume reply) ⟨scene, newer ++ older⟩ hnone
    have hmoment : (⟨scene, newer ++ ⟨.poll f, request, resume⟩ :: older⟩ : World κ φ).moment f =
        ⟨scene.machine, some (.ask request resume)⟩ := by
      refine congrArg (Moment.mk scene.machine) ?_
      rw [List.findSome?_append, hnewer, Option.none_or]
      exact Waiting.poll_head request resume older
    rw [hmoment]
    exact ⟨.answer request reply :: moves, .cons (.answer reply) hruns⟩

/-- **Every move of a host is a run of each future** that is there, or was. -/
theorem Reaches.moves {w w' : World κ φ} {op : Operation} (h : Reaches m w) (hlt : f < w.machine.futures.length)
    (hn : w.Next op w') : ∃ moves, (w.moment f).Runs f moves (w'.moment f) := by
  by_cases hop : op.own = some f
  · exact h.moves_own hn hop
  · exact h.moves_other hlt hn hop

end StateEngine
