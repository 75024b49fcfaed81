import StateEngine.Machine.Selection
import StateEngine.Proofs.Performance

/-!
# Which record an event selects

Guards that leave the machine as it is decide by their answers alone which record is selected. The search for
it is a recursion on the records, and within a record on its guards. What it does is compared with what is
said about selections without a recursion.

* `Tries.cons_iff`, `Selects.cons_iff`: what the first guard and the first record add.
* `firstPassing_does`: the search among records.
* `Selects.exists_answered`: whatever the guards answer, the search comes to an end.
* `transitionFor_selects`: **what happens when a transition is resolved**.
-/

namespace StateEngine

variable {κ φ α β : Type} {m : Machine κ φ} {state : String}

/-! ## What programs may do -/

namespace Program.Does

variable {M : Machine κ φ → Prop}

theorem bind {p : Program κ φ α} {f : α → Program κ φ β} {before after : List (Act κ φ)} {a : α} {b : β}
    (hp : p.Does M before a) (hf : (f a).Does M after b) : (p >>= f).Does M (before ++ after) b := by
  change (p.bind f).Does M (before ++ after) b
  induction hp with
  | done a => exact hf
  | look hm _ ih => exact .look hm (ih hf)
  | change _ ih => exact .change (ih hf)
  | ask _ ih => exact .ask (ih hf)

theorem bind_iff {p : Program κ φ α} {f : α → Program κ φ β} {acts : List (Act κ φ)} {b : β} :
    (p >>= f).Does M acts b ↔
      ∃ before after a, acts = before ++ after ∧ p.Does M before a ∧ (f a).Does M after b := by
  refine ⟨bind_inv, ?_⟩
  rintro ⟨before, after, a, rfl, hp, hf⟩
  exact hp.bind hf

theorem pure_iff {a b : α} {acts : List (Act κ φ)} :
    (pure a : Program κ φ α).Does M acts b ↔ acts = [] ∧ b = a := by
  refine ⟨pure_inv, ?_⟩
  rintro ⟨rfl, rfl⟩
  exact .done _

theorem look_iff {f : Machine κ φ → Program κ φ β} {acts : List (Act κ φ)} {b : β} :
    (StateEngine.look >>= f).Does (· = m) acts b ↔ (f m).Does (· = m) acts b := by
  refine ⟨fun h => ?_, fun h => .look rfl h⟩
  obtain ⟨_, rfl, hf⟩ := h.look_inv
  exact hf

end Program.Does

open Program

/-! ## The guards of one record -/

/-- A guard is read, and what it answers is what counts. -/
theorem checkGuard_does {name : String} {acts : List (Act κ φ)} {checked : Except UndefinedGuard Bool} :
    (checkGuard name state : Program κ φ _).Does (· = m) acts checked ↔
      ∃ answer, acts = [Read.act state ⟨name, answer⟩] ∧
        checked = answer.elim (.error ⟨name, m.targetName⟩) .ok := by
  constructor
  · intro h
    obtain ⟨answer, more, rfl, hmore⟩ := h.ask_inv
    refine ⟨answer, ?_⟩
    cases answer with
    | some holds =>
      obtain ⟨rfl, rfl⟩ := hmore.pure_inv
      exact ⟨rfl, rfl⟩
    | none =>
      obtain ⟨rfl, rfl⟩ := (Does.look_iff.1 hmore).pure_inv
      exact ⟨rfl, rfl⟩
  · rintro ⟨answer, rfl, rfl⟩
    cases answer with
    | some holds => exact .ask (.done _)
    | none => exact .ask (.look rfl (.done _))

/-- Whether one of some guards lets a record pass: the recursion on guards that `passes` writes out. -/
def passesTests (state : String) : List Test → Program κ φ (Except UndefinedGuard Bool)
  | [] => pure (.ok false)
  | test :: rest => do
    match ← checkGuard test.guard state with
    | .error error => pure (.error error)
    | .ok holds => if holds = test.passing then pure (.ok true) else passesTests state rest

theorem passesUnless_eq (guards : Guards) :
    (passesUnless guards state : Program κ φ _) =
      passesTests state (guards.doUnless.map fun name => ⟨name, false⟩).toList := by
  unfold passesUnless
  cases guards.doUnless with
  | none => rfl
  | some name =>
    refine bind_congr fun checked => ?_
    rcases checked with error | (_ | _) <;> rfl

theorem passes_eq (guards : Guards) :
    (passes guards state : Program κ φ _) = passesTests state guards.tests := by
  unfold passes Guards.tests
  rw [passesUnless_eq]
  cases guards.doIf with
  | none => rfl
  | some name =>
    refine bind_congr fun checked => ?_
    rcases checked with error | (_ | _) <;> rfl

theorem Guards.tests_eq_nil {guards : Guards} (h : guards.any = false) : guards.tests = [] := by
  obtain ⟨doIf, doUnless⟩ := guards
  cases doIf <;> cases doUnless <;> first | rfl | exact nomatch h

namespace Tries

variable {test : Test} {tests rest : List Test} {reads : List Read} {outcome : Except String Bool}

theorem nil_iff : Tries [] reads outcome ↔ reads = [] ∧ outcome = .ok false := by
  constructor
  · rintro (h | h | _)
    · exact absurd h (by simp)
    · exact absurd h (by simp)
    · exact ⟨rfl, rfl⟩
  · rintro ⟨rfl, rfl⟩
    exact .failed

/-- Unless a guard decides, all of them are read. -/
theorem eq_failed (h : Tries tests reads (.ok false)) : reads = tests.map Test.failed := by
  cases h
  rfl

/-- A guard that does not let the record pass leaves it to those after it. -/
theorem skip (h : Tries rest reads outcome) : Tries (test :: rest) (test.failed :: reads) outcome := by
  obtain @⟨before, _, _, h⟩ | @⟨before, _, _, h⟩ | _ := h
  · rw [← List.cons_append, ← List.map_cons]
    exact .passed (congrArg (test :: ·) h)
  · rw [← List.cons_append, ← List.map_cons]
    exact .undefined (congrArg (test :: ·) h)
  · exact .failed

/-- **The first guard decides**, or the others do after it. -/
theorem cons_iff : Tries (test :: rest) reads outcome ↔
    (reads = [test.passed] ∧ outcome = .ok true) ∨
      (reads = [test.undefined] ∧ outcome = .error test.guard) ∨
        ∃ more, reads = test.failed :: more ∧ Tries rest more outcome := by
  constructor
  · rintro (@⟨before, _, _, h⟩ | @⟨before, _, _, h⟩ | _)
    · cases before with
      | nil =>
        cases h
        exact .inl ⟨rfl, rfl⟩
      | cons first before =>
        cases h
        exact .inr (.inr ⟨_, rfl, .passed rfl⟩)
    · cases before with
      | nil =>
        cases h
        exact .inr (.inl ⟨rfl, rfl⟩)
      | cons first before =>
        cases h
        exact .inr (.inr ⟨_, rfl, .undefined rfl⟩)
    · exact .inr (.inr ⟨_, rfl, .failed⟩)
  · rintro (⟨rfl, rfl⟩ | ⟨rfl, rfl⟩ | ⟨more, rfl, h⟩)
    · rw [← List.nil_append [test.passed], ← List.map_nil]
      exact .passed rfl
    · rw [← List.nil_append [test.undefined], ← List.map_nil]
      exact .undefined rfl
    · exact h.skip

end Tries

/-- What is done to try one guard after the other: the first decides, or is followed by the others. -/
theorem passesTests_cons_does {test : Test} {rest : List Test} {acts : List (Act κ φ)}
    {checked : Except UndefinedGuard Bool} :
    (passesTests state (test :: rest) : Program κ φ _).Does (· = m) acts checked ↔
      (acts = [test.passed.act state] ∧ checked = .ok true) ∨
        (acts = [test.undefined.act state] ∧ checked = .error ⟨test.guard, m.targetName⟩) ∨
          ∃ more, acts = test.failed.act state :: more ∧
            (passesTests state rest : Program κ φ _).Does (· = m) more checked := by
  rw [passesTests, Does.bind_iff]
  constructor
  · rintro ⟨before, after, read, rfl, hread, hafter⟩
    obtain ⟨answer, rfl, rfl⟩ := checkGuard_does.1 hread
    cases answer with
    | none =>
      obtain ⟨rfl, rfl⟩ := hafter.pure_inv
      exact .inr (.inl ⟨rfl, rfl⟩)
    | some holds =>
      dsimp only [Option.elim_some] at hafter
      -- there are but two answers: the one that lets the record pass, and the other one
      by_cases hp : holds = test.passing
      · rw [if_pos hp] at hafter
        obtain ⟨rfl, rfl⟩ := hafter.pure_inv
        rw [hp]
        exact .inl ⟨rfl, rfl⟩
      · rw [if_neg hp] at hafter
        rw [Bool.eq_not.2 hp]
        exact .inr (.inr ⟨after, rfl, hafter⟩)
  · rintro (⟨rfl, rfl⟩ | ⟨rfl, rfl⟩ | ⟨more, rfl, hmore⟩)
    · refine ⟨_, [], _, rfl, checkGuard_does.2 ⟨some test.passing, rfl, rfl⟩, ?_⟩
      dsimp only [Option.elim_some]
      rw [if_pos rfl]
      exact .done _
    · exact ⟨_, [], _, rfl, checkGuard_does.2 ⟨none, rfl, rfl⟩, .done _⟩
    · refine ⟨[_], more, _, rfl, checkGuard_does.2 ⟨some !test.passing, rfl, rfl⟩, ?_⟩
      dsimp only [Option.elim_some]
      rw [if_neg (by simp)]
      exact hmore

/-- **How the guards of a record are read by the program** that tries them. -/
theorem passesTests_does {tests : List Test} {acts : List (Act κ φ)} {checked : Except UndefinedGuard Bool} :
    (passesTests state tests : Program κ φ _).Does (· = m) acts checked ↔
      ∃ reads outcome, Tries tests reads outcome ∧ acts = reads.map (Read.act state) ∧
        checked = outcome.mapError (⟨·, m.targetName⟩) := by
  induction tests generalizing acts checked with
  | nil =>
    rw [passesTests, Does.pure_iff]
    constructor
    · rintro ⟨rfl, rfl⟩
      exact ⟨[], .ok false, .failed, rfl, rfl⟩
    · rintro ⟨reads, outcome, h, rfl, rfl⟩
      obtain ⟨rfl, rfl⟩ := Tries.nil_iff.1 h
      exact ⟨rfl, rfl⟩
  | cons test rest ih =>
    rw [passesTests_cons_does]
    constructor
    · rintro (⟨rfl, rfl⟩ | ⟨rfl, rfl⟩ | ⟨more, rfl, hmore⟩)
      · exact ⟨_, _, Tries.cons_iff.2 (.inl ⟨rfl, rfl⟩), rfl, rfl⟩
      · exact ⟨_, _, Tries.cons_iff.2 (.inr (.inl ⟨rfl, rfl⟩)), rfl, rfl⟩
      · obtain ⟨reads, outcome, h, rfl, rfl⟩ := ih.1 hmore
        exact ⟨_, _, h.skip, rfl, rfl⟩
    · rintro ⟨reads, outcome, h, rfl, rfl⟩
      rcases Tries.cons_iff.1 h with ⟨rfl, rfl⟩ | ⟨rfl, rfl⟩ | ⟨more, rfl, hmore⟩
      · exact .inl ⟨rfl, rfl⟩
      · exact .inr (.inl ⟨rfl, rfl⟩)
      · exact .inr (.inr ⟨_, rfl, ih.2 ⟨_, _, hmore, rfl, rfl⟩⟩)

/-! ## The records -/

/-- What the search among records comes to. -/
def Verdict.found (target : String) : Verdict → Except UndefinedGuard (Option Record)
  | selected record => .ok (some record)
  | undefined guard => .error ⟨guard, target⟩
  | none => .ok .none

namespace Selects

variable {record : Record} {rest : List Record} {reads : List Read} {verdict : Verdict}

theorem nil_iff : Selects [] reads verdict ↔ reads = [] ∧ verdict = .none := by
  constructor
  · rintro (h | h | h | _)
    · exact absurd h (by simp)
    · exact absurd h (by simp)
    · exact absurd h (by simp)
    · exact ⟨rfl, rfl⟩
  · rintro ⟨rfl, rfl⟩
    exact .none (fun _ hr => absurd hr List.not_mem_nil)

/-- A guarded record that does not pass leaves it to those after it. -/
theorem skip (hg : record.isGuarded = true) (h : Selects rest reads verdict) :
    Selects (record :: rest) (record.failed ++ reads) verdict := by
  have hcons : ∀ {before : List Record}, (∀ r ∈ before, r.isGuarded = true) →
      ∀ r ∈ record :: before, r.isGuarded = true := fun hb =>
    List.forall_mem_cons.2 ⟨hg, hb⟩
  obtain h | h | h | h := h
  · rw [← List.flatMap_cons]
    exact .unguarded (congrArg (record :: ·) h) (hcons ‹_›) ‹_›
  · rw [← List.append_assoc, ← List.flatMap_cons]
    exact .passed (congrArg (record :: ·) h) (hcons ‹_›) ‹_›
  · rw [← List.append_assoc, ← List.flatMap_cons]
    exact .undefined (congrArg (record :: ·) h) (hcons ‹_›) ‹_›
  · rw [← List.flatMap_cons]
    exact .none (hcons h)

/-- **The first record is selected**, or one of its guards is not defined, or the others are left. -/
theorem cons_iff : Selects (record :: rest) reads verdict ↔
    (record.isGuarded = false ∧ reads = [] ∧ verdict = .selected record) ∨
      (Tries record.guards.tests reads (.ok true) ∧ verdict = .selected record) ∨
        (∃ guard, Tries record.guards.tests reads (.error guard) ∧ verdict = .undefined guard) ∨
          record.isGuarded = true ∧ ∃ more, reads = record.failed ++ more ∧ Selects rest more verdict := by
  -- the record that decides is the first one, or the first one is passed over
  have hsplit : ∀ {before after : List Record} {r : Record}, record :: rest = before ++ r :: after →
      (∀ r ∈ before, r.isGuarded = true) →
        (before = [] ∧ record = r) ∨
          ∃ more, before = record :: more ∧ record.isGuarded = true ∧ rest = more ++ r :: after ∧
            ∀ r ∈ more, r.isGuarded = true := by
    intro before after r h hb
    cases before with
    | nil => exact .inl ⟨rfl, (List.cons.inj h).1⟩
    | cons first more =>
      obtain ⟨rfl, hrest⟩ := List.cons.inj h
      obtain ⟨hg, hmore⟩ := List.forall_mem_cons.1 hb
      exact .inr ⟨more, rfl, hg, hrest, hmore⟩
  constructor
  · rintro (⟨h, hb, hg⟩ | ⟨h, hb, ht⟩ | ⟨h, hb, ht⟩ | h)
    · rcases hsplit h hb with ⟨rfl, rfl⟩ | ⟨more, rfl, hr, h, hb⟩
      · exact .inl ⟨hg, rfl, rfl⟩
      · exact .inr (.inr (.inr ⟨hr, _, List.flatMap_cons, .unguarded h hb hg⟩))
    · rcases hsplit h hb with ⟨rfl, rfl⟩ | ⟨more, rfl, hr, h, hb⟩
      · exact .inr (.inl ⟨ht, rfl⟩)
      · exact .inr (.inr (.inr ⟨hr, _, by rw [List.flatMap_cons, List.append_assoc], .passed h hb ht⟩))
    · rcases hsplit h hb with ⟨rfl, rfl⟩ | ⟨more, rfl, hr, h, hb⟩
      · exact .inr (.inr (.inl ⟨_, ht, rfl⟩))
      · exact .inr (.inr (.inr ⟨hr, _, by rw [List.flatMap_cons, List.append_assoc], .undefined h hb ht⟩))
    · obtain ⟨hr, hrest⟩ := List.forall_mem_cons.1 h
      exact .inr (.inr (.inr ⟨hr, _, List.flatMap_cons, .none hrest⟩))
  · have hnone : ∀ r ∈ ([] : List Record), r.isGuarded = true := fun _ hr => absurd hr List.not_mem_nil
    rintro (⟨hg, rfl, rfl⟩ | ⟨ht, rfl⟩ | ⟨guard, ht, rfl⟩ | ⟨hg, more, rfl, h⟩)
    · exact .unguarded (List.nil_append _).symm hnone hg
    · exact .passed (List.nil_append _).symm hnone ht
    · exact .undefined (List.nil_append _).symm hnone ht
    · exact h.skip hg

end Selects

/-- What is done with the first candidate if it has guards: these are read, and the search ends with the
candidate, or with a guard that is not defined, or it goes on with the others. -/
theorem firstPassing_cons_does (hg : record.isGuarded = true) {rest : List Record} {acts : List (Act κ φ)}
    {found : Except UndefinedGuard (Option Record)} :
    (firstPassing state (record :: rest) : Program κ φ _).Does (· = m) acts found ↔
      (∃ reads, Tries record.guards.tests reads (.ok true) ∧ acts = reads.map (Read.act state) ∧
        found = .ok (some record)) ∨
      (∃ reads guard, Tries record.guards.tests reads (.error guard) ∧ acts = reads.map (Read.act state) ∧
        found = .error ⟨guard, m.targetName⟩) ∨
      ∃ more, acts = record.failed.map (Read.act state) ++ more ∧
        (firstPassing state rest : Program κ φ _).Does (· = m) more found := by
  rw [firstPassing, if_pos hg, passes_eq, Does.bind_iff]
  constructor
  · rintro ⟨before, after, checked, rfl, hbefore, hafter⟩
    obtain ⟨reads, outcome, htries, rfl, rfl⟩ := passesTests_does.1 hbefore
    rcases outcome with guard | (_ | _)
    · obtain ⟨rfl, rfl⟩ := hafter.pure_inv
      exact .inr (.inl ⟨reads, guard, htries, List.append_nil _, rfl⟩)
    · -- all of its guards were read
      obtain rfl := htries.eq_failed
      exact .inr (.inr ⟨after, rfl, hafter⟩)
    · obtain ⟨rfl, rfl⟩ := hafter.pure_inv
      exact .inl ⟨reads, htries, List.append_nil _, rfl⟩
  · rintro (⟨reads, htries, rfl, rfl⟩ | ⟨reads, guard, htries, rfl, rfl⟩ | ⟨more, rfl, hmore⟩)
    · exact ⟨_, [], _, (List.append_nil _).symm, passesTests_does.2 ⟨_, _, htries, rfl, rfl⟩, .done _⟩
    · exact ⟨_, [], _, (List.append_nil _).symm, passesTests_does.2 ⟨_, _, htries, rfl, rfl⟩, .done _⟩
    · exact ⟨_, more, _, rfl, passesTests_does.2 ⟨_, _, .failed, rfl, rfl⟩, hmore⟩

/-- **The search among records** reads the guards that a selection reads, and finds what it selects. -/
theorem firstPassing_does {candidates : List Record} {acts : List (Act κ φ)}
    {found : Except UndefinedGuard (Option Record)} :
    (firstPassing state candidates : Program κ φ _).Does (· = m) acts found ↔
      ∃ reads verdict, Selects candidates reads verdict ∧ acts = reads.map (Read.act state) ∧
        found = verdict.found m.targetName := by
  induction candidates generalizing acts found with
  | nil =>
    rw [firstPassing, Does.pure_iff]
    constructor
    · rintro ⟨rfl, rfl⟩
      exact ⟨[], .none, Selects.nil_iff.2 ⟨rfl, rfl⟩, rfl, rfl⟩
    · rintro ⟨reads, verdict, h, rfl, rfl⟩
      obtain ⟨rfl, rfl⟩ := Selects.nil_iff.1 h
      exact ⟨rfl, rfl⟩
  | cons record rest ih =>
    cases hg : record.isGuarded with
    | false =>
      rw [firstPassing, if_neg (by rw [hg]; decide), Does.pure_iff]
      constructor
      · rintro ⟨rfl, rfl⟩
        exact ⟨[], _, Selects.cons_iff.2 (.inl ⟨hg, rfl, rfl⟩), rfl, rfl⟩
      · rintro ⟨reads, verdict, h, rfl, rfl⟩
        -- a record without guards has none that could be read
        have htests : record.guards.tests = [] := Guards.tests_eq_nil hg
        rcases Selects.cons_iff.1 h with ⟨-, rfl, rfl⟩ | ⟨ht, -⟩ | ⟨guard, ht, -⟩ | ⟨hg', -⟩
        · exact ⟨rfl, rfl⟩
        · rw [htests] at ht
          exact nomatch (Tries.nil_iff.1 ht).2
        · rw [htests] at ht
          exact nomatch (Tries.nil_iff.1 ht).2
        · exact absurd (hg.symm.trans hg') Bool.false_ne_true
    | true =>
      rw [firstPassing_cons_does hg]
      constructor
      · rintro (⟨reads, htries, rfl, rfl⟩ | ⟨reads, guard, htries, rfl, rfl⟩ | ⟨after, rfl, hafter⟩)
        · exact ⟨reads, _, Selects.cons_iff.2 (.inr (.inl ⟨htries, rfl⟩)), rfl, rfl⟩
        · exact ⟨reads, _, Selects.cons_iff.2 (.inr (.inr (.inl ⟨guard, htries, rfl⟩))), rfl, rfl⟩
        · obtain ⟨more, verdict, hmore, rfl, rfl⟩ := ih.1 hafter
          exact ⟨record.failed ++ more, verdict, hmore.skip hg, List.map_append.symm, rfl⟩
      · rintro ⟨reads, verdict, h, rfl, rfl⟩
        rcases Selects.cons_iff.1 h with ⟨hg', -⟩ | ⟨ht, rfl⟩ | ⟨guard, ht, rfl⟩ | ⟨-, more, rfl, hmore⟩
        · exact absurd (hg'.symm.trans hg) Bool.false_ne_true
        · exact .inl ⟨reads, ht, rfl, rfl⟩
        · exact .inr (.inl ⟨reads, guard, ht, rfl, rfl⟩)
        · exact .inr (.inr ⟨_, List.map_append, ih.2 ⟨more, _, hmore, rfl, rfl⟩⟩)

/-! ## The transition -/

/-- **Resolving an event** reads the guards that a selection among its candidates reads. -/
theorem resolve_does {event : String} {acts : List (Act κ φ)} {resolved : Except DispatchError Record} :
    (resolve event : Program κ φ _).Does (· = m) acts resolved ↔
      ∃ reads verdict, Selects (m.candidates event) reads verdict ∧
        acts = reads.map (Read.act m.state) ∧ resolved = verdict.resolved m event := by
  rw [resolve, Does.look_iff]
  dsimp only
  rw [← Machine.candidates]
  cases hc : m.candidates event with
  | nil =>
    have hnone : Verdict.none.resolved m event = .error (.noTransitionDefined event m.state) := by
      rw [Verdict.resolved, Machine.unresolved, if_pos hc]
    dsimp only
    rw [Does.pure_iff, ← hnone]
    constructor
    · rintro ⟨rfl, rfl⟩
      exact ⟨[], .none, Selects.nil_iff.2 ⟨rfl, rfl⟩, rfl, rfl⟩
    · rintro ⟨reads, verdict, h, rfl, rfl⟩
      obtain ⟨rfl, rfl⟩ := Selects.nil_iff.1 h
      exact ⟨rfl, rfl⟩
  | cons record rest =>
    have hnone : Verdict.none.resolved m event = .error (.noTransitionResolved event m.state) := by
      rw [Verdict.resolved, Machine.unresolved, if_neg (hc ▸ List.cons_ne_nil record rest)]
    dsimp only
    rw [Does.bind_iff, ← hnone]
    constructor
    · rintro ⟨before, after, found, rfl, hfound, hafter⟩
      obtain ⟨reads, verdict, h, rfl, rfl⟩ := firstPassing_does.1 hfound
      obtain ⟨rfl, rfl⟩ : after = [] ∧ resolved = verdict.resolved m event := by
        cases verdict <;> exact hafter.pure_inv
      exact ⟨reads, verdict, h, List.append_nil _, rfl⟩
    · rintro ⟨reads, verdict, h, rfl, rfl⟩
      refine ⟨_, [], _, (List.append_nil _).symm, firstPassing_does.2 ⟨reads, verdict, h, rfl, rfl⟩, ?_⟩
      cases verdict <;> exact .done _

/-- **Resolving a transition** is resolving the event, and a transition is made of the record that is
selected. -/
theorem transitionFor_does {event : String} {args : List Json} {acts : List (Act κ φ)}
    {result : Except DispatchError TransitionId} :
    (transitionFor event args : Program κ φ _).Does (· = m) acts result ↔
      ∃ reads verdict, Selects (m.candidates event) reads verdict ∧
        acts = reads.map (Read.act m.state) ++ verdict.changes args ∧
          result = (verdict.resolved m event).map fun _ => m.nextTransition := by
  rw [transitionFor, Does.bind_iff]
  constructor
  · rintro ⟨before, after, resolved, rfl, hresolved, hafter⟩
    obtain ⟨reads, verdict, h, rfl, rfl⟩ := resolve_does.1 hresolved
    refine ⟨reads, verdict, h, ?_⟩
    cases verdict with
    | selected record =>
      obtain ⟨more, rfl, hmore⟩ := (Does.look_iff.1 hafter).make_inv
      obtain ⟨rfl, rfl⟩ := hmore.pure_inv
      exact ⟨rfl, rfl⟩
    | _ =>
      obtain ⟨rfl, rfl⟩ := hafter.pure_inv
      exact ⟨rfl, rfl⟩
  · rintro ⟨reads, verdict, h, rfl, rfl⟩
    refine ⟨_, _, _, rfl, resolve_does.2 ⟨reads, verdict, h, rfl, rfl⟩, ?_⟩
    cases verdict with
    | selected record => exact .look rfl (.change (.done _))
    | _ => exact .done _

/-! ## What guards answer -/

namespace Tries

/-- Whatever the guards answer, trying them comes to an end. -/
theorem exists_answered (target : List Read → String → Option Bool) (tests : List Test) (past : List Read) :
    ∃ reads outcome, Tries tests reads outcome ∧ Answered target past reads := by
  induction tests generalizing past with
  | nil => exact ⟨[], _, .failed, trivial⟩
  | cons test rest ih =>
    have hread : ∀ {answer}, target past test.guard = answer → Answered target past [⟨test.guard, answer⟩] :=
      fun ha => ⟨ha.symm, trivial⟩
    cases ha : target past test.guard with
    | none => exact ⟨_, _, cons_iff.2 (.inr (.inl ⟨rfl, rfl⟩)), hread ha⟩
    | some holds =>
      by_cases hp : holds = test.passing
      · exact ⟨_, _, cons_iff.2 (.inl ⟨rfl, rfl⟩), hread (ha.trans (congrArg some hp))⟩
      · obtain ⟨reads, outcome, h, hanswered⟩ := ih (past ++ [test.failed])
        refine ⟨_, outcome, h.skip, ?_, hanswered⟩
        rw [Test.failed, ha, Bool.eq_not.2 hp]

end Tries

theorem Answered.append {target : List Read → String → Option Bool} {past reads more : List Read}
    (h : Answered target past reads) (hmore : Answered target (past ++ reads) more) :
    Answered target past (reads ++ more) := by
  induction reads generalizing past with
  | nil => rwa [List.append_nil] at hmore
  | cons read reads ih =>
    refine ⟨h.1, ih h.2 ?_⟩
    rwa [List.append_assoc]

/-- **Whatever the guards answer, the search among records comes to an end.** -/
theorem Selects.exists_answered (target : List Read → String → Option Bool) (candidates : List Record)
    (past : List Read) :
    ∃ reads verdict, Selects candidates reads verdict ∧ Answered target past reads := by
  induction candidates generalizing past with
  | nil => exact ⟨[], .none, Selects.nil_iff.2 ⟨rfl, rfl⟩, trivial⟩
  | cons record rest ih =>
    cases hg : record.isGuarded with
    | false => exact ⟨[], _, Selects.cons_iff.2 (.inl ⟨hg, rfl, rfl⟩), trivial⟩
    | true =>
      obtain ⟨reads, outcome, htries, hanswered⟩ := Tries.exists_answered target record.guards.tests past
      rcases outcome with guard | (_ | _)
      · exact ⟨reads, _, Selects.cons_iff.2 (.inr (.inr (.inl ⟨guard, htries, rfl⟩))), hanswered⟩
      · obtain ⟨more, verdict, h, hmore⟩ := ih (past ++ reads)
        obtain rfl := htries.eq_failed
        exact ⟨_, verdict, h.skip hg, hanswered.append hmore⟩
      · exact ⟨reads, _, Selects.cons_iff.2 (.inr (.inl ⟨htries, rfl⟩)), hanswered⟩

/-- A guard that is not defined was read. -/
theorem Selects.undefined_mem {candidates : List Record} {reads : List Read} {guard : String}
    (h : Selects candidates reads (.undefined guard)) : ⟨guard, .none⟩ ∈ reads := by
  obtain _ | _ | ⟨-, -, htries⟩ | _ := h
  cases htries
  exact List.mem_append_right _ (List.mem_append_right _ (List.mem_singleton.2 rfl))

theorem Read.act_injective (state : String) : Function.Injective (Read.act state : Read → Act κ φ) := by
  rintro ⟨guard, answer⟩ ⟨guard', answer'⟩ h
  cases h
  rfl

/-- A record whose guards are all read and do not let it pass has guards that are defined. -/
theorem Record.answer_of_failed {record : Record} {read : Read} (h : read ∈ record.failed) :
    read.answer ≠ none := by
  obtain ⟨test, -, rfl⟩ := List.mem_map.1 h
  exact Option.some_ne_none _

/-- **Nothing is resolved** exactly if there are candidates, all of them are guarded, and all of their guards
are read in vain. -/
theorem transitionFor_unresolved {event : String} {args : List Json} {acts : List (Act κ φ)}
    {result : Except DispatchError TransitionId}
    (h : (transitionFor event args : Program κ φ _).Does (· = m) acts result) :
    result = .error (.noTransitionResolved event m.state) ↔
      m.candidates event ≠ [] ∧ (∀ r ∈ m.candidates event, r.isGuarded = true) ∧
        acts = ((m.candidates event).flatMap Record.failed).map (Read.act m.state) := by
  obtain ⟨reads, verdict, hselects, rfl, rfl⟩ := transitionFor_does.1 h
  constructor
  · intro hresult
    cases verdict with
    | selected record => exact nomatch hresult
    | undefined guard => exact nomatch hresult
    | none =>
      have hne : m.candidates event ≠ [] := by
        intro hnil
        rw [Verdict.resolved, Machine.unresolved, if_pos hnil] at hresult
        exact nomatch hresult
      obtain _ | _ | _ | hg := hselects
      exact ⟨hne, hg, List.append_nil _⟩
  · rintro ⟨hne, hg, hacts⟩
    cases verdict with
    | selected record =>
      have hmade : Act.made (.add record args) ∈ reads.map (Read.act (κ := κ) (φ := φ) m.state) ++
          (Verdict.selected record).changes args :=
        List.mem_append_right _ (List.mem_singleton.2 rfl)
      rw [hacts] at hmade
      obtain ⟨read, -, hread⟩ := List.mem_map.1 hmade
      exact nomatch hread
    | undefined guard =>
      have hread : Read.act m.state ⟨guard, none⟩ ∈ reads.map (Read.act (κ := κ) (φ := φ) m.state) ++
          (Verdict.undefined guard).changes args :=
        List.mem_append_left _ (List.mem_map_of_mem hselects.undefined_mem)
      rw [hacts] at hread
      obtain ⟨read, hread, hact⟩ := List.mem_map.1 hread
      obtain rfl := Read.act_injective m.state hact
      obtain ⟨record, -, hfailed⟩ := List.mem_flatMap.1 hread
      exact absurd rfl (Record.answer_of_failed hfailed)
    | none => rw [Verdict.resolved, Machine.unresolved, if_neg hne, Except.map]

/-- **Nothing is defined** exactly if there is no candidate. -/
theorem transitionFor_undefined {event : String} {args : List Json} {acts : List (Act κ φ)}
    {result : Except DispatchError TransitionId}
    (h : (transitionFor event args : Program κ φ _).Does (· = m) acts result) :
    result = .error (.noTransitionDefined event m.state) ↔ m.candidates event = [] := by
  obtain ⟨reads, verdict, hselects, rfl, rfl⟩ := transitionFor_does.1 h
  constructor
  · intro hresult
    cases verdict with
    | selected record => exact nomatch hresult
    | undefined guard => exact nomatch hresult
    | none =>
      by_contra hne
      rw [Verdict.resolved, Machine.unresolved, if_neg hne] at hresult
      exact nomatch hresult
  · intro hnil
    have hselects' := hselects
    rw [hnil] at hselects'
    obtain ⟨rfl, rfl⟩ := Selects.nil_iff.1 hselects'
    rw [Verdict.resolved, Machine.unresolved, if_pos hnil, Except.map]

/-- **Which record an event selects when a transition is resolved**, in any machine, whatever its target
answers, as long as its guards leave the machine as it is. What is done and what is told is what a selection
among the records of the event in the current state says, and there always is one. Nothing is defined exactly
if there is no such record. Nothing is resolved exactly if there are some, all of them are guarded, and all of
their guards are read, are defined and let nothing pass. -/
theorem transitionFor_selects (m : Machine κ φ) (event : String) (args : List Json) :
    (∀ acts result, (transitionFor event args : Program κ φ _).Does (· = m) acts result ↔
      ∃ reads verdict, Selects (m.candidates event) reads verdict ∧
        acts = reads.map (Read.act m.state) ++ verdict.changes args ∧
          result = (verdict.resolved m event).map fun _ => m.nextTransition) ∧
      (∀ target, ∃ reads verdict, Selects (m.candidates event) reads verdict ∧ Answered target [] reads) ∧
        ∀ acts result, (transitionFor event args : Program κ φ _).Does (· = m) acts result →
          (result = .error (.noTransitionDefined event m.state) ↔ m.candidates event = []) ∧
            (result = .error (.noTransitionResolved event m.state) ↔
              m.candidates event ≠ [] ∧ (∀ r ∈ m.candidates event, r.isGuarded = true) ∧
                acts = ((m.candidates event).flatMap Record.failed).map (Read.act m.state)) :=
  ⟨fun _ _ => transitionFor_does, fun target => Selects.exists_answered target (m.candidates event) [],
    fun _ _ h => ⟨transitionFor_undefined h, transitionFor_unresolved h⟩⟩

namespace Hatch

/-- A hatch opens wide if it is unlatched or nobody is near, and otherwise a little. -/
def wide : Record := ⟨"open", "shut", "wide", ⟨some "unlatched", some "crowded"⟩, .ofFn fun _ => []⟩

def ajar : Record := ⟨"open", "shut", "ajar", .none, .ofFn fun _ => []⟩

def definition : Definition String :=
  ⟨"shut", ["shut", "wide", "ajar"].map (State.ofRecords [wide, ajar]), [⟨"open", [wide, ajar]⟩], []⟩

def machine : Machine String Unit := .start definition "hatch" toString "shut" 0

end Hatch

/-- The hatch does not open if it cannot be told whether it is crowded, although it could open a little. -/
theorem transitionFor_selects_hatch :
    Hatch.machine.candidates "open" = [Hatch.wide, Hatch.ajar] ∧
      (transitionFor "open" []).Does (· = Hatch.machine)
        [.asked (.guard "unlatched" "shut") (some false), .asked (.guard "crowded" "shut") none]
        (.error (.undefinedGuard ⟨"crowded", "hatch"⟩)) ∧
      (transitionFor "open" []).Does (· = Hatch.machine)
        [.asked (.guard "unlatched" "shut") (some false), .asked (.guard "crowded" "shut") (some true),
          .made (.add Hatch.ajar [])]
        (.ok 0) := by
  have hcandidates : Hatch.machine.candidates "open" = [Hatch.wide, Hatch.ajar] := by decide
  have hdoes := (transitionFor_selects Hatch.machine "open" []).1
  have htests : Hatch.wide.guards.tests = [⟨"unlatched", true⟩] ++ ⟨"crowded", false⟩ :: [] := rfl
  have hno : ∀ r ∈ ([] : List Record), r.isGuarded = true := fun _ hr => absurd hr List.not_mem_nil
  have hguarded : ∀ r ∈ [Hatch.wide], r.isGuarded = true := fun _ hr => List.mem_singleton.1 hr ▸ rfl
  have hundefined : Selects (Hatch.machine.candidates "open")
      [⟨"unlatched", some false⟩, ⟨"crowded", none⟩] (.undefined "crowded") :=
    .undefined hcandidates hno (.undefined htests)
  have hajar : Selects (Hatch.machine.candidates "open")
      [⟨"unlatched", some false⟩, ⟨"crowded", some true⟩] (.selected Hatch.ajar) :=
    .unguarded hcandidates hguarded rfl
  exact ⟨hcandidates, (hdoes _ _).2 ⟨_, _, hundefined, rfl, rfl⟩, (hdoes _ _).2 ⟨_, _, hajar, rfl, rfl⟩⟩

end StateEngine
