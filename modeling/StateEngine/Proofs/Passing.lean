import StateEngine.Proofs.Course
import StateEngine.Proofs.Performance

/-!
# Programs amid others

A program that is answered by somebody else passes from one scene to another, and whoever answers may do anything
with the machine in between. A search, which makes no change and looks at nothing that others change, does the same
as if it were alone.

* `Passage`, `Program.Passes`: what is done from one scene to another.
* `Program.Passes.exists_of_total`: a program comes to an end if its requests are answered.
* `Program.Indifferent.passes_iff`: **what an indifferent program does** does not depend on the machine.
-/

namespace StateEngine

/-! ## Passages -/

section

variable {κ φ α β : Type} {R : Response κ φ}

/-- **What is done from one scene to another**: changes are made, and requests are answered. -/
inductive Passage (R : Response κ φ) : Scene κ φ → List (Act κ φ) → Scene κ φ → Prop where
  | refl (s : Scene κ φ) : Passage R s [] s
  | made {s s' : Scene κ φ} {c : Change φ} {acts : List (Act κ φ)} :
      Passage R (s.make c) acts s' → Passage R s (.made c :: acts) s'
  | asked {s s₁ s' : Scene κ φ} {request : Request κ φ} {reply : request.Reply} {acts : List (Act κ φ)} :
      R request s reply s₁ → Passage R s₁ acts s' → Passage R s (.asked request reply :: acts) s'

namespace Program

/-- **What a program does** from one scene to another, up to its result. -/
inductive Passes (R : Response κ φ) :
    Program κ φ α → Scene κ φ → List (Act κ φ) → α → Scene κ φ → Prop where
  | done (a : α) (s : Scene κ φ) : Passes R (.done a) s [] a s
  | look {next : Machine κ φ → Program κ φ α} {s s' : Scene κ φ} {acts : List (Act κ φ)} {a : α} :
      Passes R (next s.machine) s acts a s' → Passes R (.look next) s acts a s'
  | change {c : Change φ} {next : Program κ φ α} {s s' : Scene κ φ} {acts : List (Act κ φ)} {a : α} :
      Passes R next (s.make c) acts a s' → Passes R (.change c next) s (.made c :: acts) a s'
  | ask {request : Request κ φ} {resume : request.Reply → Program κ φ α} {reply : request.Reply}
      {s s₁ s' : Scene κ φ} {acts : List (Act κ φ)} {a : α} :
      R request s reply s₁ → Passes R (resume reply) s₁ acts a s' →
      Passes R (.ask request resume) s (.asked request reply :: acts) a s'

namespace Passes

variable {s s' : Scene κ φ} {acts : List (Act κ φ)}

theorem passage {p : Program κ φ α} {a : α} (h : p.Passes R s acts a s') : Passage R s acts s' := by
  induction h with
  | done a s => exact .refl s
  | look _ ih => exact ih
  | change _ ih => exact .made ih
  | ask hr _ ih => exact .asked hr ih

theorem pure_iff {a b : α} :
    (Pure.pure a : Program κ φ α).Passes R s acts b s' ↔ acts = [] ∧ b = a ∧ s' = s := by
  constructor
  · intro h
    cases h
    exact ⟨rfl, rfl, rfl⟩
  · rintro ⟨rfl, rfl, rfl⟩
    exact .done _ _

theorem look_iff {f : Machine κ φ → Program κ φ β} {b : β} :
    (StateEngine.look >>= f).Passes R s acts b s' ↔ (f s.machine).Passes R s acts b s' := by
  constructor
  · intro h
    cases h with
    | look h => exact h
  · exact fun h => .look h

theorem make_iff {c : Change φ} {f : Unit → Program κ φ β} {b : β} :
    (StateEngine.make c >>= f).Passes R s acts b s' ↔
      ∃ more, acts = .made c :: more ∧ (f ()).Passes R (s.make c) more b s' := by
  constructor
  · intro h
    cases h with
    | change h => exact ⟨_, rfl, h⟩
  · rintro ⟨more, rfl, h⟩
    exact .change h

theorem bind {p : Program κ φ α} {f : α → Program κ φ β} {s₁ : Scene κ φ} {before after : List (Act κ φ)}
    {a : α} {b : β} (hp : p.Passes R s before a s₁) (hf : (f a).Passes R s₁ after b s') :
    (p >>= f).Passes R s (before ++ after) b s' := by
  induction hp with
  | done a s => exact hf
  | look _ ih => exact .look (ih hf)
  | change _ ih => exact .change (ih hf)
  | ask hr _ ih => exact .ask hr (ih hf)

theorem bind_inv {p : Program κ φ α} {f : α → Program κ φ β} {b : β}
    (h : (p >>= f).Passes R s acts b s') :
    ∃ before after a s₁, acts = before ++ after ∧ p.Passes R s before a s₁ ∧
      (f a).Passes R s₁ after b s' := by
  change (p.bind f).Passes R s acts b s' at h
  induction p generalizing s acts with
  | done a => exact ⟨[], acts, a, s, rfl, .done a s, h⟩
  | look next ih =>
    cases h with
    | look h =>
      obtain ⟨before, after, a, s₁, rfl, hp, hf⟩ := ih _ h
      exact ⟨before, after, a, s₁, rfl, .look hp, hf⟩
  | change c next ih =>
    cases h with
    | change h =>
      obtain ⟨before, after, a, s₁, rfl, hp, hf⟩ := ih h
      exact ⟨.made c :: before, after, a, s₁, rfl, .change hp, hf⟩
  | ask request resume ih =>
    cases h with
    | ask hr h =>
      obtain ⟨before, after, a, s₁, rfl, hp, hf⟩ := ih _ h
      exact ⟨.asked request _ :: before, after, a, s₁, rfl, .ask hr hp, hf⟩

/-- A program that comes to its end passes there. -/
theorem of_goes {p : Program κ φ α} {a : α} (h : p.Goes R s (.done a) s') :
    ∃ acts, p.Passes R s acts a s' := by
  generalize hq : Program.done a = q at h
  induction h with
  | refl p s =>
    subst hq
    exact ⟨[], .done a s⟩
  | look _ ih =>
    obtain ⟨acts, h⟩ := ih hq
    exact ⟨acts, .look h⟩
  | change _ ih =>
    obtain ⟨acts, h⟩ := ih hq
    exact ⟨_, .change h⟩
  | ask hr _ ih =>
    obtain ⟨acts, h⟩ := ih hq
    exact ⟨_, .ask hr h⟩

/-- **A program comes to an end** if its requests are answered, however they are. -/
theorem exists_of_total (hR : ∀ request s, ∃ reply s₁, R request s reply s₁) (p : Program κ φ α)
    (s : Scene κ φ) : ∃ acts a s', p.Passes R s acts a s' := by
  induction p generalizing s with
  | done a => exact ⟨[], a, s, .done a s⟩
  | look next ih =>
    obtain ⟨acts, a, s', h⟩ := ih s.machine s
    exact ⟨acts, a, s', .look h⟩
  | change c next ih =>
    obtain ⟨acts, a, s', h⟩ := ih (s.make c)
    exact ⟨_, a, s', .change h⟩
  | ask request resume ih =>
    obtain ⟨reply, s₁, hr⟩ := hR request s
    obtain ⟨acts, a, s', h⟩ := ih reply s₁
    exact ⟨_, a, s', .ask hr h⟩

end Passes

/-! ## Searches -/

/-- Whether a program makes no change, and looks at nothing of the machine but the name of the target. -/
def Indifferent : Program κ φ α → Prop
  | .done _ => True
  | .look next =>
    (∀ m m' : Machine κ φ, m.targetName = m'.targetName → next m = next m') ∧ ∀ m, (next m).Indifferent
  | .change _ _ => False
  | .ask _ resume => ∀ reply, (resume reply).Indifferent

theorem Indifferent.bind {p : Program κ φ α} {f : α → Program κ φ β} (hp : p.Indifferent)
    (hf : ∀ a, (f a).Indifferent) : (p >>= f).Indifferent := by
  induction p with
  | done a => exact hf a
  | look next ih => exact ⟨fun m m' h => congrArg (·.bind f) (hp.1 m m' h), fun m => ih m (hp.2 m)⟩
  | change c next _ => exact absurd hp id
  | ask request resume ih => exact fun reply => ih reply (hp reply)

/-- **What an indifferent program does does not depend on the machine**, and so not on what others do with it
while its requests are answered. -/
theorem Indifferent.passes_iff {target : String}
    (hR : ∀ request s reply s₁, R request s reply s₁ → s₁.machine.targetName = target) {m : Machine κ φ}
    (hm : m.targetName = target) {p : Program κ φ α} (hp : p.Indifferent) {a : α} :
    ∀ {s s' : Scene κ φ} {acts : List (Act κ φ)}, s.machine.targetName = target →
      (p.Passes R s acts a s' ↔ p.Does (· = m) acts a ∧ Passage R s acts s') := by
  intro s s' acts hs
  constructor
  · intro h
    refine ⟨?_, h.passage⟩
    induction h with
    | done a s => exact .done a
    | @look next s s' acts a _ ih =>
      have hsame : next s.machine = next m := hp.1 _ _ (hs.trans hm.symm)
      exact .look rfl (hsame ▸ ih (hp.2 _) hs)
    | change _ _ => exact absurd hp id
    | ask hr _ ih => exact .ask (ih (hp _) (hR _ _ _ _ hr))
  · rintro ⟨h, hpassage⟩
    induction h generalizing s with
    | done a =>
      cases hpassage
      exact .done a _
    | @look next machine acts a hmachine _ ih =>
      subst hmachine
      have hsame : next s.machine = next machine := hp.1 _ _ (hs.trans hm.symm)
      exact .look (hsame ▸ ih (hp.2 _) hs hpassage)
    | change _ _ => exact absurd hp id
    | ask _ ih =>
      cases hpassage with
      | asked hr hpassage => exact .ask hr (ih (hp _) (hR _ _ _ _ hr) hpassage)

end Program

end

end StateEngine
