import StateEngine.Machine.Polling
import StateEngine.Proofs.Selection

/-!
# The turns of a crowd

The calls of a crowd have turns, in the order of a queue. A call that yields in its turn queues again, and so all
others have theirs before it is polled once more. If they have their values at once, they end before it in the same
poll, although it stands before them in the phase.

* `findAll_of_finds`, `callAll_calls`: callbacks that are there are found and called.
* `pollTurns_noted`, `pollTurns_yields`: one turn.
* `pollTurns_prompt`, `settling_prompt`: **a slow call waits** until all prompt calls have had their turns.
-/

namespace StateEngine

open Program

section

variable {κ φ α β : Type} {M : Machine κ φ → Prop} {m : Machine κ φ} {id : TransitionId} {phase : Phase} {x : String}
  {acts more : List (Act κ φ)} {calls : List (Call φ)} {call : Call φ} {record : Record} {context : Context}

/-! ## Finding and calling -/

theorem Program.Does.look_bind {f : Machine κ φ → Program κ φ β} {b : β} (hm : M m)
    (h : (f m).Does M acts b) : (StateEngine.look >>= f).Does M acts b := .look hm h

theorem Program.Does.ask_bind {request : Request κ φ} {f : request.Reply → Program κ φ β} {b : β}
    {reply : request.Reply} (h : (f reply).Does M acts b) :
    (StateEngine.ask request >>= f).Does M (.asked request reply :: acts) b := .ask h

/-- A result that is worked into another one does nothing. -/
theorem Program.Does.bind_pure {p : Program κ φ α} {f : α → β} {a : α} (h : p.Does M acts a) :
    (p >>= fun a => pure (f a)).Does M acts (f a) := by
  rw [← List.append_nil acts]
  exact h.bind (.done _)

/-- Callbacks that are all there are found. -/
theorem findAll_of_finds (occurrences : List (Occurrence κ))
    (h : ∀ o ∈ occurrences, ∀ callback, o.listed.inline? = some callback → o.callback = callback) :
    (findAll record phase (occurrences.map Occurrence.listed) : Program κ φ _).Does M
      (occurrences.flatMap Occurrence.lookups)
      (.ok (occurrences.map fun o => (o.listed.id, o.callback))) := by
  induction occurrences with
  | nil => exact .done _
  | cons first rest ih =>
    obtain ⟨hfirst, hrest⟩ := List.forall_mem_cons.1 h
    have hfind : (find record phase first.listed : Program κ φ _).Does M first.lookups (.ok first.callback) := by
      obtain ⟨listed, callback⟩ := first
      cases listed with
      | inlineHook stateIndex position own =>
        have hown : callback = own := hfirst own rfl
        rw [hown]
        exact .done _
      | stateHook state name => exact .ask (.done _)
      | transition name => exact .ask (.done _)
    rw [List.flatMap_cons]
    refine hfind.bind ?_
    rw [← List.append_nil (rest.flatMap _)]
    exact (ih hrest).bind (.done _)

/-- Callbacks that are called hand something back. -/
theorem callAll_calls (invoked : List (Occurrence κ × Settlement φ)) :
    (callAll context (invoked.map fun a => (a.1.listed.id, a.1.callback))).Does M
      (invoked.map fun a => .asked (.call a.1.callback context) a.2) (invoked.map Call.made) := by
  induction invoked with
  | nil => exact .done _
  | cons first rest ih => exact .ask_bind ih.bind_pure

/-! ## Turns -/

theorem Roster.next_heed {queue sleepers : List Nat} {position wakeUps : Nat} :
    (Roster.heed ⟨calls, position :: queue, sleepers, wakeUps⟩ wakeUps).next? =
      calls[position]?.map fun call => (position, call, ⟨calls, queue, sleepers, wakeUps⟩) := by
  simp [heed, next?]

/-- A turn in which a call comes to its outcome. -/
theorem pollTurns_noted {left position : Nat} (turns yields : Nat) {queue sleepers : List Nat} {outcome : Outcome}
    {roster : Roster φ} (hm : M m) (hc : calls[position]? = some call)
    (hcall : (pollCall id phase call).Does M acts ⟨x, .noted outcome⟩)
    (hrest : (pollTurns id phase left left yieldLimit
      ⟨calls.set position ⟨x, .noted outcome⟩, queue, sleepers, m.wakeUps⟩).Does M more roster) :
    (pollTurns id phase (left + 1) (turns + 1) (yields + 1)
      ⟨calls, position :: queue, sleepers, m.wakeUps⟩).Does M (acts ++ more) roster := by
  rw [pollTurns]
  refine .look_bind hm ?_
  rw [Roster.next_heed, hc]
  exact hcall.bind hrest

/-- A turn in which a call yields. -/
theorem pollTurns_yields {left turns yields position : Nat} {queue sleepers : List Nat}
    {settlement : Settlement φ} {roster : Roster φ} (hm : M m) (hc : calls[position]? = some call)
    (hcall : (pollCall id phase call).Does M acts ⟨x, .due settlement⟩)
    (hrest : (pollTurns id phase (left + 1) turns yields
      ⟨calls.set position ⟨x, .due settlement⟩, queue ++ [position], sleepers, m.wakeUps⟩).Does M more roster) :
    (pollTurns id phase (left + 1) (turns + 1) (yields + 1)
      ⟨calls, position :: queue, sleepers, m.wakeUps⟩).Does M (acts ++ more) roster := by
  rw [pollTurns]
  refine .look_bind hm ?_
  rw [Roster.next_heed, hc]
  exact hcall.bind hrest

/-! ## Calls that have their values at once -/

/-- A call by its identifier and the value that it handed back. -/
def Call.prompt (a : String × Json) : Call φ := ⟨a.1, .due (.value a.2)⟩

def Call.served (a : String × Json) : Call φ := ⟨a.1, .noted (.ok a.2)⟩

def Act.serve (id : TransitionId) (phase : Phase) (a : String × Json) : Act κ φ :=
  .made (.note id (.settle phase a.1 (.ok a.2)))

/-- How prompt calls end that stand one after the other. -/
def Ending.prompt (position : Nat) : List (String × Json) → List Ending
  | [] => []
  | a :: rest => ⟨position, a.1, .ok a.2⟩ :: prompt (position + 1) rest

variable {slow : String} {computation : φ} {value : Json}

/-- A slow call, then prompt ones of which some have ended. -/
def Call.crowd (slow : Call φ) (served prompt : List (String × Json)) : List (Call φ) :=
  slow :: (served.map Call.served ++ prompt.map Call.prompt)

theorem Call.getElem_crowd (slow : Call φ) (served : List (String × Json)) (first : String × Json)
    (rest : List (String × Json)) :
    (crowd slow served (first :: rest))[served.length + 1]? = some (prompt first) := by
  simp [crowd]

theorem Call.set_crowd (slow : Call φ) (served : List (String × Json)) (first : String × Json)
    (rest : List (String × Json)) :
    (crowd slow served (first :: rest)).set (served.length + 1) (Call.served first) =
      crowd slow (served ++ [first]) rest := by
  simp [crowd]

/-- What is done in the last turn of a slow call. -/
def Act.late (id : TransitionId) (phase : Phase) (slow : String) (computation : φ) (value : Json) :
    List (Act κ φ) :=
  [.asked (.poll computation) (.settled (.ok value)), .made (.note id (.settle phase slow (.ok value)))]

/-- **A slow call waits** until all prompt calls have had their turns. -/
theorem pollTurns_prompt (hm : M m) (prompt : List (String × Json)) :
    ∀ (served : List (String × Json)) (turns yields : Nat),
      (pollTurns id phase (prompt.length + 1) (turns + 1) (yields + 1)
        ⟨Call.crowd ⟨slow, .due (.pending computation)⟩ served prompt,
          List.range' (served.length + 1) prompt.length ++ [0], [], m.wakeUps⟩).Does M
        (prompt.map (Act.serve id phase) ++ Act.late id phase slow computation value)
        ⟨Call.crowd ⟨slow, .noted (.ok value)⟩ (served ++ prompt) [], [], [], m.wakeUps⟩ := by
  induction prompt with
  | nil =>
    intro served turns yields
    have hcall : (pollCall id phase ⟨slow, .due (.pending computation)⟩ : Program κ φ _).Does M
        (Act.late id phase slow computation value) ⟨slow, .noted (.ok value)⟩ := .ask (.change (.done _))
    have hfirst : (Call.crowd ⟨slow, .due (.pending computation)⟩ served [])[0]? =
        some ⟨slow, .due (.pending computation)⟩ := rfl
    have hover : ∀ roster, (pollTurns id phase 0 0 yieldLimit roster : Program κ φ _).Does M [] roster := by
      intro roster
      rw [pollTurns]
      exact .done roster
    rw [List.map_nil, List.nil_append, List.append_nil, ← List.append_nil (Act.late ..)]
    exact pollTurns_noted turns yields hm hfirst hcall (hover _)
  | cons first rest ih =>
    intro served turns yields
    have hcall : (pollCall id phase (Call.prompt first) : Program κ φ _).Does M [Act.serve id phase first]
        (Call.served first) := .change (.done _)
    -- an outcome renews the turns and the yields of the calls that are left
    have hrest := ih (served ++ [first]) rest.length 1
    rw [← Call.set_crowd, List.length_append, List.length_singleton, List.append_assoc] at hrest
    have hturn := pollTurns_noted turns yields hm (Call.getElem_crowd _ served first rest) hcall hrest
    exact hturn

/-- **Prompt calls end before a slow one** that had its turn before them. -/
theorem settling_prompt (prompt : List (String × Json)) : ∀ served : List (String × Json),
    Settling id phase (Call.crowd ⟨slow, .due (.pending computation)⟩ served prompt)
      (prompt.map (Act.serve (κ := κ) id phase) ++ Act.late id phase slow computation value)
      (Ending.prompt (served.length + 1) prompt ++ [⟨0, slow, .ok value⟩])
      (Call.crowd ⟨slow, .noted (.ok value)⟩ (served ++ prompt) []) := by
  induction prompt with
  | nil =>
    intro served
    have hcall : (⟨slow, .due (.pending computation)⟩ : Call φ).pending? = some computation := rfl
    rw [List.append_nil]
    exact .visit rfl (.settles (.ok value) hcall) (.none _)
  | cons first rest ih =>
    intro served
    have hrest := ih (served ++ [first])
    rw [← Call.set_crowd, List.length_append, List.length_singleton, List.append_assoc] at hrest
    have hvisit := Settling.visit (Call.getElem_crowd _ served first rest) (.notes first.1 (.ok first.2)) hrest
    exact hvisit

end

end StateEngine
