import StateEngine.Machine.Program

/-!
# Performing a transition

A phase runs in three steps: its callbacks are found, then all of them are called, then the calls
are polled until each has settled. The callbacks of a phase are those that the entered or the left
state hooks into it, then those that the record names. A transition is performed phase by phase, and
the first phase that fails ends it.

* `Definition.listed`: the callbacks of a phase, in order.
* `pollRoster`: one poll of the calls of a phase.
* `startPhase`, `continuePhase`: one phase up to its end or to the next pending computation.
* `startPerform`, `continuePerform`: likewise all phases.
-/

namespace StateEngine

/-- A callback as a phase lists it: by name or as an inline hook of a state, which is known by the
index of the state and its position among the hooks of the phase, or by name in the record. -/
inductive Listed (κ : Type) where
  | stateHook (state name : String)
  | inlineHook (stateIndex position : Nat) (callback : κ)
  | transition (name : String)

/-- The identifier under which the outcome of a callback is noted. -/
def Listed.id {κ : Type} : Listed κ → String
  | stateHook _ name => "state:" ++ name
  | inlineHook stateIndex position _ =>
    "state:_inline:" ++ toString stateIndex ++ "-" ++ toString position ++ "_"
  | transition name => "transition:" ++ name

/-- The state whose hooks a phase runs. -/
def Record.hookState? (record : Record) (phase : Phase) : Option String :=
  phase.side?.map fun
    | .entered => record.toState
    | .left => record.fromState

/-- The hooks of a state for a phase, as the phase lists them. -/
def Definition.listedHooks {κ : Type} (definition : Definition κ) (state : String) (phase : Phase) :
    List (Listed κ) :=
  (definition.hooksOf state phase).mapIdx fun position hook =>
    match hook with
    | .named name => .stateHook state name
    | .inline callback => .inlineHook ((definition.stateIndex? state).getD 0) position callback

/-- **The callbacks of a phase**, in the order in which they are found and called. -/
def Definition.listed {κ : Type} (definition : Definition κ) (record : Record) (phase : Phase) :
    List (Listed κ) :=
  (match record.hookState? phase with
    | none => []
    | some state => definition.listedHooks state phase) ++
    (record.callbacks.get phase).map .transition

variable {κ φ : Type}

/-- The callback of a name, which the target has to have. -/
def findNamed (name : String) (missing : String → MissingCallback) :
    Program κ φ (Except MissingCallback κ) := do
  match ← ask (.callback name) with
  | some callback => pure (.ok callback)
  | none => do
    let machine ← look
    pure (.error (missing machine.targetName))

/-- The callback that a phase lists. -/
def find (record : Record) (phase : Phase) : Listed κ → Program κ φ (Except MissingCallback κ)
  | .inlineHook _ _ callback => pure (.ok callback)
  | .stateHook state name => findNamed name fun target => .stateHook name target state phase
  | .transition name => findNamed name fun target => .transition name target record phase

/-- Find listed callbacks one after the other, up to the first that is missing. -/
def findAll (record : Record) (phase : Phase) :
    List (Listed κ) → Program κ φ (Except MissingCallback (List (String × κ)))
  | [] => pure (.ok [])
  | listed :: rest => do
    match ← find record phase listed with
    | .error error => pure (.error error)
    | .ok callback =>
      match ← findAll record phase rest with
      | .error error => pure (.error error)
      | .ok found => pure (.ok ((listed.id, callback) :: found))

/-- Call callbacks one after the other. -/
def callAll (context : Context) : List (String × κ) → Program κ φ (List (Call φ))
  | [] => pure []
  | (id, callback) :: rest => do
    let settlement ← ask (.call callback context)
    let calls ← callAll context rest
    pure (⟨id, .due settlement⟩ :: calls)

/-- Note an outcome of a callback. -/
def noteOutcome (t : TransitionId) (phase : Phase) (id : String) (outcome : Outcome) :
    Program κ φ (Call φ) := do
  make (.note t (.settle phase id outcome))
  pure ⟨id, .noted outcome⟩

/-- Poll the computation of a call. -/
def pollPending (t : TransitionId) (phase : Phase) (id : String) (computation : φ) :
    Program κ φ (Call φ) := do
  match ← ask (.poll computation) with
  | .yielding computation => pure ⟨id, .due (.pending computation)⟩
  | .sleeping computation => pure ⟨id, .asleep computation⟩
  | .settled outcome => noteOutcome t phase id outcome

/-- Poll one call, even if it sleeps, and note its outcome once there is one. -/
def pollCall (t : TransitionId) (phase : Phase) (call : Call φ) : Program κ φ (Call φ) :=
  match call.standing with
  | .noted _ => pure call
  | .due (.value value) => noteOutcome t phase call.id (.ok value)
  | .due (.error reason) => noteOutcome t phase call.id (.error reason)
  | .due (.pending computation) => pollPending t phase call.id computation
  | .asleep computation => pollPending t phase call.id computation

/-- Poll calls one after the other. -/
def pollAll (t : TransitionId) (phase : Phase) : List (Call φ) → Program κ φ (List (Call φ))
  | [] => pure []
  | call :: rest => do
    let call ← pollCall t phase call
    let rest ← pollAll t phase rest
    pure (call :: rest)

/-- Give the calls of a crowd their turns. Between two outcomes there are at most as many turns as
there are calls without an outcome, `left` of them, and at most `yields` calls that yield. -/
def pollTurns (t : TransitionId) (phase : Phase) (left turns yields : Nat) (roster : Roster φ) :
    Program κ φ (Roster φ) :=
  match left, turns, yields with
  | 0, _, _ => pure roster
  | _, 0, _ => pure roster
  | _, _, 0 => pure roster
  | left + 1, turns + 1, yields + 1 => do
    let machine ← look
    match (roster.heed machine.wakeUps).next? with
    | none => pure roster
    | some (position, call, roster) => do
      let call ← pollCall t phase call
      let roster := roster.record position call
      match call.standing with
      | .noted _ => pollTurns t phase left left yieldLimit roster
      | .due _ => pollTurns t phase (left + 1) turns yields roster
      | .asleep _ => pollTurns t phase (left + 1) turns (yields + 1) roster
termination_by (left, turns)

/-- **Poll the calls of a phase once**: all of them, or the turns of a crowd. -/
def pollRoster (t : TransitionId) (phase : Phase) (roster : Roster φ) :
    Program κ φ (Roster φ) :=
  if roster.isCrowd then
    pollTurns t phase roster.unsettled roster.unsettled yieldLimit roster
  else do
    let calls ← pollAll t phase roster.calls
    pure { roster with calls }

/-- The reason of the last of the outcomes that are failures. -/
def lastFailure? (outcomes : List Outcome) : Option Json :=
  (outcomes.filterMap fun
    | .ok _ => none
    | .error reason => some reason).getLast?

/-- The outcomes of all calls of a phase, taken together. -/
def verdict (outcomes : List Outcome) : Except Rejection Unit :=
  match lastFailure? outcomes with
  | none => .ok ()
  | some reason => .error (.callback reason)

/-- How far a phase or a whole transition has come. -/
inductive Advance (φ : Type) where
  | waiting (phase : Phase) (roster : Roster φ)
  | over (result : Except Rejection Unit)

/-- A phase is over once every call has settled. It fails with the last failure in the order of the
calls. -/
def Advance.ofRoster (phase : Phase) (roster : Roster φ) : Advance φ :=
  match roster.outcomes? with
  | none => .waiting phase roster
  | some outcomes =>
    match lastFailure? outcomes with
    | none => .over (.ok ())
    | some reason => .over (.error (.callback reason))

/-- Go on with a phase whose callbacks have been called. -/
def continuePhase (t : TransitionId) (phase : Phase) (roster : Roster φ) :
    Program κ φ (Advance φ) := do
  let roster ← pollRoster t phase roster
  pure (.ofRoster phase roster)

/-- Find the callbacks of a phase of a transition, up to the first that is missing. -/
def callbacksFor (t : Transition) (phase : Phase) :
    Program κ φ (Except MissingCallback (List (String × κ))) := do
  let machine ← look
  findAll t.record phase (machine.definition.listed t.record phase)

/-- Start a phase of a transition. Nothing is called unless every callback is found. -/
def startPhase (id : TransitionId) (t : Transition) (phase : Phase) : Program κ φ (Advance φ) := do
  match ← callbacksFor t phase with
  | .error error => pure (.over (.error (.missing error)))
  | .ok callbacks =>
    make (.note id .begin)
    let calls ← callAll (t.context phase) callbacks
    continuePhase id phase (.start calls)

/-- Start phases one after the other, up to the first that waits or fails. -/
def startPhases (id : TransitionId) (t : Transition) : List Phase → Program κ φ (Advance φ)
  | [] => do
    make (.note id .resolve)
    pure (.over (.ok ()))
  | phase :: rest => do
    match ← startPhase id t phase with
    | .waiting phase roster => pure (.waiting phase roster)
    | .over (.ok ()) => startPhases id t rest
    | .over (.error rejection) =>
      make (.note id (.reject rejection))
      pure (.over (.error rejection))

/-- **Start to perform a transition.** -/
def startPerform (id : TransitionId) (t : Transition) : Program κ φ (Advance φ) :=
  startPhases id t Phase.all

/-- **Go on performing a transition** whose phase waits for calls. -/
def continuePerform (id : TransitionId) (t : Transition) (phase : Phase) (roster : Roster φ) :
    Program κ φ (Advance φ) := do
  match ← continuePhase id phase roster with
  | .waiting phase roster => pure (.waiting phase roster)
  | .over (.ok ()) => startPhases id t phase.later
  | .over (.error rejection) =>
    make (.note id (.reject rejection))
    pure (.over (.error rejection))

end StateEngine
