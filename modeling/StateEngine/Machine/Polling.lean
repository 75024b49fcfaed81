import StateEngine.Machine.Performance

/-!
# Polls of a future

A future is polled until it has settled. What is done in one poll is kept apart from what is done in the next
one, for between two polls anything may happen to the machine.

* `Pends`, `Polls`: what is done in the polls of a future, and what the last of them comes to.
* `Act.invocation?`, `Act.handed?`, `Act.mark?`: what is called, what it hands back, and what is noted.
* `Ending`, `Call.endings`: the calls that have their outcomes.
* `Rounds`: the polls of a phase, and how its calls end in each.
-/

namespace StateEngine

variable {κ φ : Type}

/-- **The polls of a future that still pends**, and where they leave it. The book of its transition may be any at
each poll, for others may write in it. -/
inductive Pends (d : Definition κ) (target : String) (f : FutureId) (id : TransitionId) (t : Transition)
    (purpose : Purpose) : List (List (Act κ φ)) → Stage φ → Prop where
  | unpolled : Pends d target f id t purpose [] .unpolled
  | poll {progress : Progress} {polls : List (List (Act κ φ))} {stage next : Stage φ}
      {acts : List (Act κ φ)} :
      Pends d target f id t purpose polls stage →
      (pollFrom f id { t with progress } purpose stage).Does (Machine.Serves d target)
        (acts ++ [.made (.setStage f next)]) .pending →
      Pends d target f id t purpose (polls ++ [acts ++ [.made (.setStage f next)]]) next

/-- **The polls of a future**, and what the last of them came to. -/
inductive Polls (d : Definition κ) (target : String) (f : FutureId) (id : TransitionId) (t : Transition)
    (purpose : Purpose) : List (List (Act κ φ)) → Polled → Prop where
  | poll {progress : Progress} {polls : List (List (Act κ φ))} {stage : Stage φ} {acts : List (Act κ φ)}
      {polled : Polled} :
      Pends d target f id t purpose polls stage →
      (pollFrom f id { t with progress } purpose stage).Does (Machine.Serves d target) acts polled →
      Polls d target f id t purpose (polls ++ [acts]) polled

/-- What a future that is no dispatch comes to, if nothing is rejected. -/
def Polled.ofResult (done : Polled) : Except Rejection Unit → Polled
  | .ok () => done
  | .error rejection => .rejected rejection

/-! ## What acts tell -/

/-- The settlement of a callback that a mark notes. -/
def Mark.settled? : Mark → Option (Phase × String × Outcome)
  | .settle phase id outcome => some (phase, id, outcome)
  | _ => none

namespace Act

/-- The callback that is called, and what it is told. -/
def invocation? : Act κ φ → Option (κ × Context)
  | .asked (.call callback context) _ => some (callback, context)
  | _ => none

/-- What a callback of a phase hands back. -/
def handed? (phase : Phase) : Act κ φ → Option (Settlement φ)
  | .asked (.call _ context) settlement => if context.phase = phase then some settlement else none
  | _ => none

/-- The mark that is made in the book of a transition. -/
def mark? (id : TransitionId) : Act κ φ → Option Mark
  | .made (.note i mark) => if i = id then some mark else none
  | _ => none

/-- The settlement that is noted in the book of a transition. -/
def settled? (id : TransitionId) (act : Act κ φ) : Option (Phase × String × Outcome) :=
  (act.mark? id).bind Mark.settled?

/-- Whether an act only puts a future where it stands after a poll. -/
def isRest : Act κ φ → Bool
  | .made (.setStage _ _) => true
  | .made (.closeFuture _) => true
  | _ => false

/-- The phase that a call or the note of a settlement belongs to. -/
def phase? : Act κ φ → Option Phase
  | .asked (.call _ context) _ => some context.phase
  | .made (.note _ (.settle phase _ _)) => some phase
  | _ => none

end Act

/-! ## How calls end -/

/-- How a call ended: its place among the calls of its phase, its identifier, and its outcome. -/
structure Ending where
  position : Nat
  id : String
  outcome : Outcome

/-- The ending of a call at a position, if it has its outcome. -/
def Call.ending? (position : Nat) (call : Call φ) : Option Ending :=
  call.outcome?.map fun outcome => ⟨position, call.id, outcome⟩

/-- The endings of the calls that have their outcomes, in the order of the calls. Positions are counted from the
first call. -/
def Call.endings (first : Nat) : List (Call φ) → List Ending
  | [] => []
  | call :: rest => (call.ending? first).toList ++ endings (first + 1) rest

/-- What is noted of an ending. -/
def Ending.settled (phase : Phase) (ending : Ending) : Phase × String × Outcome :=
  (phase, ending.id, ending.outcome)

/-- **Visits of calls**, and the endings that they come to, in the order in which they do. -/
inductive Settling (id : TransitionId) (phase : Phase) :
    List (Call φ) → List (Act κ φ) → List Ending → List (Call φ) → Prop where
  | none (calls : List (Call φ)) : Settling id phase calls [] [] calls
  | visit {calls calls' : List (Call φ)} {position : Nat} {call call' : Call φ}
      {acts more : List (Act κ φ)} {rest : List Ending} :
      calls[position]? = some call → Visit id phase call acts call' →
      Settling id phase (calls.set position call') more rest calls' →
      Settling id phase calls (acts ++ more) ((call'.ending? position).toList ++ rest) calls'

/-! ## The polls of a phase -/

/-- A call that has just been made. -/
def Call.made (a : Occurrence κ × Settlement φ) : Call φ := ⟨a.1.listed.id, .due a.2⟩

/-- What is done in a phase of which all callbacks are there, until its future is polled no further. -/
def invokes (id : TransitionId) (context : Context) (invoked : List (Occurrence κ × Settlement φ))
    (visits : List (Act κ φ)) : List (Act κ φ) :=
  invoked.flatMap (fun a => a.1.lookups) ++ .made (.note id .begin) ::
    (invoked.map (fun a => .asked (.call a.1.callback context) a.2) ++ visits)

/-- **The polls of a phase**, the endings that its calls come to in each of them, and the calls as they stand after
the last. In the first poll the callbacks are found and called, unless one is missing. After each the future is put
where it stands. -/
inductive Rounds (d : Definition κ) (target : String) (id : TransitionId) (t : Transition) (phase : Phase) :
    List (List (Act κ φ)) → List (List Ending) → List (Call φ) → Prop where
  | missing {lookups : List (Act κ φ)} {error : MissingCallback} {last : Act κ φ} :
      Misses target t.record phase (d.listed t.record phase) lookups error → last.isRest = true →
      Rounds d target id t phase [lookups ++ [last]] [[]] []
  | first {invoked : List (Occurrence κ × Settlement φ)} {visits : List (Act κ φ)} {ended : List Ending}
      {calls : List (Call φ)} {last : Act κ φ} :
      Finds (d.listed t.record phase) (invoked.map (·.1)) →
      Settling id phase (invoked.map Call.made) visits ended calls → last.isRest = true →
      Rounds d target id t phase [invokes id (t.context phase) invoked visits ++ [last]] [ended] calls
  | again {polls : List (List (Act κ φ))} {ended : List (List Ending)} {calls calls' : List (Call φ)}
      {acts : List (Act κ φ)} {more : List Ending} {last : Act κ φ} :
      Rounds d target id t phase polls ended calls → Settling id phase calls acts more calls' →
      last.isRest = true →
      Rounds d target id t phase (polls ++ [acts ++ [last]]) (ended ++ [more]) calls'

end StateEngine
