import StateEngine.Definition.Reading
import StateEngine.Machine.Dispatch

/-!
# Performances

To perform a transition takes any number of polls, between which anything may happen to the machine. What a
host sees of it are requests that are answered and changes that are made. In what order they come is laid
down here without regard to where one poll ends and the next one begins.

* `Program.Does`: what a program does, whatever the answers are.
* `Performance`: what is done for a transition from its first poll on.
* `Reading.listed`: the callbacks of a phase, as the value of a definition has them.
* `Round`: the calls that a poll of a phase has to visit.
* `Conducted`: phases one after the other, and how the last of them ended.
-/

namespace StateEngine

variable {κ φ α : Type}

/-! ## What programs do -/

/-- What a program does: it gets an answer to a request, or makes a change. -/
inductive Act (κ φ : Type) where
  | asked (request : Request κ φ) (reply : request.Reply)
  | made (change : Change φ)

/-- **What a program may do** up to its result, if the machine is one of some whenever it looks. -/
inductive Program.Does (M : Machine κ φ → Prop) : Program κ φ α → List (Act κ φ) → α → Prop where
  | done (a : α) : Does M (.done a) [] a
  | look {next : Machine κ φ → Program κ φ α} {m : Machine κ φ} {acts : List (Act κ φ)} {a : α} :
      M m → Does M (next m) acts a → Does M (.look next) acts a
  | change {c : Change φ} {next : Program κ φ α} {acts : List (Act κ φ)} {a : α} :
      Does M next acts a → Does M (.change c next) (.made c :: acts) a
  | ask {request : Request κ φ} {resume : request.Reply → Program κ φ α} {reply : request.Reply}
      {acts : List (Act κ φ)} {a : α} :
      Does M (resume reply) acts a → Does M (.ask request resume) (.asked request reply :: acts) a

/-- A machine of a definition, with a target of some name. Nothing else of it is ever fixed. -/
structure Machine.Serves (d : Definition κ) (target : String) (m : Machine κ φ) : Prop where
  definition : m.definition = d
  target : m.targetName = target

/-- **What is done to perform a transition**, poll by poll, and how far it has come. The book of the
transition may be any at each poll, for others may write in it. -/
inductive Performance (d : Definition κ) (target : String) (id : TransitionId) (t : Transition) :
    List (Act κ φ) → Advance φ → Prop where
  | first {progress : Progress} {acts : List (Act κ φ)} {a : Advance φ} :
      (advance id { t with progress } .unpolled).Does (Machine.Serves d target) acts a →
      Performance d target id t acts a
  | again {progress : Progress} {acts more : List (Act κ φ)} {phase : Phase} {roster : Roster φ}
      {a : Advance φ} :
      Performance d target id t acts (.waiting phase roster) →
      (advance id { t with progress } (.waiting phase roster)).Does (Machine.Serves d target) more a →
      Performance d target id t (acts ++ more) a

/-! ## What a phase lists -/

namespace Listed

/-- The name that a listed callback is looked up by. An inline hook has none. -/
def name? : Listed κ → Option String
  | stateHook _ name => some name
  | inlineHook _ _ _ => none
  | transition name => some name

/-- The callback that an inline hook is itself. -/
def inline? : Listed κ → Option κ
  | inlineHook _ _ callback => some callback
  | _ => none

/-- What is wrong if the target lacks a listed callback. -/
def missing? (target : String) (record : Record) (phase : Phase) : Listed κ → Option MissingCallback
  | stateHook state name => some (.stateHook name target state phase)
  | inlineHook _ _ _ => none
  | transition name => some (.transition name target record phase)

end Listed

namespace Reading

/-- What a state hooks into a phase as the value of a definition has it, first by name and then inline. Inline
hooks are numbered after the named ones. -/
def listedHooks (spec : Json) (inline : List (InlineHook κ)) (stateIndex : String → Nat) (state : String)
    (phase : Phase) : List (Listed κ) :=
  (stateHooks spec state phase).map (.stateHook state) ++
    (inlineHooks inline state phase).mapIdx fun position callback =>
      .inlineHook (stateIndex state) ((stateHooks spec state phase).length + position) callback

/-- The callbacks of an event, and then those of a transition object. -/
def named (event object : Json) (phase : Phase) : List (Listed κ) :=
  (callbacks event phase ++ callbacks object phase).map .transition

/-- **The callbacks of a phase as the value of a definition has them.** The state that is left hooks into both
phases of its exit, and the state that is entered into both phases of its entry. -/
def listed (spec : Json) (inline : List (InlineHook κ)) (stateIndex : String → Nat) (record : Record)
    (event object : Json) : Phase → List (Listed κ)
  | .beforeEvent => named event object .beforeEvent
  | .willExit => listedHooks spec inline stateIndex record.fromState .willExit ++ named event object .willExit
  | .willEnter => listedHooks spec inline stateIndex record.toState .willEnter ++ named event object .willEnter
  | .didExit => listedHooks spec inline stateIndex record.fromState .didExit ++ named event object .didExit
  | .didEnter => listedHooks spec inline stateIndex record.toState .didEnter ++ named event object .didEnter
  | .afterEvent => named event object .afterEvent

end Reading

/-! ## How a phase is conducted -/

/-- A listed callback, and the callback that was found for it. -/
structure Occurrence (κ : Type) where
  listed : Listed κ
  callback : κ

/-- How the callback of an occurrence was found: inline ones are not looked up. -/
def Occurrence.lookups (occurrence : Occurrence κ) : List (Act κ φ) :=
  match occurrence.listed.name? with
  | none => []
  | some name => [.asked (.callback name) (some occurrence.callback)]

/-- Whether every listed callback occurs in its place, and inline ones are what they are. -/
structure Finds (listed : List (Listed κ)) (occurrences : List (Occurrence κ)) : Prop where
  all : occurrences.map Occurrence.listed = listed
  inline : ∀ occurrence ∈ occurrences, ∀ callback,
    occurrence.listed.inline? = some callback → occurrence.callback = callback

/-- **A phase of which a callback is missing**: all before the first one that is are found, and nothing is
done but to look them up. -/
inductive Misses (target : String) (record : Record) (phase : Phase) (listed : List (Listed κ)) :
    List (Act κ φ) → MissingCallback → Prop where
  | intro {before : List (Occurrence κ)} {missing : Listed κ} {after : List (Listed κ)} {name : String}
      {error : MissingCallback} :
      listed = before.map Occurrence.listed ++ missing :: after →
      Finds (before.map Occurrence.listed) before →
      missing.name? = some name →
      missing.missing? target record phase = some error →
      Misses target record phase listed
        (before.flatMap Occurrence.lookups ++ [.asked (.callback name) none]) error

/-- **A visit of a call**: an outcome that it has come to is noted, or its computation is polled. -/
inductive Visit (id : TransitionId) (phase : Phase) :
    Call φ → List (Act κ φ) → Call φ → Prop where
  | notes (callId : String) (outcome : Outcome) :
      Visit id phase ⟨callId, .due (.ofOutcome outcome)⟩
        [.made (.note id (.settle phase callId outcome))] ⟨callId, .noted outcome⟩
  | yields {call : Call φ} {computation : φ} (next : φ) : call.pending? = some computation →
      Visit id phase call [.asked (.poll computation) (.yielding next)]
        ⟨call.id, .due (.pending next)⟩
  | sleeps {call : Call φ} {computation : φ} (next : φ) : call.pending? = some computation →
      Visit id phase call [.asked (.poll computation) (.sleeping next)] ⟨call.id, .asleep next⟩
  | settles {call : Call φ} {computation : φ} (outcome : Outcome) : call.pending? = some computation →
      Visit id phase call [.asked (.poll computation) (.settled outcome),
        .made (.note id (.settle phase call.id outcome))] ⟨call.id, .noted outcome⟩

/-- Visits of calls in any order. -/
inductive Visits (id : TransitionId) (phase : Phase) :
    List (Call φ) → List (Act κ φ) → List (Call φ) → Prop where
  | none (calls : List (Call φ)) : Visits id phase calls [] calls
  | visit {calls calls' : List (Call φ)} {position : Nat} {call call' : Call φ}
      {acts more : List (Act κ φ)} :
      calls[position]? = some call → Visit id phase call acts call' →
      Visits id phase (calls.set position call') more calls' →
      Visits id phase calls (acts ++ more) calls'

/-- **A sweep over calls**: each that has no outcome yet is visited once, in their order. -/
inductive Sweep (id : TransitionId) (phase : Phase) :
    List (Call φ) → List (Act κ φ) → List (Call φ) → Prop where
  | nil : Sweep id phase [] [] []
  | skip {call : Call φ} {outcome : Outcome} {rest rest' : List (Call φ)} {acts : List (Act κ φ)} :
      call.standing = .noted outcome → Sweep id phase rest acts rest' →
      Sweep id phase (call :: rest) acts (call :: rest')
  | visit {call call' : Call φ} {rest rest' : List (Call φ)} {acts more : List (Act κ φ)} :
      Visit id phase call acts call' → Sweep id phase rest more rest' →
      Sweep id phase (call :: rest) (acts ++ more) (call' :: rest')

/-- **What one poll does to the calls of a phase.** Up to thirty are swept. More of them have turns, and at least
one has its turn if one is due. -/
inductive Round (id : TransitionId) (phase : Phase) :
    List (Call φ) → List (Act κ φ) → List (Call φ) → Prop where
  | sweep {calls calls' : List (Call φ)} {acts : List (Act κ φ)} :
      calls.length ≤ 30 → Sweep id phase calls acts calls' → Round id phase calls acts calls'
  | turns {calls calls' : List (Call φ)} {acts : List (Act κ φ)} :
      30 < calls.length → Visits id phase calls acts calls' →
      ((∃ call ∈ calls, ∃ settlement, call.standing = .due settlement) → acts ≠ []) →
      Round id phase calls acts calls'

/-- What any number of polls does to the calls of a phase, and one at least. -/
inductive Attended (id : TransitionId) (phase : Phase) :
    List (Call φ) → List (Act κ φ) → List (Call φ) → Prop where
  | once {calls calls' : List (Call φ)} {acts : List (Act κ φ)} :
      Round id phase calls acts calls' → Attended id phase calls acts calls'
  | again {calls calls' calls'' : List (Call φ)} {acts more : List (Act κ φ)} :
      Attended id phase calls acts calls' → Round id phase calls' more calls'' →
      Attended id phase calls (acts ++ more) calls''

/-- **A phase whose callbacks are called**: all of them are found, then each occurrence is called once, and
then the calls are attended to. -/
inductive Ran (id : TransitionId) (context : Context) (listed : List (Listed κ)) :
    List (Act κ φ) → List (Call φ) → Prop where
  | intro {invoked : List (Occurrence κ × Settlement φ)} {visits : List (Act κ φ)}
      {calls : List (Call φ)} :
      Finds listed (invoked.map (·.1)) →
      Attended id context.phase
        (invoked.map fun (occurrence, settlement) => ⟨occurrence.listed.id, .due settlement⟩)
        visits calls →
      Ran id context listed
        (invoked.flatMap (·.1.lookups) ++ .made (.note id .begin) ::
          (invoked.map (fun (occurrence, settlement) =>
              .asked (.call occurrence.callback context) settlement) ++
            visits))
        calls

/-- **Whether the calls of a crowd keep their turns**: each that has no outcome is in one of the queues, and in
the one of those whose turn comes next if it is due. -/
structure Roster.KeepsTurns (roster : Roster φ) : Prop where
  fair : ∃ wakeUps, roster.Fair wakeUps
  due : ∀ position call settlement, roster.calls[position]? = some call → call.standing = .due settlement →
    position ∈ roster.queue

/-- **Phases, one after the other.** A callback is told the event, the states and the arguments of the
transition, and the phase. The next phase is not begun before all calls of a phase have succeeded. The first
that fails is the last, whether a callback is missing or a call failed, and then the last call that failed tells
why; so far is one whose calls have not all settled. -/
inductive Conducted (d : Definition κ) (target : String) (id : TransitionId) (t : Transition) :
    List Phase → List (Act κ φ) → Advance φ → Prop where
  | resolved : Conducted d target id t [] [.made (.note id .resolve)] (.over (.ok ()))
  | missing {phase : Phase} {later : List Phase} {lookups : List (Act κ φ)} {error : MissingCallback} :
      Misses target t.record phase (d.listed t.record phase) lookups error →
      Conducted d target id t (phase :: later) (lookups ++ [.made (.note id (.reject (.missing error)))])
        (.over (.error (.missing error)))
  | waiting {phase : Phase} {later : List Phase} {acts : List (Act κ φ)} {roster : Roster φ} :
      Ran id ⟨t.record.event, t.record.fromState, t.record.toState, phase, t.args⟩ (d.listed t.record phase)
        acts roster.calls →
      (∃ call ∈ roster.calls, ∀ outcome, call.standing ≠ .noted outcome) →
      (30 < roster.calls.length → roster.KeepsTurns) →
      Conducted d target id t (phase :: later) acts (.waiting phase roster)
  | failed {phase : Phase} {later : List Phase} {acts : List (Act κ φ)} {before after : List (Call φ)}
      {callId : String} {reason : Json} :
      Ran id ⟨t.record.event, t.record.fromState, t.record.toState, phase, t.args⟩ (d.listed t.record phase)
        acts (before ++ ⟨callId, .noted (.error reason)⟩ :: after) →
      (∀ call ∈ before, ∃ outcome, call.standing = .noted outcome) →
      (∀ call ∈ after, ∃ value, call.standing = .noted (.ok value)) →
      Conducted d target id t (phase :: later) (acts ++ [.made (.note id (.reject (.callback reason)))])
        (.over (.error (.callback reason)))
  | next {phase : Phase} {later : List Phase} {acts more : List (Act κ φ)} {calls : List (Call φ)}
      {a : Advance φ} :
      Ran id ⟨t.record.event, t.record.fromState, t.record.toState, phase, t.args⟩ (d.listed t.record phase)
        acts calls →
      (∀ call ∈ calls, ∃ value, call.standing = .noted (.ok value)) →
      Conducted d target id t later more a →
      Conducted d target id t (phase :: later) (acts ++ more) a

end StateEngine
