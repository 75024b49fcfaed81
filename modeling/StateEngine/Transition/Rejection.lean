import StateEngine.Json.Writer
import StateEngine.Definition.Error
import StateEngine.Definition.Record

/-!
# Rejections

A transition rejects because a callback failed, or because a phase names a callback that the target
does not have.
-/

namespace StateEngine

/-- A name that the target has no callback for. -/
inductive MissingCallback where
  | stateHook (callback target state : String) (phase : Phase)
  | transition (callback target : String) (record : Record) (phase : Phase)
  deriving DecidableEq, Repr

def MissingCallback.message : MissingCallback → String
  | stateHook callback target state phase =>
    "callback " ++ named callback ++ " on target " ++ named target ++
      " is not defined, it is named by the " ++ phase.name ++ " hook of state " ++ named state
  | transition callback target record phase =>
    "callback " ++ named callback ++ " on target " ++ named target ++
      " is not defined, it is named by the " ++ phase.name ++ " list of transition " ++ record.label

theorem MissingCallback.message_stateHook (callback target state : String) (phase : Phase) :
    (stateHook callback target state phase).message = "callback \"" ++ callback ++ "\" on target \"" ++ target ++
      "\" is not defined, it is named by the " ++ (phase.name ++ " hook of state \"" ++ state ++ "\"") := by
  rw [show "callback \"" = "callback " ++ "\"" by simp,
    show "\" on target \"" = "\"" ++ " on target " ++ "\"" by simp,
    show "\" is not defined, it is named by the " = "\"" ++ " is not defined, it is named by the " by simp,
    show " hook of state \"" = " hook of state " ++ "\"" by simp]
  unfold message named
  simp only [String.append_assoc]

theorem MissingCallback.message_transition (callback target : String) (record : Record) (phase : Phase) :
    (transition callback target record phase).message = "callback \"" ++ callback ++ "\" on target \"" ++ target ++
      "\" is not defined, it is named by the " ++ (phase.name ++ " list of transition \"" ++ record.event ++ "\" (" ++
        record.fromState ++ " -> " ++ record.toState ++ ")") := by
  rw [show "callback \"" = "callback " ++ "\"" by simp,
    show "\" on target \"" = "\"" ++ " on target " ++ "\"" by simp,
    show "\" is not defined, it is named by the " = "\"" ++ " is not defined, it is named by the " by simp,
    show " list of transition \"" = " list of transition " ++ "\"" by simp]
  unfold message named Record.label
  simp only [String.append_assoc]

/-- Why a performed transition rejects. -/
inductive Rejection where
  | callback (reason : Json)
  | missing (error : MissingCallback)
  deriving Repr

namespace Rejection

def message : Rejection → String
  | callback reason => "callback rejected with " ++ reason.text
  | missing error => error.message

/-- The rejection as the payload of the error event. -/
def toJson : Rejection → Json
  | callback reason => reason
  | missing error => .string error.message

/-- The reason of the callback that failed. -/
def reason? : Rejection → Option Json
  | callback reason => some reason
  | missing _ => none

end Rejection

end StateEngine
