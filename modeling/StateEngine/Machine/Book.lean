import Mathlib.Data.List.Forall2
import StateEngine.Machine.Polling

/-!
# What a book tells

The book of a transition keeps one value and one reason for each callback identifier of a phase, although
callbacks may share their identifier. Of those that succeed the last one is kept, of those that fail the first.

* `Ending.value?`, `Ending.reason?`: what an ending says of an identifier.
* `Progress.Tells`: **what a book tells** of callbacks that ended one after the other.
* `InOrder`: endings, poll by poll, in the order of the calls.
-/

namespace StateEngine

/-- The value that a callback of an identifier succeeded with. -/
def Ending.value? (id : String) (ending : Ending) : Option Json :=
  if ending.id = id then
    match ending.outcome with
    | .ok value => some value
    | .error _ => none
  else none

/-- The reason that a callback of an identifier failed with. -/
def Ending.reason? (id : String) (ending : Ending) : Option Json :=
  if ending.id = id then
    match ending.outcome with
    | .ok _ => none
    | .error reason => some reason
  else none

/-- **What a book tells of a phase** whose callbacks ended one after the other: of each identifier the value of the
last that succeeded, and the reason of the first that failed. It tells nothing else. -/
structure Progress.Tells (book : Progress) (phase : Phase) (ended : List Ending) : Prop where
  resolution : ∀ id, book.resolutions.find? phase id = (ended.filterMap (Ending.value? id)).getLast?
  rejection : ∀ id, book.rejections.find? phase id = (ended.filterMap (Ending.reason? id)).head?

/-- A book with more marks. -/
def Progress.markAll (book : Progress) (marks : List Mark) : Progress := marks.foldl Progress.mark book

/-- Whether a mark is of how a callback of a phase ended. -/
def Mark.touches (phase : Phase) : Mark → Bool
  | .settle other _ _ => other = phase
  | _ => false

/-- The same endings in each poll, but in the order of the calls. -/
def InOrder (sorted ended : List (List Ending)) : Prop :=
  List.Forall₂ (fun sorted ended => sorted.Perm ended ∧ (sorted.map Ending.position).Pairwise (· < ·)) sorted ended

end StateEngine
