import StateEngine.Machine.Operation

/-!
# Runs

A host starts operations and answers requests. While an operation waits for its answer the host may
start others on the same machine, from inside a guard, a callback or a listener, and any operation
that waits may be the next one to be answered.

* `World`: a machine, the operations that wait, and the trace of what was done.
* `World.Next`: one move of the host, up to the end of an operation or to its next request.
* `Reaches`: the worlds that a machine can get into. At such points the host sees the machine.
-/

namespace StateEngine

/-- One thing that operations did: they changed a machine, or asked. -/
inductive Deed (κ φ : Type) where
  | changed (machine : Machine κ φ) (change : Change φ)
  | asked (request : Request κ φ)

/-- A machine and the trace of all that was done so far, the oldest deed first. -/
structure Scene (κ φ : Type) where
  machine : Machine κ φ
  trace : List (Deed κ φ)

/-- An operation that waits for the answer to a request. -/
structure Waiting (κ φ : Type) where
  operation : Operation
  request : Request κ φ
  resume : request.Reply → Program κ φ operation.Result

/-- A machine with the operations that wait for an answer. -/
structure World (κ φ : Type) where
  scene : Scene κ φ
  waiting : List (Waiting κ φ)

variable {κ φ : Type}

namespace Scene

/-- A change is made. -/
def make (scene : Scene κ φ) (c : Change φ) : Scene κ φ :=
  ⟨c.apply scene.machine, scene.trace ++ [.changed scene.machine c]⟩

/-- The host is asked. -/
def ask (scene : Scene κ φ) (request : Request κ φ) : Scene κ φ :=
  ⟨scene.machine, scene.trace ++ [.asked request]⟩

end Scene

namespace World

/-- The world of a machine with which nothing was done. -/
def start (machine : Machine κ φ) : World κ φ := ⟨⟨machine, []⟩, []⟩

def machine (world : World κ φ) : Machine κ φ := world.scene.machine

def trace (world : World κ φ) : List (Deed κ φ) := world.scene.trace

/-- Go on with an operation, up to its end or to its next request. -/
def proceed (op : Operation) : Program κ φ op.Result → World κ φ → World κ φ
  | .done _, world => world
  | .look next, world => proceed op (next world.machine) world
  | .change c next, world => proceed op next { world with scene := world.scene.make c }
  | .ask request resume, world =>
    ⟨world.scene.ask request, ⟨op, request, resume⟩ :: world.waiting⟩

/-- The host starts an operation. -/
def begin (op : Operation) (world : World κ φ) : World κ φ := proceed op op.program world

/-- **One move of the host**: it starts an operation, or answers one that waits. -/
inductive Next : Operation → World κ φ → World κ φ → Prop where
  | start (op : Operation) (world : World κ φ) : Next op world (begin op world)
  | answer (scene : Scene κ φ) (newer : List (Waiting κ φ)) (x : Waiting κ φ)
      (older : List (Waiting κ φ)) (reply : x.request.Reply) :
      Next x.operation ⟨scene, newer ++ x :: older⟩
        (proceed x.operation (x.resume reply) ⟨scene, newer ++ older⟩)

end World

/-- **The worlds that a machine can get into.** -/
inductive Reaches (machine : Machine κ φ) : World κ φ → Prop where
  | start : Reaches machine (.start machine)
  | next {op : Operation} {world world' : World κ φ} :
      Reaches machine world → world.Next op world' → Reaches machine world'

end StateEngine
