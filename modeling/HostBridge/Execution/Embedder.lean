import HostBridge.Execution.Command
import HostBridge.Execution.Procedure
/-!
# Embedders

An embedder brings the script engine. It is any machine that takes one move after the other: while
it runs it sees the whole world, but changes it by commands and procedures only.
-/

namespace HostBridge

variable {Obj τ : Type} [Facility τ]

inductive Move (Obj τ : Type) [Facility τ] (Activity : Type) (k : Call Obj)
  | proceed (a : Activity)
  | command (c : Command Obj τ) (resume : c.Answer → Activity)
  | procedure (p : Procedure) (resume : p.Answer → Activity)
  | finish (reply : k.Reply)

structure Turn (Obj τ : Type) [Facility τ] (State Activity Note : Type) (k : Call Obj) where
  state : State
  notes : List Note := []
  move : Move Obj τ Activity k

structure Embedder (Obj τ : Type) [Facility τ] : Type 1 where
  State : Type
  Activity : Type
  Note : Type
  types : TypeId → TypeDescriptor
  alive : State → Heap Obj → Handle → Bool
  enter : Call Obj → Activity
  next : (k : Call Obj) → World Obj τ → State → Activity → Turn Obj τ State Activity Note k

end HostBridge
