import HostBridge.Execution.Embedder
/-!
# Execution

An execution alternates between code of the embedder and tasks of the bridge. A call suspends the
procedure that makes it, a procedure suspends the code that asked for it, so at any moment one of
the two is in focus and the suspended procedures form a stack. `history` records what happened, the
newest first.
-/

namespace HostBridge

variable {Obj τ : Type} [Facility τ]

structure Suspended (E : Embedder Obj τ) where
  k : Call Obj
  procedure : Procedure
  resume : procedure.Answer → E.Activity
  todo : List (Task Obj)
  progress : Progress

inductive Focus (E : Embedder Obj τ)
  | halted
  | code (k : Call Obj) (a : E.Activity)
  | bridge (s : Suspended E)

inductive Event (E : Embedder Obj τ)
  | called (k : Call Obj)
  | returned (k : Call Obj) (reply : k.Reply)
  | performed (c : Command Obj τ) (answer : c.Answer)
  | began (p : Procedure)
  | ended (p : Procedure) (answer : p.Answer)
  | signal (s : Signal)
  | note (n : E.Note)

structure Execution (E : Embedder Obj τ) where
  world : World Obj τ
  state : E.State
  focus : Focus E
  below : List (Suspended E) := []
  history : List (Event E) := []

namespace Execution

variable {E : Embedder Obj τ}

def start (world : World Obj τ) (state : E.State) (a : E.Activity) : Execution E :=
  { world, state, focus := .code .session a }

def record (x : Execution E) (events : List (Event E)) : Execution E :=
  { x with history := events.reverse ++ x.history }

def advance (x : Execution E) (s : Suspended E) (a : Advance Obj τ) : Execution E :=
  { x.record (a.signals.map .signal) with
    world := a.world
    focus := .bridge { s with todo := a.first ++ s.todo, progress := a.progress } }

def reply (x : Execution E) (k : Call Obj) (r : k.Reply) : Execution E :=
  match x.below with
  | [] => { x with focus := .halted }
  | s :: below => { x with below }.advance s (k.resume E.types x.world s.progress r)

def move (x : Execution E) (k : Call Obj) (a : E.Activity) : Execution E :=
  let turn := E.next k x.world x.state a
  let x := { x with state := turn.state }.record (turn.notes.map .note)
  match turn.move with
  | .proceed a => { x with focus := .code k a }
  | .command c resume =>
    let effect := c.perform x.world
    { x.record (effect.signals.map .signal ++ [.performed c effect.answer]) with
      world := effect.world
      focus := .code k (resume effect.answer) }
  | .procedure p resume =>
    (x.record [.began p]).advance ⟨k, p, resume, [], {}⟩ (p.start x.world)
  | .finish r => (x.record [.returned k r]).reply k r

def work [Traced Obj] (x : Execution E) (s : Suspended E) : Execution E :=
  match s.todo with
  | [] =>
    let answer := s.procedure.answer s.progress
    { x.record [.ended s.procedure answer] with focus := .code s.k (s.resume answer) }
  | .call k :: todo =>
    { x.record [.called k] with focus := .code k (E.enter k), below := { s with todo } :: x.below }
  | task :: todo =>
    let env : Surroundings := ⟨E.types, E.alive x.state x.world.heap⟩
    x.advance { s with todo } (task.run env x.world s.progress)

/-- One step; nothing follows the end of the embedder's own code. -/
def step [Traced Obj] (x : Execution E) : Option (Execution E) :=
  match x.focus with
  | .halted => none
  | .code k a => some (x.move k a)
  | .bridge s => some (x.work s)

def run [Traced Obj] : Nat → Execution E → Execution E
  | 0, x => x
  | fuel + 1, x =>
    match x.step with
    | some x => run fuel x
    | none => x

inductive Reaches [Traced Obj] : Execution E → Execution E → Prop
  | refl (x : Execution E) : Reaches x x
  | step {x y z : Execution E} : Reaches x y → y.step = some z → Reaches x z

end Execution

end HostBridge
