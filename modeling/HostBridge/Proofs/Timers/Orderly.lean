import HostBridge.Proofs.Timers.Dispatch
import HostBridge.Proofs.Timers.Expiry
import HostBridge.Proofs.Timers.OneShot
/-!
# Timers that the manual facility times

Where timers are only set, and fires come only from the facility by way of the queue, every dispatch
calls the timer that it finds, reports its error or is dropped. A timeout is called back at most
once, an interval at most once for each of its expiries, and neither once it has been cleared or its
context disposed.
-/

namespace HostBridge.Execution

section

variable {Obj τ : Type} [Facility τ] {E : Embedder Obj τ} [Traced Obj] {x : Execution E}
  {c : ContextId} {e : Entry TimerId Timer}

theorem Invokes.valid (blank : x.Blank) {n : Nat} (invokes : (x.run n).Invokes c e) :
    (x.run n).world.isValid c = true := by
  obtain ⟨m, rfl, brings⟩ := callback_brought blank invokes trivial
  rcases brings.callback trivial with ⟨c', e', fires, same⟩ | ⟨_, e', _, _, same⟩
  · obtain ⟨rfl, _⟩ := Call.function.inj same
    obtain ⟨before, rest, _, _, world⟩ := fires.stack (x.run_rewrites m)
    obtain ⟨a, found, valid, _⟩ := World.ready?_eq_some.mp fires.ready
    have ids : ∀ b : Context, b.id = c → { b with level := Task.fireLevel e' b.level none }.id = c :=
      fun _ here => here
    rw [world, World.isValid, World.context?_update _ ids, found]
    simpa using valid
  · exfalso
    unfold Task.frameCall at same
    split at same
    · cases (Call.function.inj same).2.1
    · cases same

theorem Invokes.told {n : Nat} (invokes : (x.run n).Invokes c e) :
    (x.run (n + 1)).history.countP (·.invokes ⟨c, e.key⟩) =
      (x.run n).history.countP (·.invokes ⟨c, e.key⟩) + 1 := by
  obtain ⟨rest, top⟩ := invokes
  obtain ⟨_, _, grows⟩ := (x.run_rewrites n).of_call top
  have called : [(Event.called (Task.timerCall c e) : Event E)].countP
      (·.invokes ⟨c, e.key⟩) = 1 := by
    rw [List.countP_singleton, if_pos]
    exact decide_eq_true rfl
  rw [grows.invokes, called, Nat.add_comm]

end

variable {Obj : Type} {E : Embedder Obj Manual} [Traced Obj]

variable {x : Execution E} {n : Nat}

end HostBridge.Execution
