import HostBridge.Proofs.Frames.Lifetime
import HostBridge.Proofs.Timers.Setting
/-!
# The ids of frame requests

A context gives the ids of its frame requests in order, so that no request gets an id a second time
before all ids have been given, unless the embedder registers requests under ids of its choice.
-/

namespace HostBridge

variable {Obj τ : Type} [Facility τ] {E : Embedder Obj τ}

def Event.requestsIn (c : ContextId) : Event E → Bool
  | performed (.requestFrame c' _) _ => c' = c
  | _ => false

def World.nextFrame (w : World Obj τ) (c : ContextId) : Nat :=
  (w.context? c).elim 1 fun a => a.nextFrame.val.toNat

omit [Facility τ] in
theorem World.nextFrame_of_context? {w : World Obj τ} {c : ContextId} {a : Context}
    (found : w.context? c = some a) : w.nextFrame c = a.nextFrame.val.toNat := by
  rw [nextFrame, found, Option.elim_some]

namespace Execution

variable {x y : Execution E} {c : ContextId} {e : Entry FrameId FrameRequest}
  {callback : FrameCallback} {id : FrameId} {l m n : Nat}

def requested (x : Execution E) (c : ContextId) : Nat := x.history.countP (·.requestsIn c)

/-- Before the `n`th state of the run the embedder registers a request in the context under an id of
its own choice. -/
def Registers [Traced Obj] (x : Execution E) (c : ContextId) (n : Nat) : Prop :=
  ∃ l < n, ∃ id q, (x.run l).Performs (.registerFrame c id q)

theorem Changes.nextFrame {a b : Context} (changes : x.Changes c a b)
    (no_request : ∀ callback, ¬ x.Performs (.requestFrame c callback)) :
    b.nextFrame = a.nextFrame := by
  cases changes with
  | frameRequested performs => exact absurd performs (no_request _)
  | timerSet => rfl
  | disposed =>
    rw [Context.dispose]
    split <;> rfl
  | timerInstalled | timerRemoved | timerFired | levelSet | timerRetired | frameRegistered
  | frameCancelled | frameTaken | rejectionTracked | handlerTracked | batchTaken | drainBegun
  | drainEnded | classesKept | reclaimed | kept => rfl

variable [Traced Obj]

theorem requested_mono (x : Execution E) (c : ContextId) (le : m ≤ n) :
    (x.run m).requested c ≤ (x.run n).requested c :=
  x.run_countP_le (·.requestsIn c) le

theorem Performs.requested (performs : (x.run n).Performs (.requestFrame c callback)) :
    (x.run (n + 1)).requested c = (x.run n).requested c + 1 := by
  have grows := performs.run_grows.countP_deeds (P := (·.requestsIn c))
    (Event.loud (fun _ _ => rfl) (fun _ => rfl) (fun _ _ => rfl) fun _ => rfl) fun _ => rfl
  rw [Execution.requested, grows, List.countP_singleton]
  simp only [Event.requestsIn, decide_true, if_true]
  exact Nat.add_comm _ _

theorem nextFrame_of_request {a : Context} (found : (x.run n).world.context? c = some a)
    (performs : (x.run n).Performs (.requestFrame c callback))
    (more : (x.run n).world.nextFrame c + 1 < 2 ^ 32) :
    (x.run (n + 1)).world.nextFrame c = (x.run n).world.nextFrame c + 1 := by
  have after : (x.run (n + 1)).world.context? c = some (a.requestFrame callback) := by
    rw [performs.run_succ]
    refine (World.context?_inContext_self (x.run n).world c _ fun _ => rfl).trans ?_
    rw [found, Option.map_some]
  rw [World.nextFrame_of_context? found] at more ⊢
  rw [World.nextFrame_of_context? after]
  exact nextNumber_toNat more

theorem nextFrame_of_no_request
    (no_request : ∀ a callback, (x.run n).world.context? c = some a →
      ¬ (x.run n).Performs (.requestFrame c callback)) :
    (x.run (n + 1)).world.nextFrame c = (x.run n).world.nextFrame c := by
  have outcome := (x.run_rewrites n).outcome c
  generalize before : (x.run n).world.context? c = o at outcome
  generalize after : (x.run (n + 1)).world.context? c = o' at outcome
  rw [World.nextFrame, World.nextFrame, before, after]
  cases outcome with
  | absent | created => rfl
  | changed changes =>
    rw [Option.elim_some, Option.elim_some,
      changes.nextFrame fun callback => no_request _ callback before]

theorem nextFrame_succ (few : (x.run (n + 1)).requested c < 2 ^ 32 - 1)
    (bound : (x.run n).world.nextFrame c ≤ (x.run n).requested c + 1) :
    (x.run (n + 1)).world.nextFrame c = (x.run n).world.nextFrame c ∨
      (x.run (n + 1)).world.nextFrame c = (x.run n).world.nextFrame c + 1 ∧
        (x.run (n + 1)).requested c = (x.run n).requested c + 1 := by
  by_cases requests : ∃ a callback, (x.run n).world.context? c = some a ∧
      (x.run n).Performs (.requestFrame c callback)
  · obtain ⟨a, callback, found, performs⟩ := requests
    have counted := performs.requested
    exact Or.inr ⟨nextFrame_of_request found performs (by omega), counted⟩
  · exact Or.inl (nextFrame_of_no_request fun a callback found performs =>
      requests ⟨a, callback, found, performs⟩)

theorem nextFrame_le (blank : x.Blank) (few : (x.run n).requested c < 2 ^ 32 - 1) :
    (x.run n).world.nextFrame c ≤ (x.run n).requested c + 1 := by
  induction n with
  | zero =>
    rw [run_zero, World.nextFrame, World.context?, blank.no_context]
    exact Nat.le_add_left 1 _
  | succ n ih =>
    have grown := x.requested_mono c (Nat.le_add_right n 1)
    have bound := ih (by omega)
    rcases nextFrame_succ few bound with same | ⟨next, counted⟩
    · omega
    · omega

theorem nextFrame_mono (blank : x.Blank) (few : (x.run n).requested c < 2 ^ 32 - 1) (le : m ≤ n) :
    (x.run m).world.nextFrame c ≤ (x.run n).world.nextFrame c := by
  induction le with
  | refl => exact Nat.le_refl _
  | @step n _ ih =>
    have few : (x.run (n + 1)).requested c < 2 ^ 32 - 1 := few
    have earlier := Nat.lt_of_le_of_lt (x.requested_mono c (Nat.le_add_right n 1)) few
    refine Nat.le_trans (ih earlier) ?_
    rcases nextFrame_succ few (nextFrame_le blank earlier) with same | ⟨next, _⟩
    · exact Nat.le_of_eq same.symm
    · exact Nat.le_of_lt (next ▸ Nat.lt_succ_self _)

/-- As long as ids are left, every id that is active lies below the next one. -/
theorem key_lt_nextFrame (blank : x.Blank) (no_own : ¬ x.Registers c n)
    (few : (x.run n).requested c < 2 ^ 32 - 1) (active : e ∈ ((x.run n).world.frames c).active) :
    e.key.val.toNat < (x.run n).world.nextFrame c := by
  induction n with
  | zero =>
    rw [run_zero, blank.frames_empty] at active
    cases active
  | succ n ih =>
    have grown := x.requested_mono c (Nat.le_add_right n 1)
    have bound := nextFrame_le (n := n) (c := c) blank (by omega)
    have mono := nextFrame_mono blank few (Nat.le_add_right n 1)
    rcases (x.run_frames c n).mem active with
      old | ⟨_, ⟨a, callback, found, performs, key⟩ | performs⟩
    · have lt := ih (fun ⟨l, lt, own⟩ => no_own ⟨l, Nat.lt_succ_of_lt lt, own⟩) (by omega) old
      exact Nat.lt_of_lt_of_le lt mono
    · have counted := performs.requested
      rw [nextFrame_of_request found performs (by omega), key, World.nextFrame_of_context? found]
      exact Nat.lt_succ_self _
    · exact absurd ⟨n, Nat.lt_succ_self n, _, _, performs⟩ no_own

/-- From `m` on and before `n` an id that was active at `m` becomes active again. -/
def Revives (x : Execution E) (c : ContextId) (m n : Nat) : Prop :=
  ∃ l, m ≤ l ∧ l < n ∧ ∃ id ∈ ((x.run m).world.frames c).keys,
    (x.run l).world.request? c id = none ∧ (x.run (l + 1)).world.request? c id ≠ none

theorem Revives.registers_or_many (blank : x.Blank) (revives : x.Revives c m n) :
    x.Registers c n ∨ 2 ^ 32 - 1 ≤ (x.run n).requested c := by
  obtain ⟨l, after, before, id, mem, inactive, again⟩ := revives
  by_contra neither
  obtain ⟨no_own, few⟩ := not_or.mp neither
  have grown := x.requested_mono c (Nat.le_of_lt before)
  have few : (x.run l).requested c < 2 ^ 32 - 1 := by omega
  obtain ⟨d, found⟩ := Option.ne_none_iff_exists'.mp again
  obtain ⟨active, key⟩ := active_of_request? found
  rcases (x.run_frames c l).mem active with
    old | ⟨_, ⟨a, callback, there, _, next⟩ | performs⟩
  · have still := request?_of_active blank old
    rw [key, inactive] at still
    cases still
  · obtain ⟨e, was_active, named⟩ := List.mem_map.mp mem
    have below := key_lt_nextFrame blank
      (fun ⟨j, lt, own⟩ => no_own ⟨j, by omega, own⟩)
      (Nat.lt_of_le_of_lt (x.requested_mono c after) few) was_active
    have mono := nextFrame_mono blank few after
    rw [World.nextFrame_of_context? there] at mono
    rw [named, ← key, next] at below
    omega
  · exact no_own ⟨l, before, _, _, performs⟩

theorem active_of_not_revives (blank : x.Blank) (no_revival : ¬ x.Revives c m n)
    (mem : id ∈ ((x.run m).world.frames c).keys) (after : m ≤ l) (le : l ≤ n)
    (found : (x.run l).world.request? c id = some e) : e ∈ ((x.run m).world.frames c).active := by
  induction after with
  | refl => exact (active_of_request? found).1
  | @step l after ih =>
    obtain ⟨active, key⟩ := active_of_request? found
    cases before : (x.run l).world.request? c id with
    | none => exact absurd ⟨l, after, le, id, mem, before, by simp [found]⟩ no_revival
    | some d =>
      rcases (x.run_frames c l).mem active with old | ⟨free, _⟩
      · exact ih (Nat.le_of_lt le) (key ▸ request?_of_active blank old)
      · obtain ⟨still, named⟩ := active_of_request? before
        have taken := Registry.contains_of_mem still
        rw [named, ← key, free] at taken
        cases taken

theorem inactive_of_not_revives (no_revival : ¬ x.Revives c m n)
    (mem : id ∈ ((x.run m).world.frames c).keys) (after : m ≤ l)
    (inactive : (x.run l).world.request? c id = none) {k : Nat} (later : l ≤ k) (le : k ≤ n) :
    (x.run k).world.request? c id = none := by
  induction later with
  | refl => exact inactive
  | @step k later ih =>
    by_contra again
    exact no_revival ⟨k, Nat.le_trans after later, le, id, mem, ih (Nat.le_of_lt le), again⟩

end Execution

end HostBridge
