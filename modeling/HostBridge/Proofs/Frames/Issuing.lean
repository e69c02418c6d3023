import HostBridge.Proofs.Execution.Plan
import HostBridge.Proofs.Frames.Numbering
/-!
# Requests that are kept and requests that are lost

A context issues the next id without a look at its registry, and the registry refuses a request
whose id is active. So a request is kept exactly if no other one is active under its id: one that
the embedder has registered ahead of the context's own numbering, or one that the context has issued
before it ran out of ids.
-/

namespace HostBridge

variable {Obj τ : Type} [Facility τ] {E : Embedder Obj τ}

namespace Command

variable {w : World Obj τ} {c : ContextId} {a : Context}

theorem requestFrame_answer (found : w.context? c = some a) (callback : FrameCallback) :
    (perform w (.requestFrame c callback)).answer = a.nextFrame := by
  simp only [perform, inContext, found]
  rfl

theorem requestFrame_context? (found : w.context? c = some a) (callback : FrameCallback) :
    (perform w (.requestFrame c callback)).world.context? c = some (a.requestFrame callback) := by
  refine (World.context?_inContext_self w c _ fun _ => rfl).trans ?_
  rw [found, Option.map_some]

theorem requestFrame_elsewhere (w : World Obj τ) (callback : FrameCallback) {c' : ContextId}
    (other : c' ≠ c) : (perform w (.requestFrame c callback)).world.context? c' = w.context? c' := by
  refine (World.context?_inContext w c _ (fun _ => rfl) c').trans ?_
  simp only [if_neg other, Option.map_id']

end Command

namespace Execution

variable [Traced Obj] {x : Execution E} {c : ContextId} {e : Entry FrameId FrameRequest}
  {callback : FrameCallback} {a : Context} {m n : Nat}

structure KeepsRequest (x : Execution E) (c : ContextId) (n : Nat) (id : FrameId)
    (q : FrameRequest) : Prop where
  inactive : ((x.run n).world.frames c).contains id = false
  named : Registry.entry? ((x.run (n + 1)).world.frames c) id =
    some ⟨id, ((x.run n).world.frames c).accepted, q⟩
  active : ((x.run (n + 1)).world.frames c).active =
    ((x.run n).world.frames c).active ++ [⟨id, ((x.run n).world.frames c).accepted, q⟩]
  abandoned : ((x.run (n + 1)).world.frames c).abandoned = ((x.run n).world.frames c).abandoned
  elsewhere : ∀ c' ≠ c, (x.run (n + 1)).world.frames c' = (x.run n).world.frames c'

/-- The entry has become active in the step after `m`, and nothing has taken it away before `n`. The
embedder has registered it, unless the context has run out of ids since. -/
structure Occupies (x : Execution E) (c : ContextId) (m n : Nat) (e : Entry FrameId FrameRequest) :
    Prop where
  absent : e ∉ ((x.run m).world.frames c).active
  accepted : e ∈ ((x.run (m + 1)).world.frames c).active
  source : (x.run m).Performs (.registerFrame c e.key e.item) ∨
    (∃ callback, (x.run m).Performs (.requestFrame c callback)) ∧
      2 ^ 32 - 1 ≤ (x.run n).requested c
  stays : ∀ l, m < l → l < n → ¬ (x.run l).Drops c e

theorem exists_accepted (blank : x.Blank) (active : e ∈ ((x.run n).world.frames c).active) :
    ∃ m < n, e ∉ ((x.run m).world.frames c).active ∧
      e ∈ ((x.run (m + 1)).world.frames c).active := by
  induction n with
  | zero =>
    rw [run_zero, blank.frames_empty] at active
    cases active
  | succ n ih =>
    by_cases old : e ∈ ((x.run n).world.frames c).active
    · obtain ⟨m, lt, became⟩ := ih old
      exact ⟨m, Nat.lt_succ_of_lt lt, became⟩
    · exact ⟨n, Nat.lt_succ_self n, old, active⟩

/-- An id that has been issued comes to be the next one again only when all have been. -/
theorem many_of_reissued {b : Context} (blank : x.Blank) (lt : m < n)
    (before : (x.run m).world.context? c = some b)
    (performs : (x.run m).Performs (.requestFrame c callback))
    (found : (x.run n).world.context? c = some a) (again : a.nextFrame = b.nextFrame) :
    2 ^ 32 - 1 ≤ (x.run n).requested c := by
  by_contra few
  have counted := performs.requested
  have le : m + 1 ≤ n := lt
  have grown := x.requested_mono c le
  have bound := nextFrame_le (n := m) (c := c) blank (by omega)
  have next := nextFrame_of_request before performs (by omega)
  have mono := nextFrame_mono (c := c) blank (by omega) le
  rw [next, World.nextFrame_of_context? before, World.nextFrame_of_context? found, again] at mono
  omega

theorem occupies_of_active (blank : x.Blank) (found : (x.run n).world.context? c = some a)
    (active : e ∈ ((x.run n).world.frames c).active) (key : e.key = a.nextFrame) :
    ∃ m < n, x.Occupies c m n e := by
  obtain ⟨m, lt, absent, accepted⟩ := exists_accepted blank active
  refine ⟨m, lt, absent, accepted, ?_, (active_iff_not_dropped blank accepted lt).mp active⟩
  rcases (x.run_frames c m).mem accepted with
    old | ⟨_, ⟨b, callback, before, performs, issued⟩ | performs⟩
  · exact absurd old absent
  · exact Or.inr ⟨⟨callback, performs⟩,
      many_of_reissued blank lt before performs found (key.symm.trans issued)⟩
  · exact Or.inl performs

theorem Occupies.active (blank : x.Blank) (lt : m < n) (occupies : x.Occupies c m n e) :
    e ∈ ((x.run n).world.frames c).active :=
  (active_iff_not_dropped blank occupies.accepted lt).mpr occupies.stays

theorem Performs.frames_requested (found : (x.run n).world.context? c = some a)
    (valid : a.valid = true) (performs : (x.run n).Performs (.requestFrame c callback)) :
    (x.run (n + 1)).world.frames c =
      ((x.run n).world.frames c).accept a.nextFrame ⟨a.nextFrame, c, callback⟩ := by
  have after := performs.run_succ ▸ Command.requestFrame_context? found callback
  have accepts : (a.requestFrame callback).frames =
      a.frames.accept a.nextFrame ⟨a.nextFrame, a.id, callback⟩ := if_pos valid
  rw [World.frames_of_context? after, World.frames_of_context? found, accepts,
    World.id_of_context? found]

theorem Performs.frames_elsewhere (performs : (x.run n).Performs (.requestFrame c callback))
    {c' : ContextId} (other : c' ≠ c) :
    (x.run (n + 1)).world.frames c' = (x.run n).world.frames c' := by
  rw [World.frames, World.frames, performs.run_succ,
    Command.requestFrame_elsewhere (x.run n).world callback other]

/-- A frame request of a context that may run script is kept exactly if no request occupies the id
that it gets, and it is lost without a trace otherwise. -/
theorem request_kept_iff (blank : x.Blank) (found : (x.run n).world.context? c = some a)
    (valid : a.valid = true) (performs : (x.run n).Performs (.requestFrame c callback)) :
    (Command.perform (x.run n).world (.requestFrame c callback)).answer = a.nextFrame ∧
    (x.KeepsRequest c n a.nextFrame ⟨a.nextFrame, c, callback⟩ ↔
      ¬ ∃ m < n, ∃ e, x.Occupies c m n e ∧ e.key = a.nextFrame) ∧
    (x.KeepsRequest c n a.nextFrame ⟨a.nextFrame, c, callback⟩ ∨
      ∀ c', (x.run (n + 1)).world.frames c' = (x.run n).world.frames c') := by
  have offered := performs.frames_requested found valid
  have elsewhere : ∀ c' ≠ c, (x.run (n + 1)).world.frames c' = (x.run n).world.frames c' :=
    fun c' other => performs.frames_elsewhere other
  refine ⟨Command.requestFrame_answer found callback, ?_⟩
  cases free : ((x.run n).world.frames c).contains a.nextFrame with
  | true =>
    obtain ⟨e, active, same⟩ := List.any_eq_true.mp free
    have key : e.key = a.nextFrame := of_decide_eq_true same
    obtain ⟨m, lt, occupies⟩ := occupies_of_active blank found active key
    have refused : ¬ x.KeepsRequest c n a.nextFrame ⟨a.nextFrame, c, callback⟩ := by
      intro keeps
      rw [keeps.inactive] at free
      cases free
    refine ⟨iff_of_false refused fun no_one => no_one ⟨m, lt, e, occupies, key⟩, Or.inr ?_⟩
    intro c'
    by_cases here : c' = c
    · rw [here, offered, Registry.accept_of_contains free]
    · exact elsewhere c' here
  | false =>
    have keeps : x.KeepsRequest c n a.nextFrame ⟨a.nextFrame, c, callback⟩ := by
      refine ⟨free, ?_, ?_, ?_, elsewhere⟩
      · rw [offered, Registry.entry?_accept free, if_pos rfl]
      · rw [offered, Registry.accept_active free]
      · rw [offered, Registry.accept, if_neg (by simp [free])]
    refine ⟨iff_of_true keeps ?_, Or.inl keeps⟩
    rintro ⟨m, lt, e, occupies, key⟩
    have taken := Registry.contains_of_mem (occupies.active blank lt)
    rw [key, free] at taken
    cases taken

theorem Occupies.order? {body : Call Obj → List (Order Obj τ)} {x : Execution (plan body)}
    (few : (x.run n).requested c < 2 ^ 32 - 1) (occupies : x.Occupies c m n e) :
    (x.run m).order? = some (.command (.registerFrame c e.key e.item)) := by
  rcases occupies.source with performs | ⟨_, many⟩
  · exact performs.order?
  · omega

/-- The embedder registers two requests ahead of the numbering and cancels the first of them; then
two frames are requested. -/
def registeredAhead :
    Execution (plan fun _ : Call (List Handle) => ([] : List (Order (List Handle) Manual))) :=
  planned {} _ [.command (.createContext none),
    .command (.registerFrame ⟨1⟩ ⟨1⟩ ⟨⟨1⟩, ⟨1⟩, .native 0⟩),
    .command (.registerFrame ⟨1⟩ ⟨2⟩ ⟨⟨2⟩, ⟨1⟩, .native 1⟩), .command (.cancelFrame ⟨1⟩ ⟨1⟩),
    .command (.requestFrame ⟨1⟩ (.native 2)), .command (.requestFrame ⟨1⟩ (.native 3))]

/-- The first frame gets an id that is free again. -/
theorem cancelled_in_time_is_kept :
    registeredAhead.KeepsRequest ⟨1⟩ 4 ⟨1⟩ ⟨⟨1⟩, ⟨1⟩, .native 2⟩ := by
  have cancelled : (registeredAhead.run 3).Performs (.cancelFrame ⟨1⟩ ⟨1⟩) := plan_performs rfl
  have ⟨_, kept, _⟩ := request_kept_iff (x := registeredAhead) (n := 4) ⟨rfl, rfl⟩ rfl rfl
    (plan_performs rfl)
  refine kept.mpr ?_
  rintro ⟨m, lt, e, occupies, key⟩
  have key : e.key = ⟨1⟩ := key
  rcases Nat.lt_or_eq_of_le (Nat.le_of_lt_succ lt) with early | rfl
  · exact occupies.stays 3 early (Nat.lt_succ_self 3) (.cancelled (key ▸ cancelled))
  · have order := occupies.order? (by decide +kernel)
    rw [cancelled.order?] at order
    cases order

/-- The second one gets the id of a request that is active, and is lost. -/
theorem registered_ahead_is_lost :
    registeredAhead.Blank ∧ (registeredAhead.run 5).world.isValid ⟨1⟩ = true ∧
      (registeredAhead.run 5).Performs (.requestFrame ⟨1⟩ (.native 3)) ∧
      (Command.perform (registeredAhead.run 5).world (.requestFrame ⟨1⟩ (.native 3))).answer =
        (⟨2⟩ : FrameId) ∧
      ¬ registeredAhead.KeepsRequest ⟨1⟩ 5 ⟨2⟩ ⟨⟨2⟩, ⟨1⟩, .native 3⟩ ∧
      ((registeredAhead.run 5).world.frames ⟨1⟩).get? ⟨2⟩ = some ⟨⟨2⟩, ⟨1⟩, .native 1⟩ ∧
      ((registeredAhead.run 6).world.frames ⟨1⟩).get? ⟨2⟩ = some ⟨⟨2⟩, ⟨1⟩, .native 1⟩ ∧
      ((registeredAhead.run 6).world.frames ⟨1⟩).items.map FrameRequest.callback =
        [.native 1, .native 2, .native 0] :=
  ⟨⟨rfl, rfl⟩, rfl, plan_performs rfl, rfl, fun keeps => absurd keeps.inactive (by decide +kernel),
    by decide +kernel, by decide +kernel, by decide +kernel⟩

end Execution

end HostBridge
