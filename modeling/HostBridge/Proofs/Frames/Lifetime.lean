import HostBridge.Proofs.Contexts.Disposal
/-!
# The frame requests of a context

A request is active from its acceptance on, until it is cancelled, until a frame pass runs it, or
until its context is disposed. One that has gone does not come back, so its callback is called once.
-/

namespace HostBridge

variable {Obj τ : Type}

namespace World

def frames (w : World Obj τ) (c : ContextId) : Frames := (w.context? c).elim {} Context.frames

variable {w w' : World Obj τ} {c : ContextId}

theorem frames_of_context? {a : Context} (found : w.context? c = some a) : w.frames c = a.frames := by
  rw [frames, found, Option.elim_some]

theorem request?_eq (w : World Obj τ) (c : ContextId) (id : FrameId) :
    w.request? c id = Registry.entry? (w.frames c) id := by
  cases found : w.context? c with
  | none =>
    rw [request?, found, frames, found]
    rfl
  | some a => rw [request?, found, Option.bind_some, frames_of_context? found]

theorem frames_map {f : Context → Context} {g : Frames → Frames} (empty : g {} = {})
    (mapped : w'.context? c = (w.context? c).map f)
    (does : ∀ a, w.context? c = some a → (f a).frames = g a.frames) :
    w'.frames c = g (w.frames c) := by
  cases found : w.context? c with
  | none =>
    rw [frames, mapped, frames, found]
    exact empty.symm
  | some a =>
    rw [found] at mapped
    rw [frames_of_context? mapped, frames_of_context? found, does a found]

end World

def Call.frame? : Call Obj → Option (ContextId × Nat)
  | function c (.frame _ serial) .. => some (c, serial)
  | native c (.frame _ serial) .. => some (c, serial)
  | _ => none

theorem Task.frame?_frameCall (c : ContextId) (e : Entry FrameId FrameRequest) (timestamp : Double) :
    (frameCall c e timestamp : Call Obj).frame? = some (c, e.serial) := by
  unfold frameCall
  split <;> rfl

theorem Call.isCallback_of_frame? {k : Call Obj} {acceptance : ContextId × Nat}
    (runs : k.frame? = some acceptance) : k.IsCallback := by
  cases k with
  | function | native => trivial
  | session | job | report | typeError | event | createClass | install | traceRoots | traceComplete
  | drop => cases runs

namespace Execution

variable [Facility τ] {E : Embedder Obj τ}

inductive FrameChange (x : Execution E) (c : ContextId) (r : Frames) : Frames → Prop
  | kept : FrameChange x c r r
  | requested {a : Context} {callback : FrameCallback} (found : x.world.context? c = some a)
      (performs : x.Performs (.requestFrame c callback)) :
      FrameChange x c r (r.accept a.nextFrame ⟨a.nextFrame, a.id, callback⟩)
  | registered {id : FrameId} {q : FrameRequest} (performs : x.Performs (.registerFrame c id q)) :
      FrameChange x c r (r.accept id q)
  | cancelled {id : FrameId} (performs : x.Performs (.cancelFrame c id)) :
      FrameChange x c r (r.remove id)
  | taken {id : FrameId} {timestamp : Double} (next : x.AtTask (.frame c id timestamp)) :
      FrameChange x c r (r.remove id)
  | abandoned {command : Command Obj τ} (performs : x.Performs command)
      (disposes : command.Disposes x.world c) (valid : x.world.isValid c = true) :
      FrameChange x c r r.abandonAll
  | reclaimed : FrameChange x c r r.reclaim

inductive Drops (x : Execution E) (c : ContextId) (e : Entry FrameId FrameRequest) : Prop
  | cancelled (performs : x.Performs (.cancelFrame c e.key))
  | consumed {timestamp : Double} (runs : x.RunsFrame c e timestamp)
  | abandoned {command : Command Obj τ} (performs : x.Performs command)
      (disposes : command.Disposes x.world c) (valid : x.world.isValid c = true)

variable {x y : Execution E} {c : ContextId} {d e : Entry FrameId FrameRequest} {m n : Nat}

theorem Changes.frames {a b : Context} (found : x.world.context? c = some a)
    (changes : x.Changes c a b) : x.FrameChange c a.frames b.frames := by
  cases changes with
  | frameRequested performs =>
    rw [Context.requestFrame]
    split
    · exact .requested found performs
    · exact .kept
  | frameRegistered performs => exact .registered performs
  | frameCancelled performs => exact .cancelled performs
  | frameTaken next => exact .taken next
  | disposed performs disposes =>
    rw [Context.dispose]
    split
    · rename_i valid
      exact .abandoned performs disposes (by rw [World.isValid, found]; exact valid)
    · exact .kept
  | reclaimed => exact .reclaimed
  | timerSet | timerInstalled | timerRemoved | timerFired | levelSet | timerRetired
  | rejectionTracked | handlerTracked | batchTaken | drainBegun | drainEnded | classesKept | kept =>
    exact .kept

theorem Outcome.frames {o o' : Option Context} (found : x.world.context? c = o)
    (outcome : x.Outcome c o o') :
    x.FrameChange c (o.elim {} Context.frames) (o'.elim {} Context.frames) := by
  cases outcome with
  | absent | created => exact .kept
  | changed changes => exact changes.frames found

theorem FrameChange.apply {r r' : Frames} (change : x.FrameChange c r r') :
    r' = r ∨ ∃ op, r' = r.apply op := by
  cases change with
  | kept => exact Or.inl rfl
  | requested | registered => exact Or.inr ⟨.accept _ _, rfl⟩
  | cancelled | taken => exact Or.inr ⟨.remove _, rfl⟩
  | abandoned => exact Or.inr ⟨.abandonAll, rfl⟩
  | reclaimed => exact Or.inr ⟨.reclaim, rfl⟩

theorem FrameChange.mem {r r' : Frames} (change : x.FrameChange c r r') (mem : e ∈ r'.active) :
    e ∈ r.active ∨ r.contains e.key = false ∧
      ((∃ a callback, x.world.context? c = some a ∧ x.Performs (.requestFrame c callback) ∧
        e.key = a.nextFrame) ∨ x.Performs (.registerFrame c e.key e.item)) := by
  cases change with
  | kept | reclaimed => exact Or.inl mem
  | abandoned => cases mem
  | cancelled | taken => exact Or.inl (Registry.mem_of_mem_remove mem)
  | requested found performs =>
    rcases Registry.mem_accept mem with old | ⟨free, rfl⟩
    · exact Or.inl old
    · exact Or.inr ⟨free, Or.inl ⟨_, _, found, performs, rfl⟩⟩
  | registered performs =>
    rcases Registry.mem_accept mem with old | ⟨free, rfl⟩
    · exact Or.inl old
    · exact Or.inr ⟨free, Or.inr performs⟩

theorem FrameChange.drops {r r' : Frames} (change : x.FrameChange c r r') (mem : e ∈ r.active)
    (active : x.world.request? c e.key = some e) (gone : e ∉ r'.active) : x.Drops c e := by
  have kept : ∀ {id : FrameId} {q : FrameRequest}, e ∈ (r.accept id q).active := by
    intro id q
    cases free : r.contains id with
    | true => rwa [Registry.accept_of_contains free]
    | false =>
      rw [Registry.accept_active free]
      exact List.mem_append_left _ mem
  have named : ∀ {id : FrameId}, e ∉ (r.remove id).active → e.key = id := by
    intro id gone
    by_contra other
    exact gone (Registry.mem_remove_of_ne mem other)
  cases change with
  | kept | reclaimed => exact absurd mem gone
  | requested | registered => exact absurd kept gone
  | cancelled performs => exact .cancelled (named gone ▸ performs)
  | taken next => exact .consumed ⟨named gone ▸ next, active⟩
  | abandoned performs disposes valid => exact .abandoned performs disposes valid

theorem Blank.frames_empty (blank : x.Blank) (c : ContextId) : x.world.frames c = {} := by
  rw [World.frames, World.context?, blank.no_context]
  rfl

variable [Traced Obj]

theorem run_frames (x : Execution E) (c : ContextId) (n : Nat) :
    (x.run n).FrameChange c ((x.run n).world.frames c) ((x.run (n + 1)).world.frames c) :=
  ((x.run_rewrites n).outcome c).frames rfl

theorem frames_evolve (x : Execution E) (c : ContextId) :
    Registry.Evolves fun n => (x.run n).world.frames c :=
  fun n => (x.run_frames c n).apply

theorem frames_sound (blank : x.Blank) (c : ContextId) (n : Nat) :
    ((x.run n).world.frames c).Sound :=
  (x.frames_evolve c).sound (blank.frames_empty c) n

theorem request?_of_active (blank : x.Blank) (active : e ∈ ((x.run n).world.frames c).active) :
    (x.run n).world.request? c e.key = some e := by
  have sound := frames_sound blank c n
  rw [World.request?_eq]
  exact sound.entry?_key active

omit [Traced Obj] in
theorem active_of_request? {id : FrameId} (found : x.world.request? c id = some e) :
    e ∈ (x.world.frames c).active ∧ e.key = id := by
  rw [World.request?_eq] at found
  exact ⟨Registry.mem_of_entry found, Registry.key_of_entry found⟩

theorem Performs.frames_cancelled {id : FrameId} (performs : (x.run n).Performs (.cancelFrame c id)) :
    (x.run (n + 1)).world.frames c = ((x.run n).world.frames c).remove id := by
  apply World.frames_map (g := (·.remove id)) rfl
  · rw [performs.run_succ]
    exact World.context?_inContext_self (x.run n).world c _ fun _ => rfl
  · exact fun _ _ => rfl

theorem RunsFrame.frames_consumed {timestamp : Double} (runs : (x.run n).RunsFrame c e timestamp) :
    (x.run (n + 1)).world.frames c = ((x.run n).world.frames c).remove e.key := by
  obtain ⟨rest, top⟩ := runs.next
  obtain ⟨p, _, world⟩ := (x.run_rewrites n).of_task top fun k same => nomatch same
  have active : ((x.run n).world.context? c).bind (·.frames.entry? e.key) = some e := runs.active
  apply World.frames_map (g := (·.remove e.key)) rfl
  · rw [world, Task.run, active]
    exact World.context?_update_self (x.run n).world fun _ here => here
  · exact fun _ _ => rfl

theorem Performs.frames_abandoned {command : Command Obj τ} (performs : (x.run n).Performs command)
    (disposes : command.Disposes (x.run n).world c) (valid : (x.run n).world.isValid c = true) :
    (x.run (n + 1)).world.frames c = ((x.run n).world.frames c).abandonAll := by
  apply World.frames_map rfl
  · rw [performs.run_succ]
    exact disposes.context?_perform
  · intro a found
    have here : a.valid = true := by simpa [World.isValid, found] using valid
    rw [Context.dispose, if_pos here]

theorem Drops.gone (blank : x.Blank) (drops : (x.run n).Drops c e) :
    e ∉ ((x.run (n + 1)).world.frames c).active := by
  intro active
  cases drops with
  | cancelled performs =>
    rw [performs.frames_cancelled] at active
    exact (frames_sound blank c n).key_ne_of_mem_remove active rfl
  | consumed runs =>
    rw [runs.frames_consumed] at active
    exact (frames_sound blank c n).key_ne_of_mem_remove active rfl
  | abandoned performs disposes valid =>
    rw [performs.frames_abandoned disposes valid] at active
    cases active

/-- An active request stays so until it is dropped. -/
theorem active_iff_not_dropped (blank : x.Blank) (active : e ∈ ((x.run m).world.frames c).active)
    (le : m ≤ n) : e ∈ ((x.run n).world.frames c).active ↔
      ∀ l, m ≤ l → l < n → ¬ (x.run l).Drops c e := by
  have numbered := (frames_sound blank c m).numbered e active
  constructor
  · intro still l after before drops
    have accepted : e.serial < ((x.run (l + 1)).world.frames c).accepted :=
      Nat.lt_of_lt_of_le numbered ((x.frames_evolve c).accepted_mono (Nat.le_succ_of_le after))
    exact ((x.frames_evolve c).gone_mono ⟨accepted, drops.gone blank⟩ before).inactive still
  · intro not_dropped
    induction le with
    | refl => exact active
    | @step n le ih =>
      have before := ih fun l after lt => not_dropped l after (Nat.lt_succ_of_lt lt)
      by_contra gone
      exact not_dropped n le (Nat.lt_succ_self n)
        ((x.run_frames c n).drops before (request?_of_active blank before) gone)

theorem RunsFrame.mem_active {timestamp : Double} (runs : (x.run n).RunsFrame c e timestamp) :
    e ∈ ((x.run n).world.frames c).active :=
  (active_of_request? runs.active).1

theorem RunsFrame.unique (blank : x.Blank) {timestamp timestamp' : Double}
    (runs : (x.run m).RunsFrame c e timestamp) (runs' : (x.run n).RunsFrame c d timestamp')
    (same : d.serial = e.serial) : m = n := by
  obtain rfl : d = e := (x.frames_evolve c).eq_of_serial (blank.frames_empty c) runs.mem_active
    runs'.mem_active same
  rcases Nat.lt_trichotomy m n with lt | same | lt
  · have still := (active_iff_not_dropped blank runs.mem_active (Nat.le_of_lt lt)).mp runs'.mem_active
    exact absurd (.consumed runs) (still m (Nat.le_refl m) lt)
  · exact same
  · have still := (active_iff_not_dropped blank runs'.mem_active (Nat.le_of_lt lt)).mp runs.mem_active
    exact absurd (.consumed runs') (still n (Nat.le_refl n) lt)

theorem frame_called (blank : x.Blank) {k : Call Obj} {serial : Nat}
    (next : (x.run n).AtTask (.call k)) (of_frame : k.frame? = some (c, serial)) :
    ∃ l e timestamp, n = l + 1 ∧ (x.run l).RunsFrame c e timestamp ∧ e.serial = serial := by
  have callback := Call.isCallback_of_frame? of_frame
  obtain ⟨l, rfl, brings⟩ := callback_brought blank next callback
  rcases brings.callback callback with ⟨_, _, _, rfl⟩ | ⟨c', e, timestamp, runs, rfl⟩
  · cases of_frame
  · rw [Task.frame?_frameCall] at of_frame
    cases of_frame
    exact ⟨l, e, timestamp, rfl, runs, rfl⟩

/-- No callback of a frame request is called twice. -/
theorem frame_called_once (blank : x.Blank) {k k' : Call Obj} {acceptance : ContextId × Nat}
    (next : (x.run m).AtTask (.call k)) (next' : (x.run n).AtTask (.call k'))
    (of_frame : k.frame? = some acceptance) (same : k'.frame? = some acceptance) : m = n := by
  obtain ⟨l, e, timestamp, rfl, runs, serial⟩ := frame_called blank next of_frame
  obtain ⟨l', e', timestamp', rfl, runs', serial'⟩ := frame_called blank next' same
  rw [runs.unique blank runs' (serial'.trans serial.symm)]

end Execution

end HostBridge
