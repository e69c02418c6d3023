import HostBridge.Proofs.Contexts.Change
import HostBridge.Proofs.Holding
import HostBridge.Proofs.Registry
import HostBridge.Proofs.Rejections.Order
/-!
# How long an entry is kept

What a context abandons stays in its registries until the context reclaims, and what has been
reclaimed does not come back. The bridge holds a context from its creation on: a live one until the
bridge ends, a disposed one until the bridge is told that a collection has finished.
-/

namespace HostBridge

variable {Obj τ : Type}

namespace Registry

variable {κ α : Type} [DecidableEq κ] {r r' : Registry κ α} {e : Entry κ α} {reclaims : Prop}

/-- The registry has stayed as it is, or one operation has been done. It has let go of what is
abandoned only if `reclaims` says so. -/
def Follows (r r' : Registry κ α) (reclaims : Prop) : Prop :=
  r' = r ∨ ∃ op, r' = r.apply op ∧ (op = .reclaim → reclaims)

structure Abandoned (r : Registry κ α) (e : Entry κ α) : Prop where
  gone : r.Gone e
  waits : e ∈ r.abandoned

structure Lost (r : Registry κ α) (e : Entry κ α) : Prop where
  gone : r.Gone e
  released : e ∉ r.abandoned

theorem mem_abandoned_apply {op : Op κ α} (mem : e ∈ (r.apply op).abandoned) :
    e ∈ r.active ∨ e ∈ r.abandoned := by
  cases op with
  | accept k item =>
    rw [apply, accept] at mem
    split at mem <;> exact Or.inr mem
  | remove k =>
    rw [apply, remove] at mem
    split at mem
    · rename_i d found
      rcases List.mem_append.mp mem with old | new
      · exact Or.inr old
      · exact Or.inl (List.mem_singleton.mp new ▸ mem_of_entry found)
    · exact Or.inr mem
  | abandonAll => exact (List.mem_append.mp mem).symm
  | reclaim => cases mem

theorem abandoned_apply {op : Op κ α} (waits : e ∈ r.abandoned) (keeps : op ≠ .reclaim) :
    e ∈ (r.apply op).abandoned := by
  cases op with
  | accept k item =>
    rw [apply, accept]
    split <;> exact waits
  | remove k =>
    rw [apply, remove]
    split
    · exact List.mem_append_left _ waits
    · exact waits
  | abandonAll => exact List.mem_append_left _ waits
  | reclaim => exact absurd rfl keeps

theorem Gone.follows (gone : r.Gone e) (follows : r.Follows r' reclaims) : r'.Gone e := by
  rcases follows with rfl | ⟨op, rfl, _⟩
  · exact gone
  · exact gone.apply op

theorem Abandoned.follows (abandoned : r.Abandoned e) (keeps : ¬ reclaims)
    (follows : r.Follows r' reclaims) : r'.Abandoned e := by
  refine ⟨abandoned.gone.follows follows, ?_⟩
  rcases follows with rfl | ⟨op, rfl, cause⟩
  · exact abandoned.waits
  · exact abandoned_apply abandoned.waits fun reclaim => keeps (cause reclaim)

theorem Lost.follows (lost : r.Lost e) (follows : r.Follows r' reclaims) : r'.Lost e := by
  refine ⟨lost.gone.follows follows, ?_⟩
  rcases follows with rfl | ⟨op, rfl, _⟩
  · exact lost.released
  · intro mem
    rcases mem_abandoned_apply mem with active | waits
    · exact lost.gone.inactive active
    · exact lost.released waits

theorem Sound.follows (sound : r.Sound) (follows : r.Follows r' reclaims) : r'.Sound := by
  rcases follows with rfl | ⟨op, rfl, _⟩
  · exact sound
  · exact sound.apply op

theorem Sound.lt_accepted (sound : r.Sound) (follows : r.Follows r' reclaims) (mem : e ∈ r.active) :
    e.serial < r'.accepted := by
  have numbered := sound.numbered e mem
  rcases follows with rfl | ⟨op, rfl, _⟩
  · exact numbered
  · exact Nat.lt_of_lt_of_le numbered (r.accepted_le_apply op)

end Registry

namespace Context

def OfEntry (P : {κ α : Type} → Registry κ α → Entry κ α → Prop) (a : Context) : Holding → Prop
  | .timer e => P a.timers e
  | .frame e => P a.frames e
  | _ => False

def Active (a : Context) (entry : Holding) : Prop := a.OfEntry (fun r e => e ∈ r.active) entry

instance (a : Context) (entry : Holding) : Decidable (a.Active entry) :=
  match entry with
  | .timer e => inferInstanceAs (Decidable (e ∈ a.timers.active))
  | .frame e => inferInstanceAs (Decidable (e ∈ a.frames.active))
  | .unhandled .. | .handled .. | .classObjects .. => isFalse fun active => active

variable {a : Context} {entry : Holding}

theorem holds_of_abandoned (abandoned : a.OfEntry (fun r e => r.Abandoned e) entry) :
    a.Holds entry := by
  cases entry with
  | timer | frame => exact List.mem_append_right _ abandoned.waits
  | _ => exact abandoned.elim

theorem not_holds_of_lost (lost : a.OfEntry (fun r e => r.Lost e) entry) : ¬ a.Holds entry := by
  cases entry with
  | timer | frame =>
    intro mem
    rcases List.mem_append.mp mem with active | waits
    · exact lost.gone.inactive active
    · exact lost.released waits
  | _ => exact lost.elim

end Context

namespace World

def OfEntry (P : {κ α : Type} → Registry κ α → Entry κ α → Prop) (w : World Obj τ) (c : ContextId)
    (entry : Holding) : Prop :=
  ∃ a ∈ w.context? c, a.OfEntry P entry

def Active (w : World Obj τ) (c : ContextId) (entry : Holding) : Prop :=
  ∃ a ∈ w.context? c, a.Active entry

instance (w : World Obj τ) (c : ContextId) (entry : Holding) : Decidable (w.Active c entry) :=
  inferInstanceAs (Decidable (∃ a ∈ w.context? c, a.Active entry))

end World

namespace Execution

variable [Facility τ] {E : Embedder Obj τ} {x y : Execution E} {c : ContextId}

theorem Changes.follows {a b : Context} (changes : x.Changes c a b) :
    a.timers.Follows b.timers (x.Reclaims c) ∧ a.frames.Follows b.frames (x.Reclaims c) := by
  have timers : ∀ op, op ≠ .reclaim → a.timers.Follows (a.timers.apply op) (x.Reclaims c) :=
    fun op keeps => Or.inr ⟨op, rfl, fun same => absurd same keeps⟩
  have frames : ∀ op, op ≠ .reclaim → a.frames.Follows (a.frames.apply op) (x.Reclaims c) :=
    fun op keeps => Or.inr ⟨op, rfl, fun same => absurd same keeps⟩
  cases changes with
  | timerSet =>
    refine ⟨?_, Or.inl rfl⟩
    rw [Context.setTimer]
    split
    · exact timers (.accept _ _) (by simp)
    · exact Or.inl rfl
  | timerInstalled => exact ⟨timers (.accept _ _) (by simp), Or.inl rfl⟩
  | timerRemoved | timerRetired => exact ⟨timers (.remove _) (by simp), Or.inl rfl⟩
  | frameRequested =>
    refine ⟨Or.inl rfl, ?_⟩
    rw [Context.requestFrame]
    split
    · exact frames (.accept _ _) (by simp)
    · exact Or.inl rfl
  | frameRegistered => exact ⟨Or.inl rfl, frames (.accept _ _) (by simp)⟩
  | frameCancelled | frameTaken => exact ⟨Or.inl rfl, frames (.remove _) (by simp)⟩
  | disposed =>
    rw [Context.dispose]
    split
    · exact ⟨timers .abandonAll (by simp), frames .abandonAll (by simp)⟩
    · exact ⟨Or.inl rfl, Or.inl rfl⟩
  | reclaimed reclaims =>
    exact ⟨Or.inr ⟨.reclaim, rfl, fun _ => reclaims⟩, Or.inr ⟨.reclaim, rfl, fun _ => reclaims⟩⟩
  | kept | timerFired | levelSet | rejectionTracked | handlerTracked | batchTaken | drainBegun
  | drainEnded | classesKept => exact ⟨Or.inl rfl, Or.inl rfl⟩

variable [Traced Obj] {entry : Holding} {m n : Nat}

/-- In a step every registry of a context that exists goes on by itself. -/
theorem follows_succ {a : Context} (found : (x.run n).world.context? c = some a) :
    ∃ b, (x.run (n + 1)).world.context? c = some b ∧
      a.timers.Follows b.timers ((x.run n).Reclaims c) ∧
      a.frames.Follows b.frames ((x.run n).Reclaims c) := by
  have outcome := (x.run_rewrites n).outcome c
  rw [found] at outcome
  generalize after : (x.run (n + 1)).world.context? c = o at outcome
  cases outcome with
  | changed changes => exact ⟨_, rfl, changes.follows⟩

theorem ofEntry_succ {P Q : {κ α : Type} → Registry κ α → Entry κ α → Prop}
    (step : ∀ {κ α : Type} [DecidableEq κ] {r r' : Registry κ α} {e : Entry κ α},
      r.Follows r' ((x.run n).Reclaims c) → P r e → Q r' e)
    (here : (x.run n).world.OfEntry P c entry) : (x.run (n + 1)).world.OfEntry Q c entry := by
  obtain ⟨a, found, is⟩ := here
  obtain ⟨b, after, timers, frames⟩ := follows_succ (Option.mem_def.mp found)
  refine ⟨b, after, ?_⟩
  cases entry with
  | timer => exact step timers is
  | frame => exact step frames is
  | _ => exact is.elim

theorem registries_sound (blank : x.Blank) (n : Nat) : ∀ a, (x.run n).world.context? c = some a →
    a.timers.Sound ∧ a.frames.Sound := by
  induction n with
  | zero =>
    intro a found
    rw [run_zero, World.context?, blank.no_context] at found
    cases found
  | succ n ih =>
    intro b found
    have outcome := (x.run_rewrites n).outcome c
    rw [found] at outcome
    generalize before : (x.run n).world.context? c = o at outcome
    cases outcome with
    | created => exact ⟨Registry.sound_empty, Registry.sound_empty⟩
    | changed changes =>
      obtain ⟨timers, frames⟩ := ih _ before
      exact ⟨timers.follows changes.follows.1, frames.follows changes.follows.2⟩

end Execution

namespace World

def Houses (w : World Obj τ) (c : ContextId) : Prop := c ∈ w.live ∨ c ∈ w.disposed

structure SameHouse (w w' : World Obj τ) : Prop where
  live : w'.live = w.live
  disposed : w'.disposed = w.disposed
  next : w'.nextContext = w.nextContext

theorem SameHouse.refl (w : World Obj τ) : w.SameHouse w := ⟨rfl, rfl, rfl⟩

theorem sameHouse_dropObject (w : World Obj τ) (n : Nat) (unreferenced : Bool) :
    w.SameHouse (w.dropObject n unreferenced).1 := by
  unfold dropObject
  split <;> exact ⟨rfl, rfl, rfl⟩

variable [Facility τ]

theorem sameHouse_foldl_cancel (w : World Obj τ) (ts : List Target) :
    w.SameHouse (ts.foldl cancel w) := by
  induction ts generalizing w with
  | nil => exact .refl w
  | cons t ts ih =>
    have same := ih (w.cancel t)
    exact ⟨same.live, same.disposed, same.next⟩

theorem sameHouse_disposeContext (w : World Obj τ) (c : ContextId) :
    w.SameHouse (w.disposeContext c).1 :=
  let canceled := sameHouse_foldl_cancel (w.update c Context.dispose) (w.timed c)
  ⟨canceled.live, canceled.disposed, canceled.next⟩

theorem sameNumber_disposeEach (w : World Obj τ) (cs : List ContextId) :
    (w.disposeEach cs).1.nextContext = w.nextContext := by
  induction cs generalizing w with
  | nil => rfl
  | cons c cs ih => exact (ih (w.disposeContext c).1).trans (w.sameHouse_disposeContext c).next

end World

namespace Execution

variable [Facility τ] {E : Embedder Obj τ} {x y : Execution E} {c : ContextId}

inductive Rehouses (x : Execution E) (w : World Obj τ) : Prop
  | kept (same : x.world.SameHouse w)
  | created {config : Option Config} (performs : x.Performs (.createContext config))
      (live : w.live = x.world.live ++ [x.world.nextContext])
      (disposed : w.disposed = x.world.disposed) (next : w.nextContext = x.world.nextContext.next)
  | disposed {c : ContextId} (performs : x.Performs (.dispose c)) (held : c ∈ x.world.live)
      (live : w.live = x.world.live.erase c) (disposed : w.disposed = x.world.disposed ++ [c])
      (next : w.nextContext = x.world.nextContext)
  | closed (performs : x.Performs .close) (live : w.live = []) (disposed : w.disposed = [])
      (next : w.nextContext = x.world.nextContext)
  | released (completes : x.AtTask (.traceComplete .bridge)) (live : w.live = x.world.live)
      (disposed : w.disposed = []) (next : w.nextContext = x.world.nextContext)

theorem Performs.rehouses {command : Command Obj τ} (performs : x.Performs command) :
    x.Rehouses (command.perform x.world).world := by
  have inContext : ∀ {α : Type} (c : ContextId) (absent : α) (f : Context → α × Context),
      x.Rehouses (Command.inContext x.world c absent f).world := by
    intro α c absent f
    unfold Command.inContext
    split <;> exact .kept ⟨rfl, rfl, rfl⟩
  cases command with
  | allocate | retain =>
    simp only [Command.perform]
    split <;> exact .kept ⟨rfl, rfl, rfl⟩
  | write | setThreshold | act | post | listen | leave => exact .kept ⟨rfl, rfl, rfl⟩
  | createContext => exact .created performs rfl rfl rfl
  | dispose c =>
    have same := World.sameHouse_disposeContext x.world c
    cases live : x.world.isLive c with
    | false =>
      simp only [Command.perform, World.find, live]
      exact .kept ⟨rfl, rfl, rfl⟩
    | true =>
      have held : c ∈ x.world.live := by simpa [World.isLive] using live
      simp only [Command.perform, World.find, live, if_true]
      refine .disposed performs held ?_ ?_ same.next
      · exact congrArg (List.erase · c) same.live
      · exact congrArg (· ++ [c]) same.disposed
  | close => exact .closed performs rfl rfl (x.world.sameNumber_disposeEach _)
  | disposeContext c => exact .kept (World.sameHouse_disposeContext x.world c)
  | setTimer =>
    simp only [Command.perform, Command.setTimerIn]
    split
    · split <;> exact .kept ⟨rfl, rfl, rfl⟩
    · exact .kept ⟨rfl, rfl, rfl⟩
  | clearTimer =>
    simp only [Command.perform, Command.clearTimerIn]
    split
    · split <;> exact .kept ⟨rfl, rfl, rfl⟩
    · exact .kept ⟨rfl, rfl, rfl⟩
  | installTimer | removeTimer | requestFrame | registerFrame | cancelFrame | trackUnhandled
  | trackHandled | reclaim => exact inContext _ _ _

theorem rehouses_start (x : Execution E) (p : Procedure) :
    x.Rehouses (Procedure.start x.world p).world := by
  cases p with
  | release n =>
    have same := World.sameHouse_dropObject { x.world with heap := x.world.heap.release n } n
      ((x.world.heap.release n).unreferenced n)
    exact .kept ⟨same.live, same.disposed, same.next⟩
  | collect =>
    simp only [Procedure.start]
    split <;> exact .kept ⟨rfl, rfl, rfl⟩
  | _ => exact .kept ⟨rfl, rfl, rfl⟩

theorem rehouses_resume (x : Execution E) (p : Progress) (k : Call Obj) (r : k.Reply) :
    x.Rehouses (k.resume E.types x.world p r).world := by
  cases k with
  | function | createClass | install => rcases r with _ | _ <;> exact .kept ⟨rfl, rfl, rfl⟩
  | job => rcases r with _ | _ | _ <;> exact .kept ⟨rfl, rfl, rfl⟩
  | _ => exact .kept ⟨rfl, rfl, rfl⟩

theorem rehouses_task [Traced Obj] {t : Task Obj} (next : x.AtTask t) (env : Surroundings)
    (p : Progress) : x.Rehouses (t.run env x.world p).world := by
  cases t with
  | fire | drain =>
    simp only [Task.run]
    split
    · split <;> exact .kept ⟨rfl, rfl, rfl⟩
    · exact .kept ⟨rfl, rfl, rfl⟩
  | frames | frame =>
    simp only [Task.run]
    split <;> exact .kept ⟨rfl, rfl, rfl⟩
  | classObjects c t =>
    simp only [Task.run, World.lookUpClass]
    split
    · rename_i found
      exact .kept ((Prod.mk.inj found).2 ▸ ⟨rfl, rfl, rfl⟩)
    · rename_i found
      split <;> exact .kept ((Prod.mk.inj found).2 ▸ ⟨rfl, rfl, rfl⟩)
  | defineClass c t =>
    simp only [Task.run, World.lookUpClass]
    split
    · exact .kept ⟨rfl, rfl, rfl⟩
    · split <;> rename_i found <;> exact .kept ((Prod.mk.inj found).2 ▸ ⟨rfl, rfl, rfl⟩)
  | traceRoots r => cases r <;> exact .kept ⟨rfl, rfl, rfl⟩
  | letGo =>
    simp only [Task.run]
    split
    · rename_i n heap first
      have same := World.sameHouse_dropObject { x.world with heap } n (!heap.isHeld n)
      exact .kept ⟨same.live, same.disposed, same.next⟩
    · exact .kept ⟨rfl, rfl, rfl⟩
  | traceComplete r =>
    cases r with
    | bridge => exact .released next rfl rfl rfl
    | _ => exact .kept ⟨rfl, rfl, rfl⟩
  | _ => exact .kept ⟨rfl, rfl, rfl⟩

theorem Rewrites.rehouses [Traced Obj] (rewrites : Rewrites x y) : x.Rehouses y.world := by
  cases rewrites with
  | idle _ _ world | halted _ _ world | called _ _ world => exact .kept (world ▸ .refl x.world)
  | performed performs _ world => exact world ▸ performs.rehouses
  | began _ _ world => exact world ▸ x.rehouses_start _
  | returned _ _ world => exact world ▸ x.rehouses_resume _ _ _
  | worked top _ _ world => exact world ▸ rehouses_task ⟨_, top⟩ _ _

theorem Rehouses.houses {w : World Obj τ} (rehouses : x.Rehouses w) (held : x.world.Houses c)
    (open_still : ¬ x.Performs .close) (not_told : ¬ x.AtTask (.traceComplete .bridge)) :
    w.Houses c := by
  cases rehouses with
  | kept same => rwa [World.Houses, same.live, same.disposed]
  | created _ live disposed =>
    rw [World.Houses, live, disposed]
    exact held.imp_left (List.mem_append_left _)
  | @disposed d _ _ live disposed =>
    rw [World.Houses, live, disposed]
    rcases held with live | disposed
    · by_cases same : c = d
      · exact Or.inr (List.mem_append_right _ (List.mem_singleton.mpr same))
      · exact Or.inl ((List.mem_erase_of_ne same).mpr live)
    · exact Or.inr (List.mem_append_left _ disposed)
  | closed performs => exact absurd performs open_still
  | released completes => exact absurd completes not_told

/-- A context that is not held comes to be held only if its number is given out again. -/
theorem Rehouses.not_houses {w : World Obj τ} (rehouses : x.Rehouses w)
    (let_go : ¬ x.world.Houses c)
    (other : ∀ config, x.Performs (.createContext config) → x.world.nextContext ≠ c) :
    ¬ w.Houses c := by
  cases rehouses with
  | kept same => rwa [World.Houses, same.live, same.disposed]
  | created performs live disposed =>
    rw [World.Houses, live, disposed]
    rintro (live | disposed)
    · rcases List.mem_append.mp live with old | new
      · exact let_go (Or.inl old)
      · exact other _ performs (List.mem_singleton.mp new).symm
    · exact let_go (Or.inr disposed)
  | disposed _ held live disposed =>
    rw [World.Houses, live, disposed]
    rintro (live | disposed)
    · exact let_go (Or.inl (List.mem_of_mem_erase live))
    · rcases List.mem_append.mp disposed with old | new
      · exact let_go (Or.inr old)
      · exact let_go (Or.inl (List.mem_singleton.mp new ▸ held))
  | closed _ live disposed =>
    rw [World.Houses, live, disposed]
    simp
  | released _ live disposed =>
    rw [World.Houses, live, disposed]
    rintro (live | disposed)
    · exact let_go (Or.inl live)
    · exact nomatch disposed

end Execution

end HostBridge
