import HostBridge.Proofs.Execution.Stack
import HostBridge.Proofs.Rejections.Tracking
/-!
# What a step does to a context

`Changes` lists every way in which a step of an execution changes a context that exists, with what
the step was about to do. `Outcome` adds that contexts come into being by one command only, and
that none ceases to exist.
-/

namespace HostBridge

variable {Obj τ : Type}

theorem Context.dispose_dispose (a : Context) : a.dispose.dispose = a.dispose := by
  cases valid : a.valid <;> simp [dispose, valid]

namespace World

theorem contexts_of_dropObject (w : World Obj τ) (n : Nat) (unreferenced : Bool) :
    (w.dropObject n unreferenced).1.contexts = w.contexts := by
  unfold dropObject
  split <;> rfl

theorem context?_update (w : World Obj τ) {c' : ContextId} {f : Context → Context}
    (ids : ∀ a, a.id = c' → (f a).id = c') (c : ContextId) :
    (w.update c' f).context? c = (w.context? c).map fun a => if c = c' then f a else a := by
  have kept : ∀ a : Context, (if a.id = c' then f a else a).id = a.id := by
    intro a
    split
    · rename_i here
      rw [ids a here, here]
    · rfl
  have mapped : (w.update c' f).context? c =
      (w.context? c).map fun a => if a.id = c' then f a else a := context?_map w kept c
  rw [mapped]
  cases found : w.context? c with
  | none => rfl
  | some a => rw [Option.map_some, id_of_context? found, Option.map_some]

theorem context?_update_self (w : World Obj τ) {c : ContextId} {f : Context → Context}
    (ids : ∀ a, a.id = c → (f a).id = c) : (w.update c f).context? c = (w.context? c).map f := by
  rw [context?_update w ids]
  simp only [if_true]

theorem context?_inContext {α : Type} (w : World Obj τ) (c' : ContextId) (absent : α)
    {f : Context → α × Context} (ids : ∀ a, (f a).2.id = a.id) (c : ContextId) :
    (Command.inContext w c' absent f).world.context? c =
      (w.context? c).map fun a => if c = c' then (f a).2 else a := by
  cases there : w.context? c' with
  | none =>
    simp only [Command.inContext, there]
    by_cases same : c = c'
    · rw [same, there, Option.map_none]
    · simp only [if_neg same, Option.map_id']
  | some d =>
    have named : ∀ a : Context, a.id = c' → (f d).2.id = c' :=
      fun _ _ => (ids d).trans (id_of_context? there)
    simp only [Command.inContext, there]
    rw [context?_update w named]
    by_cases same : c = c'
    · rw [same, there, Option.map_some, Option.map_some]
    · simp only [if_neg same]

theorem context?_inContext_self {α : Type} (w : World Obj τ) (c : ContextId) (absent : α)
    {f : Context → α × Context} (ids : ∀ a, (f a).2.id = a.id) :
    (Command.inContext w c absent f).world.context? c = (w.context? c).map fun a => (f a).2 := by
  rw [context?_inContext w c absent ids]
  simp only [if_true]

theorem context?_reclaim (w : World Obj τ) (c : ContextId) :
    w.reclaim.context? c = (w.context? c).map fun a => if w.isLive c then a.reclaim else a := by
  have kept : ∀ a : Context, (if w.isLive a.id then a.reclaim else a).id = a.id := by
    intro a
    split <;> rfl
  have mapped : w.reclaim.context? c =
      (w.context? c).map fun a => if w.isLive a.id then a.reclaim else a := context?_map w kept c
  rw [mapped]
  cases found : w.context? c with
  | none => rfl
  | some a => rw [Option.map_some, id_of_context? found, Option.map_some]

theorem context?_createContext (w : World Obj τ) (config : Option Config) (c : ContextId) :
    (w.createContext config).context? c = (w.context? c).or
      ([Context.create w.nextContext (config.getD w.defaults)].find? (·.id = c)) :=
  List.find?_append ..

variable [Facility τ]

theorem context?_disposeContext (w : World Obj τ) (c' c : ContextId) :
    (w.disposeContext c').1.context? c =
      (w.context? c).map fun a => if c = c' then a.dispose else a := by
  have updated : (w.disposeContext c').1.contexts = (w.update c' Context.dispose).contexts :=
    contexts_of_foldl_cancel _ _
  rw [context?, updated]
  apply context?_update
  intro a here
  rw [Context.dispose_id, here]

theorem context?_disposeEach (w : World Obj τ) (cs : List ContextId) (c : ContextId) :
    (w.disposeEach cs).1.context? c =
      (w.context? c).map fun a => if c ∈ cs then a.dispose else a := by
  induction cs generalizing w with
  | nil =>
    simp only [List.not_mem_nil, if_false, Option.map_id']
    rfl
  | cons c' cs ih =>
    rw [disposeEach, ih, context?_disposeContext, Option.map_map]
    congr 1
    funext a
    by_cases here : c = c'
    · simp [here, Context.dispose_dispose]
    · simp [here]

theorem context?_close (w : World Obj τ) (c : ContextId) :
    w.close.1.context? c = (w.context? c).map fun a => if c ∈ w.live then a.dispose else a := by
  have same : c ∈ w.liveInOrder ↔ c ∈ w.live := List.mem_mergeSort
  have each := w.context?_disposeEach w.liveInOrder c
  simp only [same] at each
  exact each

end World

def Command.Disposes [Facility τ] (w : World Obj τ) (c : ContextId) : Command Obj τ → Prop
  | dispose c' => c' = c ∧ c ∈ w.live
  | close => c ∈ w.live
  | disposeContext c' => c' = c
  | _ => False

namespace Execution

variable [Facility τ] {E : Embedder Obj τ}

inductive Reclaims (x : Execution E) (c : ContextId) : Prop
  | byHand (performs : x.Performs (.reclaim c))
  | ofBridge (completes : x.AtTask (.traceComplete .bridge)) (live : x.world.isLive c = true)
  | ofContext (completes : x.AtTask (.traceComplete (.context c)))

inductive Reclasses (x : Execution E) (c : ContextId) (r : ClassCache) : ClassCache → Prop
  | lookedUp {t : TypeId}
      (looks : x.AtTask (.classObjects c t) ∨ x.AtTask (.defineClass c t)) :
      Reclasses x c r (r.evict (E.alive x.state x.world.heap) t)
  | created {t : TypeId} {parent : Option Handle} {objects : ClassObjects}
      (returns : x.Returns (.createClass c t parent) (.ok objects)) :
      Reclasses x c r (r.insert t objects)
  | failed {t : TypeId} {objects : ClassObjects} {thrown : Value}
      (returns : x.Returns (.install c t objects) (.error thrown)) : Reclasses x c r (r.erase t)

inductive Changes (x : Execution E) (c : ContextId) (a : Context) : Context → Prop
  | kept : Changes x c a a
  | timerSet {mode : TimerMode} {callback : Value} {delay : Duration} {arguments : List Value}
      (performs : x.Performs (.setTimer c mode callback delay arguments)) :
      Changes x c a (a.setTimer (a.newTimer callback delay arguments mode))
  | timerInstalled {id : TimerId} {t : Timer} (performs : x.Performs (.installTimer c id t)) :
      Changes x c a { a with timers := a.timers.accept id t }
  | timerRemoved {id : TimerId}
      (performs : x.Performs (.clearTimer c id) ∨ x.Performs (.removeTimer c id)) :
      Changes x c a { a with timers := a.timers.remove id }
  | timerFired {id : TimerId} {error : Option String}
      {e : Entry TimerId Timer} (fires : x.AtTask (.fire c id error))
      (valid : a.valid = true) (entry : a.timers.entry? id = some e) :
      Changes x c a { a with level := Task.fireLevel e a.level error }
  | levelSet {level : UInt32}
      (sets : x.AtTask (.setLevel c level)) : Changes x c a { a with level }
  | timerRetired {id : TimerId}
      (retires : x.AtTask (.retire c id)) :
      Changes x c a { a with timers := a.timers.remove id }
  | frameRequested {callback : FrameCallback} (performs : x.Performs (.requestFrame c callback)) :
      Changes x c a (a.requestFrame callback)
  | frameRegistered {id : FrameId} {r : FrameRequest}
      (performs : x.Performs (.registerFrame c id r)) :
      Changes x c a { a with frames := a.frames.accept id r }
  | frameCancelled {id : FrameId} (performs : x.Performs (.cancelFrame c id)) :
      Changes x c a { a with frames := a.frames.remove id }
  | frameTaken {id : FrameId} {timestamp : Double}
      {e : Entry FrameId FrameRequest} (runs : x.AtTask (.frame c id timestamp))
      (entry : a.frames.entry? id = some e) :
      Changes x c a { a with frames := a.frames.remove id }
  | rejectionTracked {promise : Handle} {reason : Value}
      (performs : x.Performs (.trackUnhandled c promise reason)) :
      Changes x c a { a with rejections := a.rejections.trackUnhandled promise reason }
  | handlerTracked {promise : Handle} {reason : Value}
      (performs : x.Performs (.trackHandled c promise reason)) :
      Changes x c a { a with rejections := a.rejections.trackHandled promise reason }
  | batchTaken (valid : a.valid = true) :
      Changes x c a { a with rejections := a.rejections.takePending }
  | drainBegun (drains : x.AtTask (.drain c))
      (valid : a.valid = true) (idle : a.draining = false) :
      Changes x c a { a with draining := true }
  | drainEnded (ends : x.AtTask (.endDrain c)) :
      Changes x c a { a with draining := false }
  | classesKept {classes : ClassCache} (reclasses : x.Reclasses c a.classes classes) :
      Changes x c a { a with classes }
  | disposed {command : Command Obj τ} (performs : x.Performs command)
      (disposes : command.Disposes x.world c) : Changes x c a a.dispose
  | reclaimed (reclaims : x.Reclaims c) : Changes x c a a.reclaim

inductive Outcome (x : Execution E) (c : ContextId) : Option Context → Option Context → Prop
  | absent : Outcome x c none none
  | created {config : Option Config} (performs : x.Performs (.createContext config)) :
      Outcome x c none (some (.create c (config.getD x.world.defaults)))
  | changed {a b : Context} (changes : x.Changes c a b) : Outcome x c (some a) (some b)

variable {x y : Execution E}

theorem Changes.ite {c : ContextId} {a b : Context} {p : Prop} [Decidable p]
    (changes : p → x.Changes c a b) : x.Changes c a (if p then b else a) := by
  split
  · rename_i here
    exact changes here
  · exact .kept

theorem outcome_map {c : ContextId} {w : World Obj τ} {f : Context → Context}
    (mapped : w.context? c = (x.world.context? c).map f)
    (changes : ∀ a, x.world.context? c = some a → x.Changes c a (f a)) :
    x.Outcome c (x.world.context? c) (w.context? c) := by
  rw [mapped]
  cases found : x.world.context? c with
  | none => exact .absent
  | some a => exact .changed (changes a found)

theorem outcome_of_contexts (c : ContextId) {w : World Obj τ}
    (same : w.contexts = x.world.contexts) :
    x.Outcome c (x.world.context? c) (w.context? c) := by
  apply outcome_map (f := id)
  · rw [World.context?, same, World.context?, Option.map_id_fun, id]
  · intro a _
    exact .kept

theorem outcome_update (c : ContextId) {c' : ContextId} {f : Context → Context}
    (ids : ∀ a, a.id = c' → (f a).id = c')
    (changes : ∀ a, c = c' → x.world.context? c' = some a → x.Changes c a (f a)) :
    x.Outcome c (x.world.context? c) ((x.world.update c' f).context? c) := by
  apply outcome_map (World.context?_update _ ids c)
  intro a found
  exact .ite fun same => changes a same (same ▸ found)

theorem outcome_inContext {α : Type} (c : ContextId) {c' : ContextId} (absent : α)
    {f : Context → α × Context} (ids : ∀ a, (f a).2.id = a.id)
    (changes : ∀ a, x.Changes c' a (f a).2) :
    x.Outcome c (x.world.context? c) ((Command.inContext x.world c' absent f).world.context? c) := by
  apply outcome_map (x.world.context?_inContext c' absent ids c)
  intro a _
  exact .ite fun same => same ▸ changes a

theorem Performs.outcome {command : Command Obj τ} (performs : x.Performs command) (c : ContextId) :
    x.Outcome c (x.world.context? c) ((command.perform x.world).world.context? c) := by
  cases command with
  | allocate object =>
    simp only [Command.perform]
    split <;> exact outcome_of_contexts c rfl
  | retain h =>
    simp only [Command.perform]
    split <;> exact outcome_of_contexts c rfl
  | write | setThreshold | act | post | listen | leave => exact outcome_of_contexts c rfl
  | createContext config =>
    have appended := x.world.context?_createContext config c
    simp only [Command.perform]
    rw [appended]
    cases found : x.world.context? c with
    | some a => exact .changed .kept
    | none =>
      rw [Option.none_or, List.find?_singleton]
      split
      · rename_i here
        have named : x.world.nextContext = c := of_decide_eq_true here
        rw [named]
        exact .created performs
      · exact .absent
  | dispose c' =>
    cases live : x.world.isLive c' with
    | false =>
      have refused : (Command.perform x.world (.dispose c')).world = x.world := by
        simp only [Command.perform, World.find, live]
        rfl
      exact outcome_of_contexts c (congrArg World.contexts refused)
    | true =>
      have done : (Command.perform x.world (.dispose c')).world = (x.world.dispose c').1 := by
        simp only [Command.perform, World.find, live]
        rfl
      rw [done]
      apply outcome_map (x.world.context?_disposeContext c' c)
      intro a _
      refine .ite fun same => .disposed performs ⟨same.symm, ?_⟩
      simpa [World.isLive, same] using live
  | close =>
    apply outcome_map (x.world.context?_close c)
    intro a _
    exact .ite fun live => .disposed performs live
  | disposeContext c' =>
    apply outcome_map (x.world.context?_disposeContext c' c)
    intro a _
    exact .ite fun same => .disposed performs same.symm
  | setTimer c' mode callback delay arguments =>
    simp only [Command.perform, Command.setTimerIn]
    split
    · rename_i d there
      have set : x.Outcome c (x.world.context? c) ((x.world.update c'
          (·.setTimer (d.newTimer callback delay arguments mode))).context? c) := by
        refine outcome_update c (fun a here => here) ?_
        rintro a rfl found
        obtain rfl : a = d := Option.some.inj (found.symm.trans there)
        exact .timerSet performs
      split <;> exact set
    · exact outcome_of_contexts c rfl
  | clearTimer c' id =>
    simp only [Command.perform, Command.clearTimerIn]
    split
    · split
      · refine outcome_update c (fun a here => here) ?_
        rintro a rfl _
        exact .timerRemoved (Or.inl performs)
      · exact outcome_of_contexts c rfl
    · exact outcome_of_contexts c rfl
  | installTimer =>
    exact outcome_inContext c _ (fun _ => rfl) fun _ => .timerInstalled performs
  | removeTimer =>
    exact outcome_inContext c _ (fun _ => rfl) fun _ => .timerRemoved (Or.inr performs)
  | requestFrame =>
    exact outcome_inContext c _ (fun _ => rfl) fun _ => .frameRequested performs
  | registerFrame =>
    exact outcome_inContext c _ (fun _ => rfl) fun _ => .frameRegistered performs
  | cancelFrame =>
    exact outcome_inContext c _ (fun _ => rfl) fun _ => .frameCancelled performs
  | trackUnhandled =>
    exact outcome_inContext c _ (fun _ => rfl) fun _ => .rejectionTracked performs
  | trackHandled =>
    exact outcome_inContext c _ (fun _ => rfl) fun _ => .handlerTracked performs
  | reclaim => exact outcome_inContext c _ (fun _ => rfl) fun _ => .reclaimed (.byHand performs)

theorem outcome_takeBatch (x : Execution E) (c c' : ContextId) :
    x.Outcome c (x.world.context? c) ((x.world.takeBatch c').context? c) := by
  refine outcome_update c ?_ ?_
  · intro a here
    split <;> exact here
  · intro a _ _
    exact .ite .batchTaken

theorem outcome_start (x : Execution E) (c : ContextId) (p : Procedure) :
    x.Outcome c (x.world.context? c) ((Procedure.start x.world p).world.context? c) := by
  cases p with
  | process c' => exact x.outcome_takeBatch c c'
  | release n => exact outcome_of_contexts c (World.contexts_of_dropObject _ _ _)
  | collect roots =>
    simp only [Procedure.start]
    split <;> exact outcome_of_contexts c rfl
  | _ => exact outcome_of_contexts c rfl

theorem outcome_classes (c : ContextId) {c' : ContextId} {f : Context → ClassCache}
    (reclasses : ∀ a, x.Reclasses c' a.classes (f a)) :
    x.Outcome c (x.world.context? c)
      ((x.world.update c' fun a => { a with classes := f a }).context? c) := by
  refine outcome_update c (fun _ here => here) ?_
  rintro a rfl _
  exact .classesKept (reclasses a)

theorem outcome_resume (c : ContextId) (p : Progress) {k : Call Obj} {r : k.Reply}
    (returns : x.Returns k r) :
    x.Outcome c (x.world.context? c) ((k.resume E.types x.world p r).world.context? c) := by
  cases k with
  | createClass c' t parent =>
    rcases r with _ | objects
    · exact outcome_of_contexts c rfl
    · exact outcome_classes c fun _ => .created returns
  | install c' t objects =>
    rcases r with _ | _
    · exact outcome_classes c fun _ => .failed returns
    · exact outcome_of_contexts c rfl
  | function => rcases r with _ | _ <;> exact outcome_of_contexts c rfl
  | job => rcases r with _ | _ | _ <;> exact outcome_of_contexts c rfl
  | _ => exact outcome_of_contexts c rfl

theorem outcome_lookUpClass (c : ContextId) {c' : ContextId} {t : TypeId}
    (looks : x.AtTask (.classObjects c' t) ∨ x.AtTask (.defineClass c' t)) :
    x.Outcome c (x.world.context? c)
      ((x.world.lookUpClass (E.alive x.state x.world.heap) c' t).2.context? c) :=
  outcome_classes c fun _ => .lookedUp looks

theorem outcome_task [Traced Obj] (c : ContextId) {t : Task Obj} (next : x.AtTask t)
    (p : Progress) :
    x.Outcome c (x.world.context? c)
      ((t.run ⟨E.types, E.alive x.state x.world.heap⟩ x.world p).world.context? c) := by
  cases t with
  | call | dispatch | markAndSweep | conclude => exact outcome_of_contexts c rfl
  | fire c' id error =>
    simp only [Task.run]
    split
    · rename_i d there
      split
      · rename_i e valid entry
        refine outcome_update c (fun _ here => here) ?_
        rintro a rfl found
        obtain rfl : a = d := Option.some.inj (found.symm.trans there)
        exact .timerFired next valid entry
      · exact outcome_of_contexts c rfl
    · exact outcome_of_contexts c rfl
  | setLevel c' level =>
    exact outcome_update c (fun _ here => here) fun _ same _ => same ▸ .levelSet next
  | retire c' id =>
    refine outcome_update c (fun _ here => here) ?_
    rintro a rfl _
    exact .timerRetired next
  | drain c' =>
    simp only [Task.run]
    split
    · rename_i d there
      split
      · rename_i free
        refine outcome_update c (fun _ here => here) ?_
        rintro a rfl found
        obtain rfl : a = d := Option.some.inj (found.symm.trans there)
        have both : a.valid = true ∧ a.draining = false := by simpa using free
        exact .drainBegun next both.1 both.2
      · exact outcome_of_contexts c rfl
    · exact outcome_of_contexts c rfl
  | endDrain c' =>
    refine outcome_update c (fun _ here => here) ?_
    rintro a rfl _
    exact .drainEnded next
  | flush c' => exact x.outcome_takeBatch c c'
  | frames c' timestamp =>
    simp only [Task.run]
    split <;> exact outcome_of_contexts c rfl
  | frame c' id timestamp =>
    simp only [Task.run]
    split
    · rename_i e entry
      refine outcome_update c (fun _ here => here) ?_
      rintro a rfl found
      rw [found] at entry
      exact .frameTaken next entry
    · exact outcome_of_contexts c rfl
  | classObjects c' t =>
    have looked := outcome_lookUpClass c (Or.inl next)
    simp only [Task.run]
    split
    · rename_i hit
      rwa [hit] at looked
    · rename_i miss
      rw [miss] at looked
      split <;> exact looked
  | defineClass c' t =>
    have looked := outcome_lookUpClass c (Or.inr next)
    simp only [Task.run]
    split
    · exact outcome_of_contexts c rfl
    · split
      · rename_i hit
        rwa [hit] at looked
      · rename_i miss
        rwa [miss] at looked
  | traceRoots r => cases r <;> exact outcome_of_contexts c rfl
  | letGo =>
    simp only [Task.run]
    split
    · exact outcome_of_contexts c (World.contexts_of_dropObject _ _ _)
    · exact outcome_of_contexts c rfl
  | traceComplete r =>
    cases r with
    | bridge =>
      apply outcome_map (x.world.context?_reclaim c)
      intro a _
      exact .ite fun live => .reclaimed (.ofBridge next live)
    | context c' =>
      refine outcome_update c (fun _ here => here) ?_
      rintro a rfl _
      exact .reclaimed (.ofContext next)
    | handles | external => exact outcome_of_contexts c rfl

theorem Rewrites.outcome [Traced Obj] (rewrites : Rewrites x y) (c : ContextId) :
    x.Outcome c (x.world.context? c) (y.world.context? c) := by
  cases rewrites with
  | idle _ _ world | halted _ _ world | called _ _ world =>
    exact outcome_of_contexts c (congrArg World.contexts world)
  | performed performs _ world => exact world ▸ performs.outcome c
  | began _ _ world => exact world ▸ x.outcome_start c _
  | returned _ _ world _ returns => exact world ▸ outcome_resume c _ returns
  | worked top _ _ world => exact world ▸ outcome_task c ⟨_, top⟩ _

theorem Performs.named_of_created [Traced Obj] {config : Option Config} {c : ContextId}
    {a : Context} {n : Nat} (performs : (x.run n).Performs (.createContext config))
    (absent : (x.run n).world.context? c = none)
    (found : (x.run (n + 1)).world.context? c = some a) : (x.run n).world.nextContext = c := by
  have appended := (x.run n).world.context?_createContext config c
  have world : (x.run (n + 1)).world = (x.run n).world.createContext config := performs.run_succ
  rw [absent, Option.none_or, List.find?_singleton, ← world, found] at appended
  by_cases here : (x.run n).world.nextContext = c
  · exact here
  · rw [if_neg (by simp [Context.create, here])] at appended
    cases appended

theorem Changes.config {c : ContextId} {a b : Context} (changes : x.Changes c a b) :
    b.config = a.config := by
  cases changes with
  | disposed =>
    rw [Context.dispose]
    split <;> rfl
  | timerSet | timerInstalled | timerRemoved | timerRetired | timerFired | levelSet
  | frameRequested | frameRegistered | frameCancelled | frameTaken | rejectionTracked
  | handlerTracked | batchTaken | drainBegun | drainEnded | classesKept | reclaimed | kept => rfl

section

variable [Traced Obj] {c : ContextId} {m n : Nat} {a b : Context}

theorem config_run (found : (x.run m).world.context? c = some a) (le : m ≤ n) :
    ∃ b, (x.run n).world.context? c = some b ∧ b.config = a.config := by
  induction le with
  | refl => exact ⟨a, found, rfl⟩
  | @step n _ ih =>
    obtain ⟨b, here, same⟩ := ih
    have outcome := (x.run_rewrites n).outcome c
    rw [here] at outcome
    generalize after : (x.run (n + 1)).world.context? c = o at outcome
    cases outcome with
    | changed changes => exact ⟨_, rfl, changes.config.trans same⟩

theorem config_eq (found : (x.run m).world.context? c = some a)
    (found' : (x.run n).world.context? c = some b) : a.config = b.config := by
  rcases Nat.le_total m n with le | le
  · obtain ⟨d, there, same⟩ := config_run found le
    obtain rfl := Option.some.inj (found'.symm.trans there)
    exact same.symm
  · obtain ⟨d, there, same⟩ := config_run found' le
    obtain rfl := Option.some.inj (found.symm.trans there)
    exact same

end

theorem Changes.valid {c : ContextId} {a b : Context} (changes : x.Changes c a b)
    (valid : b.valid = true) : a.valid = true := by
  cases changes with
  | disposed =>
    rw [Context.dispose] at valid
    split at valid
    · assumption
    · exact valid
  | timerSet | timerInstalled | timerRemoved | timerFired | levelSet | timerRetired | frameRequested
  | frameRegistered | frameCancelled | frameTaken | rejectionTracked | handlerTracked | batchTaken
  | drainBegun | drainEnded | classesKept | reclaimed | kept => exact valid

def Disposed (x : Execution E) (c : ContextId) : Prop :=
  ∃ a, x.world.context? c = some a ∧ a.valid = false

theorem Disposed.not_valid {c : ContextId} (disposed : x.Disposed c) :
    x.world.isValid c = false := by
  obtain ⟨a, found, invalid⟩ := disposed
  rw [World.isValid, found]
  exact invalid

theorem Disposed.mono [Traced Obj] {c : ContextId} {m n : Nat} (disposed : (x.run m).Disposed c)
    (le : m ≤ n) : (x.run n).Disposed c := by
  induction le with
  | refl => exact disposed
  | @step n _ ih =>
    obtain ⟨a, found, invalid⟩ := ih
    have outcome := (x.run_rewrites n).outcome c
    rw [found] at outcome
    generalize after : (x.run (n + 1)).world.context? c = o at outcome
    cases outcome with
    | @changed _ b changes =>
      refine ⟨b, after, ?_⟩
      cases valid : b.valid with
      | false => rfl
      | true => exact absurd (changes.valid valid) (by simp [invalid])

end Execution

end HostBridge
