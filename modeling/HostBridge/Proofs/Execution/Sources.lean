import HostBridge.Proofs.Execution.Stack
/-!
# Where tasks come from

`Brings` lists every task that a step can put on the stack, with what the step was about to do. A
timer that fires and a frame request that runs are looked up at that moment, and their callbacks are
called at once, before anything else can happen.
-/

namespace HostBridge

variable {Obj τ : Type}

/-- The timer that a fire finds: it is active, and its context may run script. -/
def World.ready? (w : World Obj τ) (c : ContextId) (id : TimerId) : Option (Entry TimerId Timer) :=
  (w.context? c).bind fun a => if a.valid then a.timers.entry? id else none

def World.request? (w : World Obj τ) (c : ContextId) (id : FrameId) :
    Option (Entry FrameId FrameRequest) :=
  (w.context? c).bind (·.frames.entry? id)

theorem World.ready?_eq_some {w : World Obj τ} {c : ContextId} {id : TimerId}
    {e : Entry TimerId Timer} : w.ready? c id = some e ↔
      ∃ a, w.context? c = some a ∧ a.valid = true ∧ a.timers.entry? id = some e := by
  rw [ready?, Option.bind_eq_some_iff]
  constructor
  · rintro ⟨a, found, ready⟩
    split at ready
    · rename_i valid
      exact ⟨a, found, valid, ready⟩
    · exact nomatch ready
  · rintro ⟨a, found, valid, entry⟩
    exact ⟨a, found, by rw [if_pos valid, entry]⟩

theorem World.ready?_valid {w : World Obj τ} {c : ContextId} {id : TimerId}
    {e : Entry TimerId Timer} (ready : w.ready? c id = some e) : w.isValid c = true := by
  obtain ⟨a, found, valid, _⟩ := ready?_eq_some.mp ready
  rw [isValid, found]
  exact valid

theorem World.batch_of_not_valid {w : World Obj τ} {c : ContextId} (invalid : w.isValid c ≠ true) :
    w.batch c = ⟨[], []⟩ := by
  rw [batch]
  cases found : w.context? c with
  | none => rfl
  | some a =>
    have disposed : a.valid ≠ true := by simpa [isValid, found] using invalid
    simp [disposed]

def Task.timerCall (c : ContextId) (e : Entry TimerId Timer) : Call Obj :=
  .function c (.timer e.key e.serial) e.item.callback .undefined e.item.arguments

theorem Task.run_fire [Traced Obj] {w : World Obj τ} {c : ContextId} {id : TimerId}
    {e : Entry TimerId Timer} (ready : w.ready? c id = some e) (env : Surroundings) (p : Progress)
    (error : Option String) :
    ∃ before, (Task.run env w p (.fire c id error)).first = fireTasks c e before error ∧
      (Task.run env w p (.fire c id error)).world =
        w.update c fun a => { a with level := fireLevel e a.level error } := by
  obtain ⟨a, found, valid, entry⟩ := World.ready?_eq_some.mp ready
  exact ⟨a.level, by simp [run, found, valid, entry], by simp [run, found, valid, entry]⟩

theorem Task.run_fire_of_none [Traced Obj] {w : World Obj τ} {c : ContextId} {id : TimerId}
    (nothing : w.ready? c id = none) (env : Surroundings) (p : Progress) (error : Option String) :
    (Task.run env w p (.fire c id error)).first = [] ∧
      (Task.run env w p (.fire c id error)).world = w := by
  cases found : w.context? c with
  | none => exact ⟨by simp [run, found], by simp [run, found]⟩
  | some a =>
    rw [World.ready?, found, Option.bind_some] at nothing
    cases valid : a.valid with
    | false => exact ⟨by simp [run, found, valid], by simp [run, found, valid]⟩
    | true =>
      rw [valid, if_pos rfl] at nothing
      exact ⟨by simp [run, found, valid, nothing], by simp [run, found, valid, nothing]⟩

variable [Facility τ] {E : Embedder Obj τ}

namespace Execution

structure Fires (x : Execution E) (c : ContextId) (e : Entry TimerId Timer)
    (error : Option String) : Prop where
  next : x.AtTask (.fire c e.key error)
  ready : x.world.ready? c e.key = some e

structure RunsFrame (x : Execution E) (c : ContextId) (e : Entry FrameId FrameRequest)
    (timestamp : Double) : Prop where
  next : x.AtTask (.frame c e.key timestamp)
  active : x.world.request? c e.key = some e

def Continues (x : Execution E) (c : ContextId) : Prop := ∃ r, x.Returns (.job c) (some r)

inductive TakesBatch (x : Execution E) (c : ContextId) : Prop
  | flushed (next : x.AtTask (.flush c)) (valid : x.world.isValid c = true)
  | processed {k : Call Obj} {resume : Nat → E.Activity} (requests : x.Requests k (.process c) resume)
      (valid : x.world.isValid c = true)

theorem TakesBatch.valid {x : Execution E} {c : ContextId} (takes : x.TakesBatch c) :
    x.world.isValid c = true := by
  cases takes with
  | flushed _ valid | processed _ valid => exact valid

inductive Brings (x : Execution E) : Task Obj → Prop
  | dropHook {n : Nat} {object : Obj} : Brings x (.call (.drop n object))
  | tracing {r : RootSet} : Brings x (.traceRoots r)
  | sweeping : Brings x .markAndSweep
  | lettingGo : Brings x .letGo
  | concluding : Brings x .conclude
  | completing {r : RootSet} : Brings x (.traceComplete r)
  | rootSet {n : Nat} : Brings x (.call (.traceRoots n))
  | rootSetDone {n : Nat} : Brings x (.call (.traceComplete n))
  | exception {c : ContextId} {v : Value} : Brings x (.call (.report c v))
  | classObjects {k : Call Obj} {c : ContextId} {t : TypeId} {resume}
      (requests : x.Requests k (.classObjects c t) resume) : Brings x (.classObjects c t)
  | parentObjects {c : ContextId} {t parent : TypeId} (looks : x.AtTask (.classObjects c t))
      (child : (E.types t).parent = some parent) : Brings x (.classObjects c parent)
  | defineClass {c : ContextId} {t : TypeId} (looks : x.AtTask (.classObjects c t)) :
      Brings x (.defineClass c t)
  | createClass {c : ContextId} {t : TypeId} {parent : Option Handle}
      (defines : x.AtTask (.defineClass c t))
      (missing : (x.world.lookUpClass (E.alive x.state x.world.heap) c t).1 = none) :
      Brings x (.call (.createClass c t parent))
  | install {c : ContextId} {t : TypeId} {parent : Option Handle} {objects : ClassObjects}
      (returns : x.Returns (.createClass c t parent) (.ok objects))
      (installs : (E.types t).installs = true) : Brings x (.call (.install c t objects))
  | drain {c : ContextId} : Brings x (.drain c)
  | firstJob {c : ContextId} (drains : x.AtTask (.drain c)) (valid : x.world.isValid c = true) :
      Brings x (.call (.job c))
  | nextJob {c : ContextId} (continues : x.Continues c) : Brings x (.call (.job c))
  | endDrain {c : ContextId} (drains : x.AtTask (.drain c)) (valid : x.world.isValid c = true) :
      Brings x (.endDrain c)
  | flush {c : ContextId} : Brings x (.flush c)
  | event {c : ContextId} {kind : EventKind} {r : Rejection} (takes : x.TakesBatch c)
      (taken : .call (.event c kind r) ∈ ((x.world.batch c).tasks c : List (Task Obj))) :
      Brings x (.call (.event c kind r))
  | fire {k : Call Obj} {c : ContextId} {id : TimerId} {error : Option String} {resume}
      (requests : x.Requests k (.fire c id error) resume) : Brings x (.fire c id error)
  | fireOf {f : Fire} (dispatches : x.AtTask (.dispatch f))
      (live : x.world.isLive f.target.context = true) :
      Brings x (.fire f.target.context f.target.timer f.error)
  | dispatch {k : Call Obj} {f : Fire} {resume} (requests : x.Requests k (.dispatch f) resume) :
      Brings x (.dispatch f)
  | pumped {k : Call Obj} {f : Fire} {resume} (requests : x.Requests k .pump resume)
      (queued : f ∈ x.world.queue.waiting) : Brings x (.dispatch f)
  | timerCall {c : ContextId} {e : Entry TimerId Timer} (fires : x.Fires c e none) :
      Brings x (.call (Task.timerCall c e))
  | typeError {c : ContextId} {e : Entry TimerId Timer} {message : String}
      (fires : x.Fires c e (some message)) : Brings x (.call (.typeError c message))
  | setLevel {c : ContextId} {level : UInt32} : Brings x (.setLevel c level)
  | retire {c : ContextId} {e : Entry TimerId Timer} {error : Option String}
      (fires : x.Fires c e error) (once : e.item.isOneShot = true) : Brings x (.retire c e.key)
  | frames {c : ContextId} {timestamp : Double} : Brings x (.frames c timestamp)
  | frame {c : ContextId} {id : FrameId} {timestamp : Double}
      (passes : x.AtTask (.frames c timestamp)) (valid : x.world.isValid c = true) :
      Brings x (.frame c id timestamp)
  | frameCall {c : ContextId} {e : Entry FrameId FrameRequest} {timestamp : Double}
      (runs : x.RunsFrame c e timestamp) : Brings x (.call (Task.frameCall c e timestamp))

variable {x y : Execution E}

theorem brings_dropped {w : World Obj τ} {n : Nat} {unreferenced : Bool} {t : Task Obj}
    (mem : t ∈ (w.dropObject n unreferenced).2) : x.Brings t := by
  unfold World.dropObject at mem
  split at mem
  · rw [List.mem_singleton.mp mem]
    exact .dropHook
  · exact nomatch mem

theorem brings_batch {c : ContextId} (takes : x.world.isValid c = true → x.TakesBatch c)
    {t : Task Obj} (mem : t ∈ (x.world.batch c).tasks c) : x.Brings t := by
  by_cases valid : x.world.isValid c = true
  · rcases List.mem_append.mp mem with here | here
    · obtain ⟨r, _, rfl⟩ := List.mem_map.mp here
      exact .event (takes valid) mem
    · obtain ⟨r, _, rfl⟩ := List.mem_map.mp here
      exact .event (takes valid) mem
  · rw [World.batch_of_not_valid valid] at mem
    exact nomatch mem

theorem brings_start {k : Call Obj} {p : Procedure} {resume : p.Answer → E.Activity}
    (requests : x.Requests k p resume) {t : Task Obj}
    (mem : t ∈ (Procedure.start x.world p).first) : x.Brings t := by
  cases p with
  | release n => exact brings_dropped mem
  | collect roots =>
    simp only [Procedure.start] at mem
    split at mem
    · exact nomatch mem
    · simp only [Procedure.collection, List.mem_append, List.mem_map, List.mem_cons,
        List.not_mem_nil, or_false] at mem
      rcases mem with (⟨r, _, rfl⟩ | rfl | rfl | rfl) | ⟨r, _, rfl⟩
      · exact .tracing
      · exact .sweeping
      · exact .lettingGo
      · exact .concluding
      · exact .completing
  | process c => exact brings_batch (.processed requests) mem
  | pump =>
    obtain ⟨f, queued, rfl⟩ := List.mem_map.mp mem
    exact .pumped requests queued
  | framesAll timestamp =>
    obtain ⟨c, _, rfl⟩ := List.mem_map.mp mem
    exact .frames
  | exception c thrown =>
    rw [List.mem_singleton.mp mem]
    exact .exception
  | drain c =>
    rw [List.mem_singleton.mp mem]
    exact .drain
  | fire c id error =>
    rw [List.mem_singleton.mp mem]
    exact .fire requests
  | dispatch f =>
    rw [List.mem_singleton.mp mem]
    exact .dispatch requests
  | frames c timestamp =>
    rw [List.mem_singleton.mp mem]
    exact .frames
  | classObjects c t' =>
    rw [List.mem_singleton.mp mem]
    exact .classObjects requests

theorem brings_resume {k : Call Obj} {r : k.Reply} (returns : x.Returns k r) {p : Progress}
    {t : Task Obj} (mem : t ∈ (k.resume E.types x.world p r).first) : x.Brings t := by
  cases k with
  | function c cause f this arguments =>
    rcases r with thrown | _
    · rw [List.mem_singleton.mp mem]
      exact .exception
    · exact nomatch mem
  | job c =>
    rcases r with _ | thrown | _
    · exact nomatch mem
    · rcases List.mem_cons.mp mem with rfl | later
      · exact .exception
      · rw [List.mem_singleton.mp later]
        exact .nextJob ⟨_, returns⟩
    · rw [List.mem_singleton.mp mem]
      exact .nextJob ⟨_, returns⟩
  | typeError c message =>
    rw [List.mem_singleton.mp mem]
    exact .exception
  | createClass c t' parent =>
    rcases r with _ | objects
    · exact nomatch mem
    · simp only [Call.resume] at mem
      split at mem
      · rename_i installs
        rw [List.mem_singleton.mp mem]
        exact .install returns installs
      · exact nomatch mem
  | install => rcases r with _ | _ <;> exact nomatch mem
  | session | native | report | event | traceRoots | traceComplete | drop => exact nomatch mem

theorem brings_fireTasks {c : ContextId} {e : Entry TimerId Timer} {error : Option String}
    (fires : x.Fires c e error) {before : UInt32} {t : Task Obj}
    (mem : t ∈ Task.fireTasks c e before error) : x.Brings t := by
  have retired : t ∈ (if e.item.isOneShot then [Task.retire c e.key] else [] : List (Task Obj)) →
      x.Brings t := by
    intro mem
    split at mem
    · rename_i once
      rw [List.mem_singleton.mp mem]
      exact .retire fires once
    · exact nomatch mem
  cases error with
  | some message =>
    rcases List.mem_cons.mp mem with rfl | later
    · exact .typeError fires
    · exact retired later
  | none =>
    simp only [Task.fireTasks, List.mem_cons] at mem
    rcases mem with rfl | rfl | rfl | later
    · exact .timerCall fires
    · exact .setLevel
    · exact .drain
    · exact retired later

variable [Traced Obj]

theorem brings_task {t : Task Obj} (next : x.AtTask t) (no_call : ∀ k, t ≠ .call k)
    {p : Progress} {u : Task Obj}
    (mem : u ∈ (t.run ⟨E.types, E.alive x.state x.world.heap⟩ x.world p).first) : x.Brings u := by
  cases t with
  | call k => exact absurd rfl (no_call k)
  | fire c id error =>
    cases ready : x.world.ready? c id with
    | none =>
      rw [(Task.run_fire_of_none ready _ p error).1] at mem
      exact nomatch mem
    | some e =>
      obtain ⟨before, first, _⟩ := Task.run_fire ready _ p error
      obtain ⟨a, _, _, entry⟩ := World.ready?_eq_some.mp ready
      have named : e.key = id := by simpa using List.find?_some entry
      subst named
      rw [first] at mem
      exact brings_fireTasks ⟨next, ready⟩ mem
  | dispatch f =>
    simp only [Task.run] at mem
    split at mem
    · rename_i live
      rw [List.mem_singleton.mp mem]
      exact .fireOf next live
    · exact nomatch mem
  | drain c =>
    simp only [Task.run] at mem
    split at mem
    · rename_i a found
      split at mem
      · rename_i free
        have both : a.valid = true ∧ a.draining = false := by simpa using free
        have valid : x.world.isValid c = true := by simpa [World.isValid, found] using both.1
        simp only [List.mem_cons, List.not_mem_nil, or_false] at mem
        rcases mem with rfl | rfl
        · exact .firstJob next valid
        · exact .endDrain next valid
      · exact nomatch mem
    · exact nomatch mem
  | endDrain c =>
    rw [List.mem_singleton.mp mem]
    exact .flush
  | flush c => exact brings_batch (.flushed next) mem
  | frames c timestamp =>
    simp only [Task.run] at mem
    split at mem
    · rename_i a found
      split at mem
      · rename_i valid
        obtain ⟨id, _, rfl⟩ := List.mem_map.mp mem
        exact .frame next (by simpa [World.isValid, found] using valid)
      · exact nomatch mem
    · exact nomatch mem
  | frame c id timestamp =>
    simp only [Task.run] at mem
    split at mem
    · rename_i e active
      obtain ⟨a, _, entry⟩ := Option.bind_eq_some_iff.mp active
      have named : e.key = id := by simpa using List.find?_some entry
      subst named
      simp only [List.mem_cons, List.not_mem_nil, or_false] at mem
      rcases mem with rfl | rfl
      · exact .frameCall ⟨next, active⟩
      · exact .drain
    · exact nomatch mem
  | classObjects c t =>
    simp only [Task.run] at mem
    split at mem
    · exact nomatch mem
    · split at mem
      · rename_i parent child
        simp only [List.mem_cons, List.not_mem_nil, or_false] at mem
        rcases mem with rfl | rfl
        · exact .parentObjects next child
        · exact .defineClass next
      · rw [List.mem_singleton.mp mem]
        exact .defineClass next
  | defineClass c t =>
    simp only [Task.run] at mem
    split at mem
    · exact nomatch mem
    · split at mem
      · exact nomatch mem
      · rename_i miss
        rw [List.mem_singleton.mp mem]
        exact .createClass next (congrArg Prod.fst miss)
  | traceRoots r =>
    cases r with
    | external n =>
      rw [List.mem_singleton.mp mem]
      exact .rootSet
    | bridge | context | handles => exact nomatch mem
  | letGo =>
    simp only [Task.run] at mem
    split at mem
    · rcases List.mem_append.mp mem with dropped | later
      · exact brings_dropped dropped
      · rw [List.mem_singleton.mp later]
        exact .lettingGo
    · exact nomatch mem
  | traceComplete r =>
    cases r with
    | external n =>
      rw [List.mem_singleton.mp mem]
      exact .rootSetDone
    | bridge | context | handles => exact nomatch mem
  | setLevel | retire | markAndSweep | conclude => exact nomatch mem

/-- A step puts things on top of the stack, in place of the top or not: tasks that it can bring, or
the code of the call that it makes. -/
theorem Rewrites.brings (rewrites : Rewrites x y) :
    ∃ pushed kept, y.stack = pushed ++ kept ∧
      (kept = x.stack ∧ (∀ t, ¬ x.AtTask t) ∨ ∃ i, x.stack = i :: kept) ∧
      ∀ i ∈ pushed, (∃ t, i = .task t ∧ x.Brings t) ∨ ∃ k, i = .code k ∧ x.AtTask (.call k) := by
  have tasks : ∀ {first : List (Task Obj)}, (∀ t ∈ first, x.Brings t) →
      ∀ i ∈ first.map Item.task,
        (∃ t, i = .task t ∧ x.Brings t) ∨ ∃ k, i = .code k ∧ x.AtTask (.call k) := by
    intro first brings i mem
    obtain ⟨t, here, rfl⟩ := List.mem_map.mp mem
    exact Or.inl ⟨t, rfl, brings t here⟩
  cases rewrites with
  | idle no_task stack => exact ⟨[], _, stack, Or.inl ⟨rfl, no_task⟩, fun i mem => nomatch mem⟩
  | performed performs stack =>
    exact ⟨[], _, stack, Or.inl ⟨rfl, performs.not_atTask⟩, fun i mem => nomatch mem⟩
  | began requests stack =>
    exact ⟨_, _, stack, Or.inl ⟨rfl, requests.atCode.not_atTask⟩,
      tasks fun t mem => brings_start requests mem⟩
  | returned top stack _ _ returns =>
    exact ⟨_, _, stack, Or.inr ⟨_, top⟩, tasks fun t mem => brings_resume returns mem⟩
  | halted top stack => exact ⟨[], [], stack, Or.inr ⟨_, top⟩, fun i mem => nomatch mem⟩
  | @called k rest top stack =>
    refine ⟨[.code k], rest, stack, Or.inr ⟨_, top⟩, ?_⟩
    intro i mem
    exact Or.inr ⟨k, List.mem_singleton.mp mem, rest, top⟩
  | worked top no_call stack =>
    exact ⟨_, _, stack, Or.inr ⟨_, top⟩, tasks fun t mem => brings_task ⟨_, top⟩ no_call mem⟩

theorem Rewrites.mem_cases (rewrites : Rewrites x y) {i : Item Obj} (mem : i ∈ y.stack) :
    i ∈ x.stack ∨ (∃ t, i = .task t ∧ x.Brings t) ∨ ∃ k, i = .code k ∧ x.AtTask (.call k) := by
  obtain ⟨pushed, kept, stack, split, brought⟩ := rewrites.brings
  rw [stack] at mem
  rcases List.mem_append.mp mem with new | old
  · exact Or.inr (brought i new)
  · left
    rcases split with ⟨rfl, _⟩ | ⟨_, top⟩
    · exact old
    · rw [top]
      exact List.mem_cons_of_mem _ old

/-- Where nothing that counts is put on the stack, what counts is left of what was there. -/
theorem Rewrites.countP_kept {p : Item Obj → Bool} (rewrites : Rewrites x y)
    (none_brought : ∀ t, x.Brings t → p (.task t) = false)
    (none_called : ∀ k, x.AtTask (.call k) → p (.code k) = false) :
    ∃ kept, y.stack.countP p = kept.countP p ∧ (kept = x.stack ∨ ∃ i, x.stack = i :: kept) := by
  obtain ⟨pushed, kept, stack, split, brought⟩ := rewrites.brings
  have none_pushed : pushed.countP p = 0 := by
    apply List.countP_eq_zero.mpr
    intro i mem holds
    rcases brought i mem with ⟨t, rfl, brings⟩ | ⟨k, rfl, next⟩
    · cases (none_brought t brings).symm.trans holds
    · cases (none_called k next).symm.trans holds
  refine ⟨kept, ?_, split.imp_left And.left⟩
  rw [stack, List.countP_append, none_pushed, Nat.zero_add]

theorem Rewrites.countP_le {p : Item Obj → Bool} (rewrites : Rewrites x y)
    (none_brought : ∀ t, x.Brings t → p (.task t) = false)
    (none_called : ∀ k, x.AtTask (.call k) → p (.code k) = false) :
    y.stack.countP p ≤ x.stack.countP p := by
  obtain ⟨kept, count, rfl | ⟨i, top⟩⟩ := rewrites.countP_kept none_brought none_called
  · exact Nat.le_of_eq count
  · rw [count, top, List.countP_cons]
    exact Nat.le_add_right _ _

/-- A task on the stack was there before, or it has been brought since. -/
theorem brings_of_mem {m n : Nat} {t : Task Obj} (le : m ≤ n) (mem : .task t ∈ (x.run n).stack) :
    .task t ∈ (x.run m).stack ∨ ∃ l, m ≤ l ∧ l < n ∧ (x.run l).Brings t := by
  induction le with
  | refl => exact Or.inl mem
  | @step n le ih =>
    rcases (x.run_rewrites n).mem_cases mem with old | ⟨_, same, brings⟩ | ⟨_, same, _⟩
    · rcases ih old with before | ⟨l, after, lt, brings⟩
      · exact Or.inl before
      · exact Or.inr ⟨l, after, Nat.lt_succ_of_lt lt, brings⟩
    · obtain rfl := Item.task.inj same
      exact Or.inr ⟨n, le, Nat.lt_succ_self n, brings⟩
    · exact nomatch same

end Execution

end HostBridge
