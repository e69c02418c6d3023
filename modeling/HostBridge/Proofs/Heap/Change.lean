import HostBridge.Proofs.Execution.Run
import HostBridge.Proofs.World
/-!
# How a step changes the heap

A step puts something into the heap, which the history tells, or it is upkeep: native references,
the threshold, and the parts of a collection. `step_heap` says that there is nothing else.
-/

namespace HostBridge

inductive Deposit (Obj : Type)
  | allocated (x : Handle) (object : Obj)
  | written (x : Handle) (object : Obj)

namespace Heap

variable {Obj : Type}

inductive Takes (h : Heap Obj) : Deposit Obj → Heap Obj → Prop
  | allocated {x : Handle} {object : Obj} {h' : Heap Obj}
      (made : h.allocate object = some (x, h')) : Takes h (.allocated x object) h'
  | written {x : Handle} {object : Obj} (alive : h.alive x = true) :
      Takes h (.written x object) (h.write x object)

theorem visitRoots_nil (h : Heap Obj) : h.visitRoots [] = h := by
  unfold visitRoots
  split
  · rename_i phase
    rw [List.reverse_nil, List.nil_append, ← phase]
  · rfl

theorem visitRoots_append (h : Heap Obj) (xs ys : List Handle) :
    (h.visitRoots xs).visitRoots ys = h.visitRoots (xs ++ ys) := by
  rcases phase : h.phase with _ | visited | ⟨marked, reclaimed⟩
  · simp [visitRoots, phase]
  · simp [visitRoots, phase]
  · simp [visitRoots, phase]

section Operations

variable {h h' : Heap Obj}

theorem allocate_eq {object : Obj} {x : Handle} (made : h.allocate object = some (x, h')) :
    h' = { h with
      slots := h'.slots
      free := h'.free
      objects := h.objects.push (some object)
      allocated := h.allocated + 1 } := by
  unfold allocate at made
  split at made
  · cases made
  · split at made <;> cases made <;> rfl

theorem write_eq (h : Heap Obj) (x : Handle) (object : Obj) :
    h.write x object = { h with objects := (h.write x object).objects } := by
  unfold write
  split <;> rfl

theorem retain_eq {x : Handle} {n : Nat} (took : h.retain x = some (n, h')) :
    h.number? x = some n ∧ h' = { h with held := n :: h.held } := by
  obtain ⟨k, number, same⟩ := Option.map_eq_some_iff.mp took
  obtain ⟨rfl, rfl⟩ := Prod.mk.inj same
  exact ⟨number, rfl⟩

theorem letGo_eq {n : Nat} (first : h.letGo = some (n, h')) :
    h.doomed = n :: h'.doomed ∧ h' = { h with doomed := h'.doomed } := by
  unfold letGo at first
  split at first
  · rename_i k rest doomed
    obtain ⟨rfl, rfl⟩ := Prod.mk.inj (Option.some.inj first)
    exact ⟨doomed, rfl⟩
  · exact absurd first (by simp)

theorem visitRoots_eq (h : Heap Obj) (xs : List Handle) :
    h.visitRoots xs = { h with phase := (h.visitRoots xs).phase } := by
  unfold visitRoots
  split <;> rfl

theorem conclude_eq (h : Heap Obj) :
    h.conclude = { h with
      phase := h.conclude.phase
      allocated := h.conclude.allocated
      stats := h.conclude.stats } := by
  unfold conclude
  split <;> rfl

theorem markAndSweep_eq [Traced Obj] (h : Heap Obj) :
    h.markAndSweep = { h with
      slots := h.markAndSweep.slots
      free := h.markAndSweep.free
      doomed := h.markAndSweep.doomed
      phase := h.markAndSweep.phase } := by
  unfold markAndSweep
  split <;> rfl

end Operations

variable [Traced Obj]

inductive Upkeep (h : Heap Obj) : Heap Obj → Prop
  | same : Upkeep h h
  | retain {x : Handle} {n : Nat} {h' : Heap Obj} (took : h.retain x = some (n, h')) : Upkeep h h'
  | threshold (n : Nat) : Upkeep h (h.setThreshold n)
  | release (n : Nat) : Upkeep h (h.release n)
  | releaseLast {n : Nat} (last : (h.release n).unreferenced n = true) :
      Upkeep h ((h.release n).drop n)
  | begin (idle : h.phase = .idle) : Upkeep h h.beginTracing
  | visit (xs : List Handle) : Upkeep h (h.visitRoots xs)
  | sweep : Upkeep h h.markAndSweep
  | letGo {n : Nat} {h' : Heap Obj} (first : h.letGo = some (n, h')) : Upkeep h h'
  | letGoLast {n : Nat} {h' : Heap Obj} (first : h.letGo = some (n, h'))
      (last : h'.isHeld n = false) : Upkeep h (h'.drop n)
  | conclude : Upkeep h h.conclude

end Heap

variable {Obj τ : Type} [Facility τ]

def Event.deposit? {E : Embedder Obj τ} : Event E → Option (Deposit Obj)
  | .performed (.allocate object) answer => Option.map (Deposit.allocated · object) answer
  | .performed (.write x object) answer => cond answer (some (.written x object)) none
  | _ => none

/-- What code has put into the heap, the newest first. -/
def Execution.deposits {E : Embedder Obj τ} (x : Execution E) : List (Deposit Obj) :=
  x.history.filterMap Event.deposit?

namespace World

omit [Facility τ] in
theorem dropObject_heap (w : World Obj τ) (n : Nat) (unreferenced : Bool) :
    (w.dropObject n unreferenced).1.heap = w.heap ∨
      unreferenced = true ∧ (w.dropObject n unreferenced).1.heap = w.heap.drop n := by
  unfold dropObject
  split
  · exact Or.inr ⟨rfl, rfl⟩
  · exact Or.inl rfl

omit [Facility τ] in
theorem dropObject_eq (w : World Obj τ) (n : Nat) (unreferenced : Bool) :
    (w.dropObject n unreferenced).1.heap =
      { w.heap with objects := (w.dropObject n unreferenced).1.heap.objects } := by
  unfold dropObject
  split <;> rfl

end World

namespace Command

def OfHeap : Command Obj τ → Prop
  | allocate _ => True
  | write .. => True
  | retain _ => True
  | setThreshold _ => True
  | _ => False

omit [Facility τ] in
theorem inContext_heap {α : Type} (w : World Obj τ) (c : ContextId) (absent : α)
    (f : Context → α × Context) : (inContext w c absent f).world.heap = w.heap := by
  unfold inContext
  split <;> rfl

theorem perform_heap {c : Command Obj τ} (other : ¬ c.OfHeap) (w : World Obj τ) :
    (c.perform w).world.heap = w.heap := by
  cases c with
  | allocate | write | retain | setThreshold => exact absurd trivial other
  | dispose c =>
    simp only [perform]
    split
    · exact World.dispose_heap w c
    · rfl
  | close => exact World.close_heap w
  | setTimer c mode callback delay arguments =>
    simp only [perform, setTimerIn]
    split
    · split <;> rfl
    · rfl
  | clearTimer c id =>
    simp only [perform, clearTimerIn]
    split
    · split <;> rfl
    · rfl
  | disposeContext c => exact World.disposeContext_heap w c
  | installTimer | removeTimer | requestFrame | registerFrame | cancelFrame | trackUnhandled
  | trackHandled | reclaim => exact inContext_heap w _ _ _
  | _ => rfl

/-- A command leaves a part of the heap as it is if the operation that it stands for does. -/
theorem perform_frame {α : Type} (part : Heap Obj → α) (w : World Obj τ) (c : Command Obj τ)
    (allocate : ∀ object x h', c = .allocate object → w.heap.allocate object = some (x, h') →
      part h' = part w.heap)
    (write : ∀ x object, c = .write x object → part (w.heap.write x object) = part w.heap)
    (retain : ∀ x n h', c = .retain x → w.heap.retain x = some (n, h') → part h' = part w.heap)
    (threshold : ∀ n, c = .setThreshold n → part (w.heap.setThreshold n) = part w.heap) :
    part (c.perform w).world.heap = part w.heap := by
  by_cases other : ¬ c.OfHeap
  · rw [perform_heap other]
  · cases c with
    | allocate object =>
      simp only [perform]
      split
      · rename_i made
        exact allocate object _ _ rfl made
      · rfl
    | write x object => exact write x object rfl
    | retain x =>
      simp only [perform]
      split
      · rename_i took
        exact retain x _ _ rfl took
      · rfl
    | setThreshold n => exact threshold n rfl
    | _ => exact absurd id other

end Command

def Task.OfHeap : Task Obj → Prop
  | traceRoots _ => True
  | markAndSweep => True
  | letGo => True
  | conclude => True
  | _ => False

instance (t : Task Obj) : Decidable t.OfHeap :=
  match t with
  | .traceRoots _ | .markAndSweep | .letGo | .conclude => isTrue trivial
  | .call _ | .fire .. | .dispatch _ | .setLevel .. | .retire .. | .drain _ | .endDrain _
  | .flush _ | .frames .. | .frame .. | .classObjects .. | .defineClass .. | .traceComplete _ =>
    isFalse id

def Task.OfCollection : Task Obj → Prop
  | traceRoots _ => True
  | markAndSweep => True
  | letGo => True
  | conclude => True
  | traceComplete _ => True
  | _ => False

instance (t : Task Obj) : Decidable t.OfCollection :=
  match t with
  | .traceRoots _ | .markAndSweep | .letGo | .conclude | .traceComplete _ => isTrue trivial
  | .call _ | .fire .. | .dispatch _ | .setLevel .. | .retire .. | .drain _ | .endDrain _
  | .flush _ | .frames .. | .frame .. | .classObjects .. | .defineClass .. => isFalse id

def Call.OfCollection : Call Obj → Prop
  | traceRoots _ => True
  | traceComplete _ => True
  | drop .. => True
  | _ => False

def Task.Plain : Task Obj → Prop
  | call k => ¬ k.OfCollection
  | t => ¬ t.OfCollection

omit [Facility τ] in
theorem Task.Plain.other {t : Task Obj} (plain : t.Plain) : ¬ t.OfCollection := by
  cases t with
  | call => exact id
  | _ => exact plain

omit [Facility τ] in
theorem Task.OfHeap.ofCollection {t : Task Obj} (ofHeap : t.OfHeap) : t.OfCollection := by
  cases t with
  | traceRoots | markAndSweep | letGo | conclude => trivial
  | _ => exact ofHeap.elim

def Procedure.OfHeap : Procedure → Prop
  | release _ => True
  | collect _ => True
  | _ => False

def Call.reported : (k : Call Obj) → k.Reply → List Handle
  | traceRoots _, xs => xs
  | _, _ => []

omit [Facility τ] in
theorem Call.resume_heap (types : TypeId → TypeDescriptor) (w : World Obj τ) (p : Progress)
    (k : Call Obj) (r : k.Reply) :
    (k.resume types w p r).world.heap = w.heap.visitRoots (k.reported r) := by
  cases k with
  | traceRoots => rfl
  | function | createClass | install => rcases r with _ | _ <;> exact (Heap.visitRoots_nil _).symm
  | job => rcases r with _ | _ | _ <;> exact (Heap.visitRoots_nil _).symm
  | _ => exact (Heap.visitRoots_nil _).symm

omit [Facility τ] in
theorem Procedure.start_heap {p : Procedure} (other : ¬ p.OfHeap) (w : World Obj τ) :
    (p.start w).world.heap = w.heap := by
  cases p with
  | release | collect => exact absurd trivial other
  | _ => rfl

omit [Facility τ] in
theorem Call.resume_plain (types : TypeId → TypeDescriptor) (w : World Obj τ) (p : Progress)
    (k : Call Obj) (r : k.Reply) : ∀ t ∈ (k.resume types w p r).first, t.Plain := by
  cases k with
  | function => rcases r with _ | _ <;> simp [resume, Task.Plain, OfCollection]
  | job => rcases r with _ | _ | _ <;> simp [resume, Task.Plain, OfCollection]
  | createClass =>
    rcases r with _ | _
    · simp [resume]
    · simp only [resume]
      split <;> simp [Task.Plain, OfCollection]
  | install => rcases r with _ | _ <;> simp [resume]
  | _ => simp [resume, Task.Plain, OfCollection]

omit [Facility τ] in
theorem Call.resume_first (types : TypeId → TypeDescriptor) (w : World Obj τ) (p : Progress)
    (k : Call Obj) (r : k.Reply) : ∀ t ∈ (k.resume types w p r).first, ¬ t.OfCollection :=
  fun t mem => (k.resume_plain types w p r t mem).other

omit [Facility τ] in
theorem Procedure.start_plain {p : Procedure} (other : ¬ p.OfHeap) (w : World Obj τ) :
    ∀ t ∈ (p.start w).first, t.Plain := by
  cases p with
  | release | collect => exact absurd trivial other
  | process =>
    simp [start, Rejections.Batch.tasks, Task.Plain, Call.OfCollection, or_imp, forall_and]
  | pump | framesAll => simp [start, Task.Plain, Task.OfCollection]
  | _ => simp [start, Task.Plain, Task.OfCollection, Call.OfCollection]

omit [Facility τ] in
theorem Procedure.start_first {p : Procedure} (other : ¬ p.OfHeap) (w : World Obj τ) :
    ∀ t ∈ (p.start w).first, ¬ t.OfCollection :=
  fun t mem => (start_plain other w t mem).other

variable [Traced Obj]

omit [Facility τ] in
theorem Task.run_heap {t : Task Obj} (other : ¬ t.OfHeap) (env : Surroundings) (w : World Obj τ)
    (p : Progress) : (t.run env w p).world.heap = w.heap := by
  cases t with
  | traceRoots | markAndSweep | letGo | conclude => exact absurd trivial other
  | fire =>
    simp only [run]
    split
    · split <;> rfl
    · rfl
  | drain =>
    simp only [run]
    split
    · split <;> rfl
    · rfl
  | frames | frame =>
    simp only [run]
    split <;> rfl
  | classObjects =>
    simp only [run]
    split
    · rename_i found
      exact World.heap_of_lookUpClass found
    · rename_i found
      split <;> exact World.heap_of_lookUpClass found
  | defineClass =>
    simp only [run]
    split
    · rfl
    · split <;> rename_i found <;> exact World.heap_of_lookUpClass found
  | traceComplete r => cases r <;> rfl
  | _ => rfl

omit [Facility τ] in
theorem Task.run_plain {t : Task Obj} (other : ¬ t.OfCollection) (env : Surroundings)
    (w : World Obj τ) (p : Progress) (no_call : ∀ k, t ≠ .call k) :
    ∀ t' ∈ (t.run env w p).first, t'.Plain := by
  cases t with
  | traceRoots | markAndSweep | letGo | conclude | traceComplete => exact absurd trivial other
  | call k => exact absurd rfl (no_call k)
  | fire c id error =>
    simp only [run]
    split
    · split
      · rename_i e _ _
        cases error <;> cases shots : e.item.isOneShot <;>
          simp [fireTasks, shots, Plain, OfCollection, Call.OfCollection]
      · simp
    · simp
  | dispatch =>
    simp only [run]
    split <;> simp [Plain, OfCollection]
  | drain =>
    simp only [run]
    split
    · split <;> simp [Plain, OfCollection, Call.OfCollection]
    · simp
  | flush => simp [run, Rejections.Batch.tasks, Plain, Call.OfCollection, or_imp, forall_and]
  | frames =>
    simp only [run]
    split
    · split <;> simp [Plain, OfCollection]
    · simp
  | frame c id timestamp =>
    simp only [run]
    split
    · rename_i e _
      cases callback : e.item.callback <;>
        simp [frameCall, callback, Plain, OfCollection, Call.OfCollection]
    · simp
  | classObjects =>
    simp only [run]
    split
    · simp
    · split <;> simp [Plain, OfCollection]
  | defineClass =>
    simp only [run]
    split
    · simp
    · split <;> simp [Plain, Call.OfCollection]
  | _ => simp [run, Plain, OfCollection]

omit [Facility τ] in
theorem Task.run_first {t : Task Obj} (other : ¬ t.OfHeap) (env : Surroundings) (w : World Obj τ)
    (p : Progress) : ∀ t' ∈ (t.run env w p).first, ¬ t'.OfCollection := by
  by_cases ofCollection : t.OfCollection
  · cases t with
    | traceRoots | markAndSweep | letGo | conclude => exact absurd trivial other
    | traceComplete r => cases r <;> simp [run, OfCollection]
    | _ => exact ofCollection.elim
  · intro t' mem
    cases t with
    | call k =>
      obtain rfl := List.mem_singleton.mp mem
      exact ofCollection
    | _ => exact (run_plain ofCollection env w p (by simp) t' mem).other

namespace Heap

omit [Facility τ] in
theorem run_upkeep (t : Task Obj) (env : Surroundings) (w : World Obj τ) (p : Progress) :
    w.heap.Upkeep (t.run env w p).world.heap := by
  by_cases other : ¬ t.OfHeap
  · rw [Task.run_heap other]
    exact .same
  · cases t with
    | traceRoots r =>
      cases r with
      | external => exact .same
      | _ => exact .visit _
    | markAndSweep => exact .sweep
    | conclude => exact .conclude
    | letGo =>
      simp only [Task.run]
      split
      · rename_i n heap first
        rcases World.dropObject_heap { w with heap } n (!heap.isHeld n) with kept | ⟨last, dropped⟩
        · rw [kept]
          exact .letGo first
        · rw [dropped]
          exact .letGoLast first (by simpa using last)
      · exact .same
    | _ => exact absurd (fun h => h) other

omit [Facility τ] in
theorem start_upkeep (p : Procedure) (w : World Obj τ) :
    w.heap.Upkeep (Procedure.start w p).world.heap := by
  cases p with
  | release n =>
    simp only [Procedure.start]
    rcases World.dropObject_heap { w with heap := w.heap.release n } n
      ((w.heap.release n).unreferenced n) with kept | ⟨last, dropped⟩
    · rw [kept]
      exact .release n
    · rw [dropped]
      exact .releaseLast last
  | collect roots =>
    simp only [Procedure.start]
    split
    · exact .same
    · rename_i idle
      exact .begin (by simpa [collecting] using idle)
  | _ => exact .same

end Heap

namespace Execution

variable {E : Embedder Obj τ}

omit [Traced Obj] in
theorem filterMap_noted (x : Execution E) (notes : List E.Note) :
    (x.noted notes).filterMap Event.deposit? = x.deposits := by
  have nothing : (notes.map Event.note).reverse.filterMap (Event.deposit? (E := E)) = [] := by
    simp [List.filterMap_eq_nil_iff, Event.deposit?]
  rw [noted, List.filterMap_append, nothing, List.nil_append, deposits]

omit [Traced Obj] in
theorem filterMap_signalled (history : List (Event E)) (signals : List Signal) :
    (signalled history signals).filterMap Event.deposit? = history.filterMap Event.deposit? := by
  have nothing : (signals.map Event.signal).reverse.filterMap (Event.deposit? (E := E)) = [] := by
    simp [List.filterMap_eq_nil_iff, Event.deposit?]
  rw [signalled, List.filterMap_append, nothing, List.nil_append]

/-- What a command does to the heap, and what the history tells of it. -/
theorem perform_heap_cases (w : World Obj τ) (c : Command Obj τ) :
    (w.heap.Upkeep (c.perform w).world.heap ∧
      (Event.performed (E := E) c (c.perform w).answer).deposit? = none) ∨
    ∃ d, w.heap.Takes d (c.perform w).world.heap ∧
      (Event.performed (E := E) c (c.perform w).answer).deposit? = some d := by
  by_cases other : ¬ c.OfHeap
  · refine Or.inl ⟨by rw [Command.perform_heap other]; exact .same, ?_⟩
    cases c with
    | allocate | write => exact absurd trivial other
    | _ => rfl
  · cases c with
    | allocate object =>
      cases made : w.heap.allocate object with
      | none =>
        refine Or.inl ⟨?_, ?_⟩ <;> simp only [Command.perform, made]
        · exact .same
        · rfl
      | some result =>
        refine Or.inr ⟨.allocated result.1 object, ?_, ?_⟩ <;> simp only [Command.perform, made]
        · exact .allocated made
        · rfl
    | write x object =>
      cases alive : w.heap.alive x with
      | false =>
        have nobody : w.heap.number? x = none := by simpa [Heap.alive] using alive
        refine Or.inl ⟨?_, ?_⟩
        · simp only [Command.perform, Heap.write, nobody]
          exact .same
        · simp only [Command.perform, Event.deposit?, alive, cond_false]
      | true =>
        refine Or.inr ⟨.written x object, .written alive, ?_⟩
        simp only [Command.perform, Event.deposit?, alive, cond_true]
    | retain x =>
      refine Or.inl ⟨?_, rfl⟩
      simp only [Command.perform]
      split
      · rename_i took
        exact .retain took
      · exact .same
    | setThreshold n => exact Or.inl ⟨.threshold n, rfl⟩
    | _ => exact absurd (fun h => h) other

theorem step_heap {x y : Execution E} (stepped : Stepped x y) :
    (x.world.heap.Upkeep y.world.heap ∧ y.deposits = x.deposits) ∨
      ∃ d, x.world.heap.Takes d y.world.heap ∧ y.deposits = d :: x.deposits := by
  cases stepped with
  | @command k a state notes c resume at_code turn =>
    simp only [deposits, List.filterMap_cons, filterMap_signalled, filterMap_noted]
    rcases perform_heap_cases (E := E) x.world c with ⟨upkeep, silent⟩ | ⟨d, takes, told⟩
    · rw [silent]
      exact Or.inl ⟨upkeep, rfl⟩
    · rw [told]
      exact Or.inr ⟨d, takes, rfl⟩
  | proceed => exact Or.inl ⟨.same, filterMap_noted x _⟩
  | @procedure k a state notes p =>
    refine Or.inl ⟨Heap.start_upkeep p x.world, ?_⟩
    rw [deposits, filterMap_signalled]
    exact filterMap_noted x notes
  | halt => exact Or.inl ⟨.same, filterMap_noted x _⟩
  | @finish k a state notes r s below =>
    refine Or.inl ⟨?_, ?_⟩
    · rw [Call.resume_heap]
      exact .visit _
    · rw [deposits, filterMap_signalled]
      exact filterMap_noted x notes
  | ended => exact Or.inl ⟨.same, rfl⟩
  | called => exact Or.inl ⟨.same, rfl⟩
  | worked => exact Or.inl ⟨Heap.run_upkeep _ _ _ _, filterMap_signalled _ _⟩

end Execution

end HostBridge
