import HostBridge.Proofs.Heap.Nesting
/-!
# The owners of an object

An object belongs to its slot, then to the sweep that has taken it from there until it is let go of,
and to native code once for each reference. A step that takes the last of these owners from it drops
it, and calls its hook next.
-/

namespace HostBridge

variable {Obj τ : Type}

namespace Heap

variable {h h' : Heap Obj} {n : Nat}

structure Backed (h : Heap Obj) : Prop where
  nodup_doomed : h.doomed.Nodup
  doomed : ∀ n ∈ h.doomed, ∃ object, h.object? n = some object
  held : ∀ n ∈ h.held, ∃ object, h.object? n = some object

theorem isHeld_iff : h.isHeld n = true ↔ n ∈ h.held := by
  rw [isHeld, List.contains_iff_mem]

theorem object?_of_objects (same : h'.objects = h.objects) (n : Nat) : h'.object? n = h.object? n := by
  rw [object?, same, object?]

theorem Backed.of_objects (backed : h.Backed) (objects : h'.objects = h.objects)
    (doomed : h'.doomed.Sublist h.doomed) (held : ∀ k ∈ h'.held, k ∈ h.held) : h'.Backed := by
  refine ⟨backed.nodup_doomed.sublist doomed, ?_, ?_⟩
  · intro k waits
    rw [object?_of_objects objects]
    exact backed.doomed k (doomed.subset waits)
  · intro k mem
    rw [object?_of_objects objects]
    exact backed.held k (held k mem)

theorem Backed.drop (backed : h.Backed) (settled : n ∉ h.doomed) (free : n ∉ h.held) :
    (h.drop n).Backed := by
  refine ⟨backed.nodup_doomed, ?_, ?_⟩
  · intro k waits
    rw [object?_drop, if_neg (by rintro rfl; exact settled waits)]
    exact backed.doomed k waits
  · intro k mem
    rw [object?_drop, if_neg (by rintro rfl; exact free mem)]
    exact backed.held k mem

theorem Backed.sweep [Traced Obj] (backed : h.Backed) (sound : h.Sound) (roots : List Handle) :
    (h.sweep (h.mark roots)).Backed := by
  have same := (mark_triColour h roots).same
  refine ⟨?_, ?_, backed.held⟩
  · rw [sweep_doomed same]
    exact (nodup_garbage _).filterMap fun i j k at_i at_j => sound.one_slot i j k at_i at_j
  · intro k waits
    rw [sweep_doomed same] at waits
    obtain ⟨i, _, occupant⟩ := List.mem_filterMap.mp waits
    exact sound.content k ⟨i, occupant⟩

theorem Backed.upkeep [Traced Obj] (backed : h.Backed) (sound : h.Sound) (upkeep : h.Upkeep h') :
    h'.Backed := by
  have others : ∀ k ∈ h.held, k ∈ h.held := fun _ => id
  cases upkeep with
  | same => exact backed
  | threshold | «begin» => exact backed.of_objects rfl (.refl _) others
  | retain took =>
    obtain ⟨number, same⟩ := retain_eq took
    rw [same]
    refine ⟨backed.nodup_doomed, backed.doomed, ?_⟩
    exact List.forall_mem_cons.mpr ⟨sound.content _ (live_of_number? number), backed.held⟩
  | release => exact backed.of_objects rfl (.refl _) fun k => List.mem_of_mem_erase
  | @releaseLast n last =>
    have released : (h.release n).Backed :=
      backed.of_objects rfl (.refl _) fun k => List.mem_of_mem_erase
    have lost := unreferenced_iff.mp last
    simp only [Kept, isHeld_iff, not_or] at lost
    exact released.drop lost.2.1 lost.2.2
  | visit =>
    rw [visitRoots_eq]
    exact backed.of_objects rfl (.refl _) others
  | sweep =>
    unfold markAndSweep
    split
    · exact backed.sweep sound _
    · exact backed
  | letGo first =>
    obtain ⟨doomed, same⟩ := letGo_eq first
    rw [same]
    exact backed.of_objects rfl (doomed ▸ List.sublist_cons_self _ _) others
  | @letGoLast n _ first last =>
    obtain ⟨doomed, same⟩ := letGo_eq first
    have nodup := backed.nodup_doomed
    rw [doomed, List.nodup_cons] at nodup
    rw [← Bool.not_eq_true, isHeld_iff] at last
    rw [same] at last ⊢
    refine Backed.drop ?_ nodup.1 last
    exact backed.of_objects rfl (doomed ▸ List.sublist_cons_self _ _) others
  | conclude =>
    rw [conclude_eq]
    exact backed.of_objects rfl (.refl _) others

theorem Takes.owners {d : Deposit Obj} (takes : h.Takes d h') :
    h'.doomed = h.doomed ∧ h'.held = h.held := by
  cases takes with
  | allocated made =>
    rw [allocate_eq made]
    exact ⟨rfl, rfl⟩
  | written =>
    rw [write_eq]
    exact ⟨rfl, rfl⟩

theorem Takes.keeps_object (sound : h.Sound) {d : Deposit Obj} (takes : h.Takes d h') {object : Obj}
    (found : h.object? n = some object) : ∃ object', h'.object? n = some object' := by
  cases takes with
  | allocated made =>
    obtain ⟨i, placed⟩ := sound.allocate made
    rw [placed.object?, if_neg (Nat.ne_of_lt (lt_of_object? found))]
    exact ⟨object, found⟩
  | written alive =>
    obtain ⟨k, number⟩ := alive_iff.mp alive
    rw [object?_write number (sound.lt_objects (live_of_number? number))]
    split
    · exact ⟨_, rfl⟩
    · exact ⟨object, found⟩

theorem Backed.takes (backed : h.Backed) (sound : h.Sound) {d : Deposit Obj}
    (takes : h.Takes d h') : h'.Backed := by
  obtain ⟨doomed, held⟩ := takes.owners
  refine ⟨doomed ▸ backed.nodup_doomed, ?_, ?_⟩
  · intro k waits
    obtain ⟨object, found⟩ := backed.doomed k (doomed ▸ waits)
    exact takes.keeps_object sound found
  · intro k mem
    obtain ⟨object, found⟩ := backed.held k (held ▸ mem)
    exact takes.keeps_object sound found

theorem Backed.object?_of_kept (backed : h.Backed) (sound : h.Sound) (kept : h.Kept n) :
    ∃ object, h.object? n = some object := by
  rcases kept with live | waits | held
  · exact sound.content n live
  · exact backed.doomed n waits
  · exact backed.held n (isHeld_iff.mp held)

def Dropped (h : Heap Obj) (n : Nat) : Prop := n < h.objects.size ∧ h.object? n = none

theorem Upkeep.object?_cases [Traced Obj] (upkeep : h.Upkeep h') (n : Nat) :
    h'.object? n = h.object? n ∨ h'.object? n = none := by
  rcases upkeep.objects_cases with same | ⟨k, dropped⟩
  · exact Or.inl (object?_of_objects same n)
  · rw [object?_of_objects dropped, object?_drop]
    split
    · exact Or.inr rfl
    · exact Or.inl rfl

theorem Dropped.upkeep [Traced Obj] (dropped : h.Dropped n) (upkeep : h.Upkeep h') :
    h'.Dropped n := by
  refine ⟨upkeep.size_objects.symm ▸ dropped.1, ?_⟩
  rcases upkeep.object?_cases n with same | gone
  · rw [same, dropped.2]
  · exact gone

theorem Takes.object?_of_not_live (sound : h.Sound) {d : Deposit Obj} (takes : h.Takes d h')
    (old : n < h.objects.size) (swept : ¬ h.Live n) :
    n < h'.objects.size ∧ h'.object? n = h.object? n := by
  cases takes with
  | allocated made =>
    obtain ⟨i, placed⟩ := sound.allocate made
    rw [placed.objects, Array.size_push, placed.object?, if_neg (Nat.ne_of_lt old)]
    exact ⟨Nat.lt_succ_of_lt old, rfl⟩
  | written alive =>
    obtain ⟨k, number⟩ := alive_iff.mp alive
    have live := live_of_number? number
    rw [object?_write number (sound.lt_objects live), if_neg (by rintro rfl; exact swept live)]
    refine ⟨?_, rfl⟩
    simp only [Heap.write, number, Array.size_setIfInBounds]
    exact old

theorem Dropped.takes (dropped : h.Dropped n) (sound : h.Sound) {d : Deposit Obj}
    (takes : h.Takes d h') : h'.Dropped n := by
  have swept : ¬ h.Live n := by
    intro live
    obtain ⟨object, found⟩ := sound.content n live
    cases dropped.2.symm.trans found
  obtain ⟨old, same⟩ := takes.object?_of_not_live sound dropped.1 swept
  exact ⟨old, same.trans dropped.2⟩

end Heap

theorem Command.perform_keeps_object [Facility τ] {w : World Obj τ} (sound : w.heap.Sound)
    (c : Command Obj τ) {n : Nat} {object : Obj} (found : w.heap.object? n = some object) :
    ∃ object', (c.perform w).world.heap.object? n = some object' := by
  by_cases other : ¬ c.OfHeap
  · exact ⟨object, by rwa [perform_heap other]⟩
  · cases c with
    | allocate new =>
      cases made : w.heap.allocate new with
      | none => exact ⟨object, by simpa only [perform, made] using found⟩
      | some result =>
        simp only [perform, made]
        exact (Heap.Takes.allocated made).keeps_object sound found
    | write y new =>
      by_cases alive : w.heap.alive y = true
      · exact (Heap.Takes.written alive).keeps_object sound found
      · have nobody : w.heap.number? y = none := by simpa [Heap.alive] using alive
        exact ⟨object, by simpa only [perform, Heap.write, nobody] using found⟩
    | retain y =>
      refine ⟨object, ?_⟩
      simp only [perform]
      split
      · rename_i took
        rw [(Heap.retain_eq took).2]
        exact found
      · exact found
    | setThreshold => exact ⟨object, found⟩
    | _ => exact absurd id other

def Item.IsDropHook : Item Obj → Prop
  | task (.call (.drop ..)) => True
  | _ => False

theorem not_dropHook_of_plain {ts : List (Task Obj)} (plain : ∀ t ∈ ts, t.Plain) :
    ∀ i ∈ ts.map Item.task, ¬ i.IsDropHook := by
  intro i mem
  obtain ⟨t, of_ts, rfl⟩ := List.mem_map.mp mem
  cases t with
  | call k =>
    cases k with
    | drop => exact fun _ => plain _ of_ts trivial
    | _ => exact id
  | _ => exact id

theorem Task.run_other [Traced Obj] {t : Task Obj} (no_call : ∀ k, t ≠ .call k) (other : t ≠ .letGo)
    (env : Surroundings) (w : World Obj τ) (p : Progress) :
    (t.run env w p).world.heap.objects = w.heap.objects ∧
      ∀ i ∈ (t.run env w p).first.map Item.task, ¬ i.IsDropHook := by
  by_cases part : t.OfCollection
  · cases t with
    | traceRoots r =>
      refine ⟨by rw [(run_traceRoots env w p r).2, Heap.objects_eq_of_visitRoots], ?_⟩
      cases r with
      | external =>
        intro i mem
        obtain rfl := List.mem_singleton.mp mem
        exact id
      | bridge | context | handles => exact fun i mem => by cases mem
    | markAndSweep =>
      refine ⟨?_, fun i mem => by cases mem⟩
      simp only [run]
      rw [Heap.markAndSweep_eq]
    | conclude => exact ⟨Heap.objects_eq_of_conclude w.heap, fun i mem => by cases mem⟩
    | traceComplete r =>
      refine ⟨by rw [run_heap id], ?_⟩
      cases r with
      | external =>
        intro i mem
        obtain rfl := List.mem_singleton.mp mem
        exact id
      | bridge | context | handles => exact fun i mem => by cases mem
    | letGo => exact absurd rfl other
    | _ => exact part.elim
  · rw [run_heap fun h => part h.ofCollection]
    exact ⟨rfl, not_dropHook_of_plain (run_plain part env w p no_call)⟩

namespace Execution

variable [Facility τ] {E : Embedder Obj τ}

inductive LosesLast (x : Execution E) (n : Nat) : Prop
  | letGo (next : x.AtTask .letGo) (first : x.world.heap.doomed.head? = some n)
      (free : x.world.heap.isHeld n = false)
  | release {k : Call Obj} {resume : Unit → E.Activity} (requests : x.Requests k (.release n) resume)
      (last : x.world.heap.held.count n = 1) (swept : ¬ x.world.heap.Live n)
      (settled : n ∉ x.world.heap.doomed)

/-- What a step does to the objects that are there: it drops none, or it drops one that has lost its
last owner, and calls its hook next. Hooks are called at no other time. -/
inductive Disposal (x y : Execution E) : Prop
  | keeps
      (kept : ∀ n object, x.world.heap.object? n = some object →
        ∃ object', y.world.heap.object? n = some object')
      (no_hook : ∀ i ∈ y.stack, i.IsDropHook → i ∈ x.stack.tail)
  | drops {n : Nat} {object : Obj} {rest : List (Item Obj)} (loses : x.LosesLast n)
      (content : x.world.heap.object? n = some object)
      (objects : y.world.heap.objects = (x.world.heap.drop n).objects)
      (stack : y.stack = .task (.call (.drop n object)) :: rest)
      (no_hook : ∀ i ∈ rest, i.IsDropHook → i ∈ x.stack.tail)

variable {x y : Execution E} {l m n s : Nat}

theorem Disposal.of_objects (objects : y.world.heap.objects = x.world.heap.objects)
    (no_hook : ∀ i ∈ y.stack, i.IsDropHook → i ∈ x.stack.tail) : Disposal x y := by
  refine .keeps (fun n object found => ⟨object, ?_⟩) no_hook
  rw [Heap.object?_of_objects objects, found]

theorem mem_tail_of_dropHook (no_task : ∀ t, ¬ x.AtTask t) {i : Item Obj} (mem : i ∈ x.stack)
    (hook : i.IsDropHook) : i ∈ x.stack.tail := by
  rcases here : x.stack with _ | ⟨j, rest⟩
  · rw [here] at mem
    cases mem
  · rw [here] at mem
    rcases List.mem_cons.mp mem with rfl | later
    · cases i with
      | task t => exact absurd ⟨rest, here⟩ (no_task t)
      | code => exact hook.elim
    · exact later

theorem Requests.disposal {k : Call Obj} {p : Procedure} {resume : p.Answer → E.Activity}
    (accounted : x.world.heap.Accounted) (requests : x.Requests k p resume)
    (stack : y.stack = (Procedure.start x.world p).first.map .task ++ x.stack)
    (world : y.world = (Procedure.start x.world p).world) : Disposal x y := by
  have old : ∀ i ∈ x.stack, i.IsDropHook → i ∈ x.stack.tail := fun i =>
    mem_tail_of_dropHook requests.atCode.not_atTask
  -- None of the new tasks calls a drop hook.
  have brings_none (objects : y.world.heap.objects = x.world.heap.objects)
      (others : ∀ i ∈ (Procedure.start x.world p).first.map Item.task, ¬ i.IsDropHook) :
      Disposal x y := by
    refine .of_objects objects fun i mem hook => ?_
    rw [stack] at mem
    rcases List.mem_append.mp mem with new | before
    · exact absurd hook (others i new)
    · exact old i before hook
  by_cases plain : ¬ p.OfHeap
  · refine brings_none ?_ (not_dropHook_of_plain (Procedure.start_plain plain x.world))
    rw [world, Procedure.start_heap plain]
  · cases p with
    | release n =>
      simp only [Procedure.start] at stack world brings_none
      rcases World.dropObject_cases { x.world with heap := x.world.heap.release n } n
          ((x.world.heap.release n).unreferenced n) with kept | ⟨object, last, content, dropped⟩
      · rw [kept] at world brings_none
        exact brings_none (by rw [world]; rfl) fun i mem => by cases mem
      · rw [dropped] at stack world
        have lost := Heap.unreferenced_iff.mp last
        simp only [Heap.Kept, Heap.isHeld_iff, not_or] at lost
        obtain ⟨swept, settled, free⟩ := lost
        refine .drops (.release requests ?_ swept settled) content (by rw [world]; rfl) stack old
        have held : n ∈ x.world.heap.held := by
          rcases accounted n object content with live | waits | held
          · exact absurd live swept
          · exact absurd waits settled
          · exact Heap.isHeld_iff.mp held
        have erased := List.count_eq_zero.mpr free
        rw [Heap.release, List.count_erase_self] at erased
        have counted := List.count_pos_iff.mpr held
        omega
    | collect roots =>
      apply brings_none
      · rw [world]
        simp only [Procedure.start]
        split <;> rfl
      · simp only [Procedure.start]
        split
        · exact fun i mem => by cases mem
        · simp [Procedure.collection, Item.IsDropHook, or_imp, forall_and]
    | _ => exact absurd id plain

variable [Traced Obj]

theorem AtTask.disposal_letGo {env : Surroundings} {p : Progress} {rest : List (Item Obj)}
    (top : x.stack = .task .letGo :: rest)
    (stack : y.stack = (Task.run env x.world p .letGo).first.map .task ++ rest)
    (world : y.world = (Task.run env x.world p .letGo).world) : Disposal x y := by
  have old : ∀ i ∈ .task .letGo :: rest, i.IsDropHook → i ∈ x.stack.tail := by
    intro i mem hook
    rw [top]
    rcases List.mem_cons.mp mem with rfl | later
    · exact hook.elim
    · exact later
  simp only [Task.run] at stack world
  cases first : x.world.heap.letGo with
  | none =>
    rw [first] at stack world
    refine .of_objects (by rw [world]) fun i mem => ?_
    rw [stack] at mem
    exact old i (List.mem_cons_of_mem _ mem)
  | some result =>
    obtain ⟨n, heap⟩ := result
    obtain ⟨doomed, same⟩ := Heap.letGo_eq first
    have objects : heap.objects = x.world.heap.objects := by rw [same]
    rw [first] at stack world
    dsimp only at stack world
    rcases World.dropObject_cases { x.world with heap } n (!heap.isHeld n) with
      kept | ⟨object, last, content, dropped⟩
    · rw [kept] at stack world
      refine .of_objects (by rw [world]; exact objects) fun i mem => ?_
      rw [stack] at mem
      exact old i mem
    · rw [dropped] at stack world
      rw [Bool.not_eq_true', same] at last
      refine .drops (.letGo ⟨rest, top⟩ (by rw [doomed]; rfl) last) ?_ ?_ stack old
      · rw [← Heap.object?_of_objects objects]
        exact content
      · rw [world]
        exact congrArg (·.setIfInBounds n none) objects

theorem Rewrites.disposal (sound : x.world.heap.Sound) (accounted : x.world.heap.Accounted)
    (rewrites : Rewrites x y) : Disposal x y := by
  cases rewrites with
  | idle no_task stack world =>
    exact .of_objects (by rw [world]) fun i mem => mem_tail_of_dropHook no_task (stack ▸ mem)
  | @performed c performs stack world =>
    refine .keeps (fun n object found => ?_) fun i mem =>
      mem_tail_of_dropHook performs.not_atTask (stack ▸ mem)
    rw [world]
    exact Command.perform_keeps_object sound c found
  | began requests stack world => exact requests.disposal accounted stack world
  | @returned k r p rest top stack world =>
    refine .of_objects ?_ fun i mem hook => ?_
    · rw [world, Call.resume_heap, Heap.objects_eq_of_visitRoots]
    · rw [stack] at mem
      rcases List.mem_append.mp mem with new | old
      · exact absurd hook (not_dropHook_of_plain (k.resume_plain E.types x.world p r) i new)
      · exact top ▸ old
  | halted _ stack world =>
    refine .of_objects (by rw [world]) fun i mem => ?_
    rw [stack] at mem
    cases mem
  | called top stack world =>
    refine .of_objects (by rw [world]) fun i mem hook => ?_
    rw [stack] at mem
    rcases List.mem_cons.mp mem with rfl | old
    · exact hook.elim
    · exact top ▸ old
  | @worked t p rest top no_call stack world =>
    by_cases lets_go : t = .letGo
    · subst lets_go
      exact AtTask.disposal_letGo top stack world
    · obtain ⟨objects, others⟩ := Task.run_other no_call lets_go
        ⟨E.types, E.alive x.state x.world.heap⟩ x.world p
      refine .of_objects (by rw [world, objects]) fun i mem hook => ?_
      rw [stack] at mem
      rcases List.mem_append.mp mem with new | old
      · exact absurd hook (others i new)
      · exact top ▸ old

end Execution

end HostBridge
