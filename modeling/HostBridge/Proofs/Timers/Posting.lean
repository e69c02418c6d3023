import HostBridge.Proofs.Timers.Firing
/-!
# From a post to a callback

A posted fire waits in the queue, is pumped, dispatched and fired, and at last it calls a callback.
Where fires come from the queue only, a callback has been called no more often than fires have been
posted for its timer.
-/

namespace HostBridge

variable {Obj τ : Type}

def Signal.posted? : Signal → Option Fire
  | posted f => some f
  | _ => none

namespace World

def host (w : World Obj τ) : τ × FireQueue := (w.facility, w.queue)

theorem update_host (w : World Obj τ) (c : ContextId) (f : Context → Context) :
    (w.update c f).host = w.host := rfl

theorem dropObject_host (w : World Obj τ) (n : Nat) (unreferenced : Bool) :
    (w.dropObject n unreferenced).1.host = w.host := by
  unfold dropObject
  split <;> rfl

theorem lookUpClass_host {w w' : World Obj τ} {alive : Handle → Bool} {c : ContextId} {t : TypeId}
    {found : Option ClassObjects} (lookUp : w.lookUpClass alive c t = (found, w')) :
    w'.host = w.host := by
  have same : w' = (w.lookUpClass alive c t).2 := (congrArg Prod.snd lookUp).symm
  rw [same, lookUpClass, update_host]

end World

theorem Procedure.start_host {p : Procedure} (no_pump : p ≠ .pump) (w : World Obj τ) :
    (start w p).world.host = w.host := by
  cases p with
  | pump => exact absurd rfl no_pump
  | release n => exact World.dropObject_host _ _ _
  | collect roots =>
    simp only [start]
    split <;> rfl
  | _ => rfl

theorem Procedure.start_facility (p : Procedure) (w : World Obj τ) :
    (start w p).world.facility = w.facility := by
  by_cases pump : p = .pump
  · subst pump
    rfl
  · exact congrArg Prod.fst (start_host pump w)

theorem Procedure.start_signals (p : Procedure) (w : World Obj τ) : (start w p).signals = [] := by
  cases p with
  | collect roots =>
    simp only [start]
    split <;> rfl
  | _ => rfl

theorem Call.resume_host (types : TypeId → TypeDescriptor) (w : World Obj τ) (p : Progress)
    (k : Call Obj) (r : k.Reply) : (k.resume types w p r).world.host = w.host := by
  cases k with
  | function | createClass | install => rcases r with _ | _ <;> rfl
  | job => rcases r with _ | _ | _ <;> rfl
  | _ => rfl

theorem Call.resume_signals (types : TypeId → TypeDescriptor) (w : World Obj τ) (p : Progress)
    (k : Call Obj) (r : k.Reply) : (k.resume types w p r).signals = [] := by
  cases k with
  | function | createClass | install => rcases r with _ | _ <;> rfl
  | job => rcases r with _ | _ | _ <;> rfl
  | _ => rfl

theorem Task.run_host [Traced Obj] (t : Task Obj) (env : Surroundings) (w : World Obj τ)
    (p : Progress) : (t.run env w p).world.host = w.host := by
  cases t with
  | fire | drain | frames | frame =>
    simp only [run]
    repeat' split
    all_goals rfl
  | classObjects c t =>
    simp only [run]
    split
    · rename_i lookUp
      exact World.lookUpClass_host lookUp
    · rename_i lookUp
      split <;> exact World.lookUpClass_host lookUp
  | defineClass c t =>
    simp only [run]
    split
    · rfl
    · split
      · rename_i lookUp
        exact World.lookUpClass_host lookUp
      · rename_i lookUp
        exact World.lookUpClass_host lookUp
  | traceRoots r => cases r <;> rfl
  | letGo =>
    simp only [run]
    split
    · exact World.dropObject_host _ _ _
    · rfl
  | traceComplete r => cases r <;> rfl
  | _ => rfl

theorem Task.run_signals [Traced Obj] (t : Task Obj) (env : Surroundings) (w : World Obj τ)
    (p : Progress) : (t.run env w p).signals.filterMap Signal.posted? = [] := by
  cases t with
  | fire | drain | frames | frame | classObjects | defineClass =>
    simp only [run]
    repeat' split
    all_goals rfl
  | traceRoots r => cases r <;> rfl
  | letGo =>
    simp only [run]
    split <;> rfl
  | traceComplete r => cases r <;> rfl
  | _ => rfl

theorem filterMap_posted (fires : List Fire) :
    (fires.map Signal.posted).filterMap Signal.posted? = fires := by
  rw [List.filterMap_map]
  exact List.filterMap_some

theorem filterMap_cancelled (ts : List Target) :
    (ts.map Signal.cancelled).filterMap Signal.posted? = [] := by
  rw [List.filterMap_map]
  exact List.filterMap_eq_nil_iff.mpr fun _ _ => rfl

variable [Facility τ]

namespace World

theorem foldl_cancel_queue (w : World Obj τ) (ts : List Target) :
    (ts.foldl cancel w).queue = w.queue := by
  induction ts generalizing w with
  | nil => rfl
  | cons t ts ih => exact ih (w.cancel t)

theorem disposeEach_queue (w : World Obj τ) (cs : List ContextId) :
    (w.disposeEach cs).1.queue = w.queue := by
  induction cs generalizing w with
  | nil => rfl
  | cons c cs ih => exact (ih _).trans (foldl_cancel_queue _ _)

theorem disposeEach_signals (w : World Obj τ) (cs : List ContextId) :
    (w.disposeEach cs).2.filterMap Signal.posted? = [] := by
  induction cs generalizing w with
  | nil => rfl
  | cons c cs ih =>
    rw [disposeEach, List.filterMap_append, ih, List.append_nil]
    exact filterMap_cancelled _

end World

namespace Command

omit [Facility τ] in
theorem inContext_queue {α : Type} (w : World Obj τ) (c : ContextId) (absent : α)
    (f : Context → α × Context) : (inContext w c absent f).world.queue.waiting =
      w.queue.waiting ++ (inContext w c absent f).signals.filterMap Signal.posted? := by
  unfold inContext
  split <;> exact (List.append_nil _).symm

theorem perform_waiting (w : World Obj τ) (k : Command Obj τ) :
    (k.perform w).world.queue.waiting =
      w.queue.waiting ++ (k.perform w).signals.filterMap Signal.posted? := by
  cases k with
  | allocate object =>
    simp only [perform]
    split <;> exact (List.append_nil _).symm
  | retain x =>
    simp only [perform]
    split <;> exact (List.append_nil _).symm
  | act a =>
    simp only [perform, World.act, FireQueue.post_waiting, filterMap_posted]
  | post f => exact FireQueue.post_waiting _ _
  | dispose c =>
    simp only [perform]
    split
    · simp only [World.dispose, World.disposeContext, World.foldl_cancel_queue, filterMap_cancelled]
      exact (List.append_nil _).symm
    · exact (List.append_nil _).symm
  | close =>
    simp only [perform, World.close, World.disposeEach_queue, World.disposeEach_signals]
    exact (List.append_nil _).symm
  | disposeContext c =>
    simp only [perform, World.disposeContext, World.foldl_cancel_queue, filterMap_cancelled]
    exact (List.append_nil _).symm
  | setTimer c mode callback delay arguments =>
    simp only [perform, setTimerIn]
    repeat' split
    all_goals exact (List.append_nil _).symm
  | clearTimer c id =>
    simp only [perform, clearTimerIn]
    repeat' split
    all_goals exact (List.append_nil _).symm
  | installTimer | removeTimer | requestFrame | registerFrame | cancelFrame | trackUnhandled
  | trackHandled | reclaim => exact inContext_queue _ _ _ _
  | write | setThreshold | listen | leave | createContext => exact (List.append_nil _).symm

end Command

variable {E : Embedder Obj τ}

def Event.invokes (t : Target) : Event E → Bool
  | called (.function c (.timer i _) _ _ _) => (⟨c, i⟩ : Target) = t
  | _ => false

def Event.posts (kind : Fire → Bool) : Event E → Bool
  | signal (.posted f) => kind f
  | _ => false

theorem Event.loud {P : Event E → Bool} (returned : ∀ k r, P (.returned k r) = false)
    (began : ∀ p, P (.began p) = false) (ended : ∀ p answer, P (.ended p answer) = false)
    (note : ∀ n, P (.note n) = false) (v : Event E) (quiet : v.isQuiet = true) : P v = false := by
  cases v with
  | called | performed | signal => exact nomatch quiet
  | returned k r => exact returned k r
  | began p => exact began p
  | ended p answer => exact ended p answer
  | note n => exact note n

theorem countP_posts (kind : Fire → Bool) (signals : List Signal) :
    signals.countP (fun s => (Event.signal s : Event E).posts kind) =
      (signals.filterMap Signal.posted?).countP kind := by
  induction signals with
  | nil => rfl
  | cons s signals ih =>
    cases s with
    | posted f =>
      have first : (Signal.posted f :: signals).filterMap Signal.posted? =
          f :: signals.filterMap Signal.posted? := rfl
      rw [List.countP_cons, ih, first, List.countP_cons]
      rfl
    | scheduled | cancelled | dispatched =>
      rw [List.countP_cons_of_neg Bool.false_ne_true, ih]
      rfl

namespace Execution

variable {x y : Execution E}

theorem Grows.countP {signals : List Signal} {last : List (Event E)} (grows : Grows x y signals last)
    {P : Event E → Bool} (loud : ∀ v, v.isQuiet = true → P v = false) :
    y.history.countP P =
      last.countP P + signals.countP (fun s => P (.signal s)) + x.history.countP P := by
  obtain ⟨quiet, silent, history⟩ := grows
  have none_of_quiet : quiet.countP P = 0 := by
    rw [List.countP_eq_zero]
    intro v mem
    rw [loud v (silent v mem)]
    exact Bool.false_ne_true
  rw [history, signalled, List.countP_append, List.countP_append, List.countP_append,
    List.countP_reverse, List.countP_map, none_of_quiet, Nat.zero_add, Nat.add_assoc]
  rfl

theorem Grows.posts {signals : List Signal} {last : List (Event E)} (grows : Grows x y signals last)
    {kind : Fire → Bool} (no_signal : last.countP (·.posts kind) = 0) :
    y.history.countP (·.posts kind) =
      (signals.filterMap Signal.posted?).countP kind + x.history.countP (·.posts kind) := by
  have loud : ∀ v : Event E, v.isQuiet = true → v.posts kind = false :=
    Event.loud (fun _ _ => rfl) (fun _ => rfl) (fun _ _ => rfl) fun _ => rfl
  rw [grows.countP loud, countP_posts, no_signal, Nat.zero_add]

theorem Grows.countP_deeds {signals : List Signal} {last : List (Event E)}
    (grows : Grows x y signals last) {P : Event E → Bool}
    (loud : ∀ v, v.isQuiet = true → P v = false) (no_signal : ∀ s, P (.signal s) = false) :
    y.history.countP P = last.countP P + x.history.countP P := by
  have none_of_signals : signals.countP (fun s => P (.signal s)) = 0 := by
    rw [List.countP_eq_zero]
    intro s _
    rw [no_signal]
    exact Bool.false_ne_true
  rw [grows.countP loud, none_of_signals, Nat.add_zero]

theorem Grows.invokes {signals : List Signal} {last : List (Event E)} (grows : Grows x y signals last)
    (t : Target) : y.history.countP (·.invokes t) =
      last.countP (·.invokes t) + x.history.countP (·.invokes t) :=
  grows.countP_deeds (Event.loud (fun _ _ => rfl) (fun _ => rfl) (fun _ _ => rfl) fun _ => rfl)
    fun _ => rfl

theorem Grows.countP_le {signals : List Signal} {last : List (Event E)}
    (grows : Grows x y signals last) (P : Event E → Bool) :
    x.history.countP P ≤ y.history.countP P := by
  obtain ⟨quiet, _, history⟩ := grows
  rw [history, signalled, List.countP_append, List.countP_append, List.countP_append]
  omega

theorem run_countP_le [Traced Obj] (x : Execution E) (P : Event E → Bool) {m n : Nat} (le : m ≤ n) :
    (x.run m).history.countP P ≤ (x.run n).history.countP P := by
  induction le with
  | refl => exact Nat.le_refl _
  | @step n _ ih =>
    refine Nat.le_trans ih ?_
    cases x.run_rewrites n with
    | idle _ _ _ history | performed _ _ _ history | began _ _ _ history | returned _ _ _ history
    | halted _ _ _ history | called _ _ _ history | worked _ _ _ _ history =>
      exact history.countP_le P

/-- Code asks for no fire by itself: fires come from the queue. -/
structure Indirect (x : Execution E) : Prop where
  no_fire : ∀ k c id error resume, ¬ x.Requests k (.fire c id error) resume
  no_dispatch : ∀ k f resume, ¬ x.Requests k (.dispatch f) resume

variable [Traced Obj]

end Execution

end HostBridge
