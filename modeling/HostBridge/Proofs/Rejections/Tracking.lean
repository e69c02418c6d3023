import HostBridge.Execution.Command
import HostBridge.Execution.Procedure
/-!
# Who changes the tracked rejections

Promises are tracked by two commands, and batches are taken by a flush and by a process. All else
leaves the tracked rejections of a context alone, but for its disposal, which forgets them.
-/

namespace HostBridge

variable {Obj τ : Type}

structure Rejections.Quiet (r r' : Rejections) : Prop where
  episodes : r'.episodes = r.episodes
  unhandled : r'.unhandled = r.unhandled ∨ r'.unhandled = []
  handled : r'.handled = r.handled ∨ r'.handled = []

namespace Rejections.Quiet

theorem refl (r : Rejections) : r.Quiet r := ⟨rfl, Or.inl rfl, Or.inl rfl⟩

theorem trans {r s t : Rejections} (first : r.Quiet s) (second : s.Quiet t) : r.Quiet t := by
  constructor
  · exact second.episodes.trans first.episodes
  · rcases second.unhandled with same | empty
    · rw [same]
      exact first.unhandled
    · exact Or.inr empty
  · rcases second.handled with same | empty
    · rw [same]
      exact first.handled
    · exact Or.inr empty

theorem clear (r : Rejections) : r.Quiet r.clear := ⟨rfl, Or.inr rfl, Or.inr rfl⟩

end Rejections.Quiet

theorem Context.dispose_quiet (x : Context) : x.rejections.Quiet x.dispose.rejections := by
  unfold dispose
  split
  · exact .clear x.rejections
  · exact .refl x.rejections

theorem Context.dispose_id (x : Context) : x.dispose.id = x.id := by
  unfold dispose
  split <;> rfl

namespace World

def rejections (w : World Obj τ) (c : ContextId) : Rejections :=
  (w.context? c).elim {} Context.rejections

def Quiet (w w' : World Obj τ) : Prop := ∀ c, (w.rejections c).Quiet (w'.rejections c)

theorem Quiet.of_eq {w w' : World Obj τ} (same : w'.contexts = w.contexts) : w.Quiet w' := by
  intro c
  rw [rejections, rejections, context?, context?, same]
  exact .refl _

theorem Quiet.trans {w₁ w₂ w₃ : World Obj τ} (first : w₁.Quiet w₂) (second : w₂.Quiet w₃) :
    w₁.Quiet w₃ :=
  fun c => (first c).trans (second c)

theorem context?_map (w : World Obj τ) {f : Context → Context} (ids : ∀ x, (f x).id = x.id)
    (c : ContextId) :
    (w.contexts.map f).find? (fun x => decide (x.id = c)) = (w.context? c).map f := by
  have same : ((fun x => decide (x.id = c)) ∘ f) = fun x => decide (x.id = c) := by
    funext x
    simp only [Function.comp_apply, ids]
  rw [List.find?_map, same, context?]

theorem id_of_context? {w : World Obj τ} {c : ContextId} {x : Context}
    (found : w.context? c = some x) : x.id = c := by
  have named := List.find?_some found
  simpa using named

theorem update_rejections (w : World Obj τ) {c' : ContextId} {f : Context → Context}
    (ids : ∀ x, x.id = c' → (f x).id = c') (c : ContextId) :
    (w.update c' f).rejections c =
      if c = c' then (w.context? c).elim {} fun x => (f x).rejections else w.rejections c := by
  have kept : ∀ x : Context, (if x.id = c' then f x else x).id = x.id := by
    intro x
    split
    · rename_i here
      rw [ids x here, here]
    · rfl
  have found : (w.update c' f).context? c =
      (w.context? c).map fun x => if x.id = c' then f x else x := context?_map w kept c
  rw [rejections, found]
  cases here : w.context? c with
  | none =>
    rw [rejections, here]
    exact (ite_self _).symm
  | some x =>
    rw [rejections, here]
    simp only [Option.map_some, Option.elim_some, id_of_context? here]
    split <;> rfl

theorem quiet_update (w : World Obj τ) {c' : ContextId} {f : Context → Context}
    (ids : ∀ x, x.id = c' → (f x).id = c')
    (quiet : ∀ x, w.context? c' = some x → x.rejections.Quiet (f x).rejections) :
    w.Quiet (w.update c' f) := by
  intro c
  rw [update_rejections w ids]
  split
  · rename_i here
    rw [here, rejections]
    cases found : w.context? c' with
    | none => exact .refl _
    | some x => exact quiet x found
  · exact .refl _

theorem quiet_update_other (w : World Obj τ) (c : ContextId) {f : Context → Context}
    (ids : ∀ x, (f x).id = x.id) (same : ∀ x, (f x).rejections = x.rejections) :
    w.Quiet (w.update c f) := by
  apply quiet_update
  · intro x here
    rw [ids, here]
  · intro x _
    rw [same]
    exact .refl _

theorem quiet_reclaim (w : World Obj τ) : w.Quiet w.reclaim := by
  intro c
  have kept : ∀ x : Context, (if w.isLive x.id then x.reclaim else x).id = x.id := by
    intro x
    split <;> rfl
  have found : w.reclaim.context? c =
      (w.context? c).map fun x => if w.isLive x.id then x.reclaim else x := context?_map w kept c
  rw [rejections, rejections, found]
  cases w.context? c with
  | none => exact .refl _
  | some x =>
    simp only [Option.map_some, Option.elim_some]
    split <;> exact .refl _

theorem quiet_createContext (w : World Obj τ) (config : Option Config) :
    w.Quiet (w.createContext config) := by
  intro c
  have found : (w.createContext config).context? c =
      (w.context? c).or ([Context.create w.nextContext (config.getD w.defaults)].find?
        (·.id = c)) := List.find?_append ..
  rw [rejections, rejections, found]
  cases w.context? c with
  | some x => exact .refl _
  | none =>
    rw [Option.none_or, List.find?_singleton]
    split
    · exact ⟨rfl, Or.inl rfl, Or.inl rfl⟩
    · exact .refl _

variable [Facility τ]

theorem contexts_of_foldl_cancel (w : World Obj τ) (ts : List Target) :
    (ts.foldl cancel w).contexts = w.contexts := by
  induction ts generalizing w with
  | nil => rfl
  | cons t ts ih => exact ih (w.cancel t)

theorem quiet_disposeContext (w : World Obj τ) (c : ContextId) :
    w.Quiet (w.disposeContext c).1 := by
  have disposed : w.Quiet (w.update c Context.dispose) := by
    apply quiet_update
    · intro x here
      rw [Context.dispose_id, here]
    · intro x _
      exact x.dispose_quiet
  exact disposed.trans (.of_eq (contexts_of_foldl_cancel _ _))

theorem quiet_dispose (w : World Obj τ) (c : ContextId) : w.Quiet (w.dispose c).1 :=
  (quiet_disposeContext w c).trans (.of_eq rfl)

theorem quiet_disposeEach (w : World Obj τ) (cs : List ContextId) :
    w.Quiet (w.disposeEach cs).1 := by
  induction cs generalizing w with
  | nil => exact .of_eq rfl
  | cons c cs ih => exact (quiet_disposeContext w c).trans (ih _)

theorem quiet_close (w : World Obj τ) : w.Quiet w.close.1 :=
  (quiet_disposeEach w w.liveInOrder).trans (.of_eq rfl)

end World

namespace Command

variable [Facility τ]

def OfTracking : Command Obj τ → Prop
  | trackUnhandled .. => True
  | trackHandled .. => True
  | _ => False

omit [Facility τ] in
theorem inContext_rejections {α : Type} {w : World Obj τ} {c' : ContextId} (absent : α)
    {f : Context → α × Context} (ids : ∀ x, (f x).2.id = x.id) {x : Context}
    (found : w.context? c' = some x) (c : ContextId) :
    (inContext w c' absent f).world.rejections c =
      if c = c' then (f x).2.rejections else w.rejections c := by
  have kept : ∀ y : Context, y.id = c' → (f x).2.id = c' := by
    intro y _
    rw [ids, World.id_of_context? found]
  simp only [inContext, found]
  rw [World.update_rejections w kept]
  split
  · rename_i here
    rw [here, found]
    rfl
  · rfl

omit [Facility τ] in
theorem quiet_inContext {α : Type} (w : World Obj τ) (c : ContextId) (absent : α)
    (f : Context → α × Context) (ids : ∀ x, (f x).2.id = x.id)
    (same : ∀ x, (f x).2.rejections = x.rejections) : w.Quiet (inContext w c absent f).world := by
  intro c'
  cases found : w.context? c with
  | none =>
    simp only [inContext, found]
    exact .refl _
  | some x =>
    rw [inContext_rejections absent ids found]
    split
    · rename_i here
      rw [here, World.rejections, found, same]
      exact .refl _
    · exact .refl _

omit [Facility τ] in
theorem inContext_tracking {α : Type} (w : World Obj τ) (c' : ContextId) (absent : α)
    {f : Context → α × Context} (track : Rejections → Rejections) (ids : ∀ x, (f x).2.id = x.id)
    (tracks : ∀ x, (f x).2.rejections = track x.rejections) (c : ContextId) :
    (inContext w c' absent f).world.rejections c = w.rejections c ∧
        (c = c' → w.context? c' = none) ∨
      c = c' ∧ (∃ x, w.context? c' = some x ∧ x.rejections = w.rejections c) ∧
        (inContext w c' absent f).world.rejections c = track (w.rejections c) := by
  cases found : w.context? c' with
  | none =>
    simp only [inContext, found]
    exact Or.inl ⟨trivial, fun _ => trivial⟩
  | some x =>
    rw [inContext_rejections absent ids found]
    by_cases same : c = c'
    · have here : x.rejections = w.rejections c := by
        rw [same, World.rejections, found]
        rfl
      rw [if_pos same, tracks, here]
      exact Or.inr ⟨same, ⟨x, rfl, here⟩, rfl⟩
    · rw [if_neg same]
      exact Or.inl ⟨rfl, fun here => absurd here same⟩

theorem trackUnhandled_cases (w : World Obj τ) (c' : ContextId) (p : Handle) (reason : Value)
    (c : ContextId) :
    (perform w (.trackUnhandled c' p reason)).world.rejections c = w.rejections c ∧
        (c = c' → (perform w (.trackUnhandled c' p reason)).answer = false) ∨
      c = c' ∧ (perform w (.trackUnhandled c' p reason)).answer = true ∧
        (w.rejections c).isUnhandled p = false ∧
        (perform w (.trackUnhandled c' p reason)).world.rejections c =
          (w.rejections c).trackUnhandled p reason := by
  rcases inContext_tracking w c' false (f := fun x => (!x.rejections.isUnhandled p,
      { x with rejections := x.rejections.trackUnhandled p reason }))
    (fun r => r.trackUnhandled p reason) (fun _ => rfl) (fun _ => rfl) c with
    ⟨kept, absent⟩ | ⟨here, ⟨x, found, same⟩, tracked⟩
  · refine Or.inl ⟨kept, ?_⟩
    intro here
    simp only [perform, inContext, absent here]
    rfl
  · cases untracked : (w.rejections c).isUnhandled p with
    | false =>
      refine Or.inr ⟨here, ?_, rfl, tracked⟩
      simp only [perform, inContext, found, same, untracked]
      rfl
    | true =>
      rw [Rejections.trackUnhandled, if_pos untracked] at tracked
      refine Or.inl ⟨tracked, ?_⟩
      intro _
      simp only [perform, inContext, found, same, untracked]
      rfl

theorem trackHandled_cases (w : World Obj τ) (c' : ContextId) (p : Handle) (reason : Value)
    (c : ContextId) :
    (perform w (.trackHandled c' p reason)).world.rejections c = w.rejections c ∧
        (c = c' → (w.rejections c).find? p = none) ∨
      c = c' ∧ ∃ r, (w.rejections c).find? p = some r ∧
        (perform w (.trackHandled c' p reason)).world.rejections c =
          (w.rejections c).trackHandled p reason := by
  rcases inContext_tracking w c' false (f := fun x => (x.rejections.handlerIsReported p,
      { x with rejections := x.rejections.trackHandled p reason }))
    (fun r => r.trackHandled p reason) (fun _ => rfl) (fun _ => rfl) c with
    ⟨kept, absent⟩ | ⟨here, _, tracked⟩
  · refine Or.inl ⟨kept, ?_⟩
    intro same
    rw [World.rejections, same, absent same]
    rfl
  · cases found : (w.rejections c).find? p with
    | some r => exact Or.inr ⟨here, r, rfl, tracked⟩
    | none =>
      rw [Rejections.trackHandled, found] at tracked
      exact Or.inl ⟨tracked, fun _ => rfl⟩

theorem perform_quiet {c : Command Obj τ} (other : ¬ c.OfTracking) (w : World Obj τ) :
    w.Quiet (c.perform w).world := by
  cases c with
  | trackUnhandled | trackHandled => exact absurd trivial other
  | allocate object =>
    simp only [perform]
    split <;> exact .of_eq rfl
  | retain x =>
    simp only [perform]
    split <;> exact .of_eq rfl
  | createContext config => exact w.quiet_createContext config
  | dispose c =>
    simp only [perform]
    split
    · exact w.quiet_dispose c
    · exact .of_eq rfl
  | close => exact w.quiet_close
  | setTimer c mode callback delay arguments =>
    simp only [perform, setTimerIn]
    split
    · split
      · exact w.quiet_update_other c (fun _ => rfl) fun _ => rfl
      · exact w.quiet_update_other c (fun _ => rfl) fun _ => rfl
    · exact .of_eq rfl
  | clearTimer c id =>
    simp only [perform, clearTimerIn]
    split
    · split
      · exact w.quiet_update_other c (fun _ => rfl) fun _ => rfl
      · exact .of_eq rfl
    · exact .of_eq rfl
  | disposeContext c => exact w.quiet_disposeContext c
  | installTimer | removeTimer | requestFrame | registerFrame | cancelFrame | reclaim =>
    exact quiet_inContext w _ _ _ (fun _ => rfl) fun _ => rfl
  | write | setThreshold | act | post | listen | leave => exact .of_eq rfl

end Command

theorem Call.resume_quiet (types : TypeId → TypeDescriptor) (w : World Obj τ) (p : Progress)
    (k : Call Obj) (r : k.Reply) : w.Quiet (k.resume types w p r).world := by
  cases k with
  | createClass c t parent =>
    rcases r with _ | objects
    · exact .of_eq rfl
    · exact w.quiet_update_other c (fun _ => rfl) fun _ => rfl
  | install c t objects =>
    rcases r with _ | _
    · exact w.quiet_update_other c (fun _ => rfl) fun _ => rfl
    · exact .of_eq rfl
  | function => rcases r with _ | _ <;> exact .of_eq rfl
  | job => rcases r with _ | _ | _ <;> exact .of_eq rfl
  | _ => exact .of_eq rfl

def Procedure.OfTracking : Procedure → Prop
  | process _ => True
  | _ => False

theorem Procedure.start_quiet {p : Procedure} (other : ¬ p.OfTracking) (w : World Obj τ) :
    w.Quiet (Procedure.start w p).world := by
  cases p with
  | process => exact absurd trivial other
  | release n =>
    simp only [start, World.dropObject]
    split <;> exact .of_eq rfl
  | collect roots =>
    simp only [start]
    split <;> exact .of_eq rfl
  | _ => exact .of_eq rfl

def Task.OfTracking : Task Obj → Prop
  | flush _ => True
  | _ => False

theorem World.quiet_lookUpClass (w : World Obj τ) (alive : Handle → Bool) (c : ContextId)
    (t : TypeId) : w.Quiet (w.lookUpClass alive c t).2 :=
  w.quiet_update_other c (fun _ => rfl) fun _ => rfl

theorem Task.run_quiet [Traced Obj] {t : Task Obj} (other : ¬ t.OfTracking) (env : Surroundings)
    (w : World Obj τ) (p : Progress) : w.Quiet (t.run env w p).world := by
  cases t with
  | flush => exact absurd trivial other
  | fire c id error =>
    simp only [run]
    split
    · split
      · exact w.quiet_update_other c (fun _ => rfl) fun _ => rfl
      · exact .of_eq rfl
    · exact .of_eq rfl
  | setLevel c level => exact w.quiet_update_other c (fun _ => rfl) fun _ => rfl
  | retire c id => exact w.quiet_update_other c (fun _ => rfl) fun _ => rfl
  | drain c =>
    simp only [run]
    split
    · split
      · exact w.quiet_update_other c (fun _ => rfl) fun _ => rfl
      · exact .of_eq rfl
    · exact .of_eq rfl
  | endDrain c => exact w.quiet_update_other c (fun _ => rfl) fun _ => rfl
  | frames c timestamp =>
    simp only [run]
    split <;> exact .of_eq rfl
  | frame c id timestamp =>
    simp only [run]
    split
    · exact w.quiet_update_other c (fun _ => rfl) fun _ => rfl
    · exact .of_eq rfl
  | classObjects c t =>
    have looked := w.quiet_lookUpClass env.alive c t
    simp only [run]
    split
    · rename_i found
      rwa [found] at looked
    · rename_i found
      rw [found] at looked
      split <;> exact looked
  | defineClass c t =>
    have looked := w.quiet_lookUpClass env.alive c t
    simp only [run]
    split
    · exact .of_eq rfl
    · split
      · rename_i found
        rwa [found] at looked
      · rename_i found
        rwa [found] at looked
  | traceRoots r => cases r <;> exact .of_eq rfl
  | letGo =>
    simp only [run]
    split
    · simp only [World.dropObject]
      split <;> exact .of_eq rfl
    · exact .of_eq rfl
  | traceComplete r =>
    cases r with
    | bridge => exact w.quiet_reclaim
    | context c => exact w.quiet_update_other c (fun _ => rfl) fun _ => rfl
    | handles | external => exact .of_eq rfl
  | call | dispatch | markAndSweep | conclude => exact .of_eq rfl

end HostBridge
