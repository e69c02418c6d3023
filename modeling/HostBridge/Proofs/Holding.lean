import HostBridge.World
/-!
# What contexts hold

The entries of a context's registries, each with the handles it names. Whatever an entry of a held
context names is among the roots of the bridge.
-/

namespace HostBridge

inductive Holding
  | timer (e : Entry TimerId Timer)
  | frame (e : Entry FrameId FrameRequest)
  | unhandled (promise : Handle) (reason : Value) (episode : Nat)
  | handled (promise : Handle) (reason : Value) (episode : Nat)
  | classObjects (t : TypeId) (objects : ClassObjects)
  deriving DecidableEq, Repr

namespace Holding

def Names : Holding → Handle → Prop
  | timer e, y => e.item.callback = .object y ∨ .object y ∈ e.item.arguments
  | frame e, y => e.item.callback = .script (.object y)
  | unhandled promise reason _, y => promise = y ∨ reason = .object y
  | handled promise reason _, y => promise = y ∨ reason = .object y
  | classObjects _ objects, y => objects.constructor = y ∨ objects.prototype = y

end Holding

namespace Rejection

def Is (r : Rejection) (promise : Handle) (reason : Value) (episode : Nat) : Prop :=
  r.promise = promise ∧ r.reason = reason ∧ r.episode = episode

instance (r : Rejection) (promise : Handle) (reason : Value) (episode : Nat) :
    Decidable (r.Is promise reason episode) :=
  inferInstanceAs (Decidable (_ ∧ _ ∧ _))

end Rejection

namespace Context

def Holds (x : Context) : Holding → Prop
  | .timer e => e ∈ x.timers.active ++ x.timers.abandoned
  | .frame e => e ∈ x.frames.active ++ x.frames.abandoned
  | .unhandled promise reason episode => ∃ r ∈ x.rejections.unhandled, r.Is promise reason episode
  | .handled promise reason episode => ∃ r ∈ x.rejections.handled, r.Is promise reason episode
  | .classObjects t objects => (t, objects) ∈ x.classes.entries

instance (x : Context) (held : Holding) : Decidable (x.Holds held) :=
  match held with
  | .timer e => inferInstanceAs (Decidable (e ∈ x.timers.active ++ x.timers.abandoned))
  | .frame e => inferInstanceAs (Decidable (e ∈ x.frames.active ++ x.frames.abandoned))
  | .unhandled promise reason episode =>
    inferInstanceAs (Decidable (∃ r ∈ x.rejections.unhandled, r.Is promise reason episode))
  | .handled promise reason episode =>
    inferInstanceAs (Decidable (∃ r ∈ x.rejections.handled, r.Is promise reason episode))
  | .classObjects t objects => inferInstanceAs (Decidable ((t, objects) ∈ x.classes.entries))

structure Registries where
  id : ContextId
  classes : ClassCache
  timers : Timers
  frames : Frames
  rejections : Rejections
  deriving DecidableEq

def registries (x : Context) : Registries := ⟨x.id, x.classes, x.timers, x.frames, x.rejections⟩

def Registries.handles (r : Registries) : List Handle :=
  Traced.handles r.classes ++ Traced.handles r.timers ++ Traced.handles r.frames ++
    Traced.handles r.rejections

theorem mem_handles_value {v : Value} {y : Handle} (object : v = .object y) : y ∈ handles v := by
  rw [object]
  exact List.mem_cons_self

theorem mem_handles_entries {κ α : Type} [DecidableEq κ] [Traced α] {r : Registry κ α}
    {e : Entry κ α} {y : Handle} (member : e ∈ r.active ++ r.abandoned)
    (names : y ∈ handles e.item) : y ∈ handles r := by
  apply List.mem_flatMap.mpr
  exact ⟨e.item, List.mem_map.mpr ⟨e, member, rfl⟩, names⟩

theorem mem_handles_rejection {r : Rejection} {y : Handle} {promise : Handle} {reason : Value}
    {episode : Nat} (same : r.Is promise reason episode)
    (names : promise = y ∨ reason = .object y) : y ∈ handles r := by
  rcases same with ⟨promised, reasoned, _⟩
  rcases names with here | here
  · have named : y = r.promise := by rw [promised, here]
    rw [named]
    exact List.mem_cons_self
  · apply List.mem_cons_of_mem
    exact mem_handles_value (reasoned.trans here)

theorem mem_handles_of_holds {x : Context} {held : Holding} {y : Handle} (holds : x.Holds held)
    (names : held.Names y) : y ∈ handles x := by
  have parts : handles x =
      handles x.classes ++ handles x.timers ++ handles x.frames ++ handles x.rejections := rfl
  rw [parts]
  cases held with
  | timer e =>
    have item : y ∈ handles e.item := by
      apply List.mem_append.mpr
      rcases names with callback | argument
      · exact Or.inl (mem_handles_value callback)
      · exact Or.inr (List.mem_flatMap.mpr ⟨_, argument, mem_handles_value rfl⟩)
    have registry : y ∈ handles x.timers := mem_handles_entries holds item
    simp [registry]
  | frame e =>
    have item : y ∈ handles e.item := by
      have callback : handles e.item = handles e.item.callback := rfl
      rw [callback, names]
      exact mem_handles_value rfl
    have registry : y ∈ handles x.frames := mem_handles_entries holds item
    simp [registry]
  | unhandled promise reason episode =>
    rcases holds with ⟨r, member, same⟩
    have registry : y ∈ handles x.rejections := by
      apply List.mem_flatMap.mpr
      exact ⟨r, List.mem_append_left _ member, mem_handles_rejection same names⟩
    simp [registry]
  | handled promise reason episode =>
    rcases holds with ⟨r, member, same⟩
    have registry : y ∈ handles x.rejections := by
      apply List.mem_flatMap.mpr
      exact ⟨r, List.mem_append_right _ member, mem_handles_rejection same names⟩
    simp [registry]
  | classObjects t objects =>
    have pair : y ∈ handles objects := by
      have both : handles objects = [objects.constructor, objects.prototype] := rfl
      rw [both]
      rcases names with here | here <;> simp [here]
    have registry : y ∈ handles x.classes := by
      apply List.mem_flatMap.mpr
      exact ⟨(t, objects), holds, pair⟩
    simp [registry]

end Context

namespace World

variable {Obj τ : Type}

/-- The bridge holds the context, live or disposed, and the context holds the entry. -/
def Holds (w : World Obj τ) (c : ContextId) (held : Holding) : Prop :=
  (c ∈ w.live ∨ c ∈ w.disposed) ∧ ∃ x ∈ w.context? c, x.Holds held

instance (w : World Obj τ) (c : ContextId) (held : Holding) : Decidable (w.Holds c held) :=
  inferInstanceAs (Decidable (_ ∧ _))

theorem mem_rootsOf_of_holds {w : World Obj τ} {c : ContextId} {x : Context} {held : Holding}
    {y : Handle} (found : w.context? c = some x) (entry : x.Holds held) (names : held.Names y) :
    y ∈ w.rootsOf c := by
  rw [rootsOf, found]
  exact Context.mem_handles_of_holds entry names

theorem mem_roots_of_holds {w : World Obj τ} {c : ContextId} {held : Holding} {y : Handle}
    (holds : w.Holds c held) (names : held.Names y) : y ∈ w.roots := by
  rcases holds with ⟨kept, x, found, entry⟩
  apply List.mem_flatMap.mpr
  exact ⟨c, List.mem_append.mpr kept, mem_rootsOf_of_holds (Option.mem_def.mp found) entry names⟩

structure SameRegistries (w w' : World Obj τ) : Prop where
  live : w'.live = w.live
  disposed : w'.disposed = w.disposed
  contexts : w'.contexts.map Context.registries = w.contexts.map Context.registries

instance (w w' : World Obj τ) : Decidable (w.SameRegistries w') :=
  decidable_of_iff
    (w'.live = w.live ∧ w'.disposed = w.disposed ∧
      w'.contexts.map Context.registries = w.contexts.map Context.registries)
    ⟨fun same => ⟨same.1, same.2.1, same.2.2⟩, fun same => ⟨same.live, same.disposed, same.contexts⟩⟩

theorem rootsOf_eq_registries (w : World Obj τ) (c : ContextId) :
    w.rootsOf c =
      ((w.contexts.map Context.registries).find? (·.id = c)).elim [] Context.Registries.handles := by
  have same_id : ((fun r => decide (r.id = c)) ∘ Context.registries) = fun x => decide (x.id = c) :=
    rfl
  rw [rootsOf, context?, List.find?_map, same_id]
  cases w.contexts.find? fun x => decide (x.id = c) with
  | none => rfl
  | some x => rfl

theorem SameRegistries.roots {w w' : World Obj τ} (same : w.SameRegistries w') :
    w'.roots = w.roots := by
  have each : w'.rootsOf = w.rootsOf := by
    funext c
    rw [rootsOf_eq_registries, rootsOf_eq_registries, same.contexts]
  rw [World.roots, World.roots, same.live, same.disposed, each]

end World

end HostBridge
