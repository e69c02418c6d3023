import HostBridge.Proofs.Contexts.Change
/-!
# The classes of a context

A class is kept when the call that creates it returns, and forgotten when its installer fails. As
long as the context may run script, and the objects of its classes are alive, nothing else changes
the classes that it keeps.
-/

namespace HostBridge

variable {Obj τ : Type}

namespace ClassCache

theorem get?_erase (r : ClassCache) (t u : TypeId) :
    (r.erase t).get? u = if u = t then none else r.get? u := by
  obtain ⟨entries⟩ := r
  induction entries with
  | nil => exact (ite_self none).symm
  | cons e es ih =>
    obtain ⟨v, o⟩ := e
    simp only [erase, get?] at ih ⊢
    by_cases gone : v = t
    · rw [List.filter_cons_of_neg (by simp [gone]), ih, List.lookup_cons, gone]
      split
      · rfl
      · rename_i other
        rw [beq_false_of_ne other]
    · rw [List.filter_cons_of_pos (by simp [gone]), List.lookup_cons, List.lookup_cons, ih]
      by_cases here : u = v
      · rw [here, beq_self_eq_true]
        exact (if_neg gone).symm
      · rw [beq_false_of_ne here]

theorem get?_insert (r : ClassCache) (t u : TypeId) (o : ClassObjects) :
    (r.insert t o).get? u = if u = t then some o else r.get? u := by
  have appended : (r.insert t o).get? u = ((r.erase t).get? u).or ([(t, o)].lookup u) :=
    List.lookup_append
  rw [appended, get?_erase]
  by_cases same : u = t
  · simp [same]
  · simp [same, List.lookup_cons, beq_false_of_ne same]

theorem live?_of_alive {r : ClassCache} {alive : Handle → Bool} {t : TypeId}
    (living : ∀ o, r.get? t = some o → alive o.constructor = true ∧ alive o.prototype = true) :
    r.live? alive t = r.get? t ∧ ∀ u, (r.evict alive t).get? u = r.get? u := by
  have found : r.live? alive t = r.get? t := by
    rw [live?]
    cases here : r.get? t with
    | none => rfl
    | some o => simp [living o here]
  refine ⟨found, fun u => ?_⟩
  rw [evict, found]
  split
  · rfl
  · rename_i absent
    rw [get?_erase]
    split
    · rename_i same
      rw [same]
      cases here : r.get? t with
      | none => rfl
      | some o => simp [here] at absent
    · rfl

end ClassCache

def World.class? (w : World Obj τ) (c : ContextId) (t : TypeId) : Option ClassObjects :=
  (w.context? c).bind (·.classes.get? t)

theorem World.class?_of_context? {w : World Obj τ} {c : ContextId} {a : Context}
    (found : w.context? c = some a) (t : TypeId) : w.class? c t = a.classes.get? t := by
  rw [class?, found, Option.bind_some]

theorem World.isValid_iff {w : World Obj τ} {c : ContextId} :
    w.isValid c = true ↔ ∃ a, w.context? c = some a ∧ a.valid = true := by
  rw [isValid, Option.any_eq_true]

def Call.makes? (c : ContextId) : Call Obj → Option TypeId
  | createClass c' t _ => if c' = c then some t else none
  | install c' t _ => if c' = c then some t else none
  | _ => none

theorem Call.eq_of_makes {c : ContextId} {t : TypeId} {k : Call Obj} (makes : k.makes? c = some t) :
    (∃ prototype, k = .createClass c t prototype) ∨ ∃ o, k = .install c t o := by
  cases k with
  | createClass c' u prototype =>
    simp only [makes?] at makes
    split at makes
    · rename_i same
      subst same
      obtain rfl := Option.some.inj makes
      exact Or.inl ⟨prototype, rfl⟩
    · cases makes
  | install c' u o =>
    simp only [makes?] at makes
    split at makes
    · rename_i same
      subst same
      obtain rfl := Option.some.inj makes
      exact Or.inr ⟨o, rfl⟩
    · cases makes
  | _ => cases makes

namespace Execution

variable [Facility τ] {E : Embedder Obj τ} {x y : Execution E} {c : ContextId} {t : TypeId}

structure KeepsClasses (x : Execution E) (c : ContextId) : Prop where
  valid : x.world.isValid c = true
  alive : ∀ t o, x.world.class? c t = some o →
    E.alive x.state x.world.heap o.constructor = true ∧
      E.alive x.state x.world.heap o.prototype = true

def Creates (x : Execution E) (c : ContextId) (t : TypeId) (o : ClassObjects) : Prop :=
  ∃ parent, x.Returns (.createClass c t parent) (.ok o)

def GivesUp (x : Execution E) (c : ContextId) (t : TypeId) : Prop :=
  ∃ o thrown, x.Returns (.install c t o) (.error thrown)

inductive ClassChange (x : Execution E) (c : ContextId) (t : TypeId) (o : Option ClassObjects) :
    Option ClassObjects → Prop
  | kept : ClassChange x c t o o
  | created {objects : ClassObjects} (creates : x.Creates c t objects) :
      ClassChange x c t o (some objects)
  | failed (fails : x.GivesUp c t) : ClassChange x c t o none

theorem KeepsClasses.look_up (keeps : x.KeepsClasses c) (t : TypeId) :
    (x.world.lookUpClass (E.alive x.state x.world.heap) c t).1 = x.world.class? c t := by
  obtain ⟨a, found, _⟩ := World.isValid_iff.mp keeps.valid
  have living := keeps.alive t
  rw [World.class?_of_context? found] at living
  rw [World.lookUpClass, found, Option.bind_some, World.class?_of_context? found]
  exact (ClassCache.live?_of_alive living).1

theorem KeepsClasses.class?_lookUpClass (keeps : x.KeepsClasses c) (t u : TypeId) :
    (x.world.lookUpClass (E.alive x.state x.world.heap) c t).2.class? c u = x.world.class? c u := by
  obtain ⟨a, found, _⟩ := World.isValid_iff.mp keeps.valid
  have living := keeps.alive t
  rw [World.class?_of_context? found] at living
  have ids : ∀ b : Context, b.id = c →
      { b with classes := b.classes.evict (E.alive x.state x.world.heap) t }.id = c :=
    fun _ here => here
  rw [World.lookUpClass, World.class?, World.context?_update _ ids, World.class?, found]
  simpa using (ClassCache.live?_of_alive living).2 u

theorem Reclasses.class_change {a : Context} (keeps : x.KeepsClasses c)
    (found : x.world.context? c = some a) {classes : ClassCache}
    (reclasses : x.Reclasses c a.classes classes) (t : TypeId) :
    x.ClassChange c t (a.classes.get? t) (classes.get? t) := by
  cases reclasses with
  | @lookedUp u looks =>
    have living := keeps.alive u
    rw [World.class?_of_context? found] at living
    rw [(ClassCache.live?_of_alive living).2]
    exact .kept
  | @created u parent objects returns =>
    rw [ClassCache.get?_insert]
    split
    · rename_i same
      exact .created ⟨parent, same ▸ returns⟩
    · exact .kept
  | @failed u objects thrown returns =>
    rw [ClassCache.get?_erase]
    split
    · rename_i same
      exact .failed ⟨objects, thrown, same ▸ returns⟩
    · exact .kept

theorem Outcome.class_change {w : World Obj τ}
    (outcome : x.Outcome c (x.world.context? c) (w.context? c)) (keeps : x.KeepsClasses c)
    (valid : w.isValid c = true) (t : TypeId) :
    x.ClassChange c t (x.world.class? c t) (w.class? c t) := by
  obtain ⟨a, before, _⟩ := World.isValid_iff.mp keeps.valid
  obtain ⟨b, after, still⟩ := World.isValid_iff.mp valid
  rw [World.class?_of_context? before, World.class?_of_context? after]
  rw [before, after] at outcome
  cases outcome with
  | changed changes =>
    cases changes with
    | classesKept reclasses => exact reclasses.class_change keeps before t
    | disposed =>
      have disposed : a.dispose.valid = false := by
        cases valid : a.valid <;> simp [Context.dispose, valid]
      rw [disposed] at still
      cases still
    | timerSet | timerInstalled | timerRemoved | timerFired | levelSet | timerRetired
    | frameRequested | frameRegistered | frameCancelled | frameTaken | rejectionTracked
    | handlerTracked | batchTaken | drainBegun | drainEnded | reclaimed | kept => exact .kept

/-- Only a call that makes the class changes it, and when it returns. -/
theorem ClassChange.returns {o o' : Option ClassObjects} (change : x.ClassChange c t o o') :
    o' = o ∨ ∃ k r, x.Returns k r ∧ k.makes? c = some t := by
  cases change with
  | kept => exact Or.inl rfl
  | created creates =>
    obtain ⟨parent, returns⟩ := creates
    exact Or.inr ⟨_, _, returns, if_pos rfl⟩
  | failed fails =>
    obtain ⟨o, thrown, returns⟩ := fails
    exact Or.inr ⟨_, _, returns, if_pos rfl⟩

variable [Traced Obj] {n : Nat}

theorem run_class_change (here : (x.run n).KeepsClasses c)
    (next : (x.run (n + 1)).world.isValid c = true) (t : TypeId) :
    (x.run n).ClassChange c t ((x.run n).world.class? c t) ((x.run (n + 1)).world.class? c t) :=
  ((x.run_rewrites n).outcome c).class_change here next t

theorem Returns.world {k : Call Obj} {r : k.Reply} (returns : (x.run n).Returns k r) :
    ∃ p, (x.run (n + 1)).world = (k.resume E.types (x.run n).world p r).world := by
  obtain ⟨a, state, notes, at_code, called, turn⟩ := returns
  obtain ⟨s, below, caller⟩ := List.exists_cons_of_ne_nil called
  have stepped : (x.run n).step = some ((x.run n).move k a) := by rw [step, at_code]
  refine ⟨s.progress, ?_⟩
  rw [run_succ_of_step stepped]
  simp [move, turn, record, reply, caller, advance]

theorem Creates.class? {o : ClassObjects} (creates : (x.run n).Creates c t o)
    (valid : (x.run n).world.isValid c = true) : (x.run (n + 1)).world.class? c t = some o := by
  obtain ⟨parent, returns⟩ := creates
  obtain ⟨p, world⟩ := returns.world
  obtain ⟨a, found, _⟩ := World.isValid_iff.mp valid
  have ids : ∀ b : Context, b.id = c → { b with classes := b.classes.insert t o }.id = c :=
    fun _ here => here
  rw [world, World.class?, Call.resume, World.context?_update _ ids, found]
  simp [ClassCache.get?_insert]

theorem GivesUp.class? (fails : (x.run n).GivesUp c t) : (x.run (n + 1)).world.class? c t = none := by
  obtain ⟨o, thrown, returns⟩ := fails
  obtain ⟨p, world⟩ := returns.world
  have ids : ∀ b : Context, b.id = c → { b with classes := b.classes.erase t }.id = c :=
    fun _ here => here
  rw [world, World.class?, Call.resume, World.context?_update _ ids]
  cases (x.run n).world.context? c with
  | none => rfl
  | some a => simp [ClassCache.get?_erase]

end Execution

end HostBridge
