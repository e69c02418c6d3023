import HostBridge.Proofs.Classes.Stages
/-!
# What code that makes a class relies on

Code that creates a class relies on the class of the parent, whose prototype it was given, and code
that installs members relies on the class itself. Only code above it on the stack could change that
class, and as long as the class is kept no call that makes it is put there.
-/

namespace HostBridge

variable {Obj τ : Type}

/-- The class that code of the call relies on: that of the parent while a class is created, and the
class itself while members are installed. -/
def Call.relies? (types : TypeId → TypeDescriptor) (c : ContextId) : Call Obj → Option TypeId
  | createClass c' t _ => if c' = c then (types t).parent else none
  | install c' t _ => if c' = c then some t else none
  | _ => none

theorem Call.relies?_eq_none {types : TypeId → TypeDescriptor} {c : ContextId} {k : Call Obj}
    (no_class : k.makes? c = none) : k.relies? types c = none := by
  cases k with
  | createClass c' t prototype =>
    refine if_neg fun same => ?_
    simp [makes?, same] at no_class
  | install c' t o =>
    refine if_neg fun same => ?_
    simp [makes?, same] at no_class
  | _ => rfl

namespace Call.Holds

variable {types : TypeId → TypeDescriptor} {w w' : World Obj τ} {c : ContextId} {k : Call Obj}

theorem of_same (holds : k.Holds types w c)
    (same : ∀ u, k.relies? types c = some u → w'.class? c u = w.class? c u) :
    k.Holds types w' c := by
  cases k with
  | createClass c' t prototype =>
    rintro rfl
    obtain ⟨not_own, inherits⟩ := holds rfl
    refine ⟨not_own, ?_⟩
    rw [relies?, if_pos rfl] at same
    unfold World.Inherits at inherits ⊢
    cases parent : (types t).parent with
    | none => simpa [parent] using inherits
    | some q => simpa [parent, same q parent] using inherits
  | install c' t o =>
    rintro rfl
    rw [same t (if_pos rfl)]
    exact holds rfl
  | _ => trivial

theorem class? (holds : k.Holds types w c) {u : TypeId} (relies : k.relies? types c = some u) :
    ∃ o, w.class? c u = some o := by
  cases k with
  | createClass c' t prototype =>
    simp only [relies?] at relies
    split at relies
    · rename_i same
      subst same
      obtain ⟨_, inherits⟩ := holds rfl
      simp only [World.Inherits, relies] at inherits
      obtain ⟨o, found, _⟩ := inherits
      exact ⟨o, found⟩
    · cases relies
  | install c' t o =>
    simp only [relies?] at relies
    split at relies
    · rename_i same
      subst same
      obtain rfl := Option.some.inj relies
      exact ⟨o, holds rfl⟩
    · cases relies
  | _ => cases relies

end Call.Holds

def Item.Makes (c : ContextId) (u : TypeId) : Item Obj → Prop
  | task (.call k) => k.makes? c = some u
  | code k => k.makes? c = some u
  | _ => False

variable [Facility τ] {E : Embedder Obj τ}

namespace Execution

/-- Code in progress relies on a class that the context keeps and that nothing above it makes. -/
def Reliant (x : Execution E) (c : ContextId) : Prop :=
  ∀ above k below, x.stack = above ++ .code k :: below → k.Holds E.types x.world c ∧
    ∀ u, k.relies? E.types c = some u → ∀ i ∈ above, ¬ i.Makes c u

structure Opened (x : Execution E) (c : ContextId) : Prop where
  no_class : ∀ t, x.world.class? c t = none
  no_lookUp : ∀ s ∈ x.frames, (∀ t, s.procedure ≠ .classObjects c t) ∧
    (∀ u ∈ s.todo, ¬ u.OfLookUp c) ∧ s.k.makes? c = none
  no_making : ∀ k a, x.focus = .code k a → k.makes? c = none

variable {x y : Execution E} {c : ContextId}

theorem Brings.makes (keeps : x.KeepsClasses c) {k : Call Obj} (brings : x.Brings (.call k))
    {u : TypeId} (makes : k.makes? c = some u) :
    x.world.class? c u = none ∨ ∃ o, x.Creates c u o := by
  cases brings with
  | createClass defines missing =>
    rcases Call.eq_of_makes makes with ⟨_, same⟩ | ⟨_, same⟩
    · cases same
      exact Or.inl ((keeps.look_up u).symm.trans missing)
    · cases same
  | install returns =>
    rcases Call.eq_of_makes makes with ⟨_, same⟩ | ⟨_, same⟩
    · cases same
    · cases same
      exact Or.inr ⟨_, _, returns⟩
  | frameCall =>
    rw [Task.frameCall_makes?] at makes
    cases makes
  | _ => cases makes

/-- What is on the stack is left there, with tasks on top; the code that returns is gone. -/
theorem Reliant.tasks (reliant : x.Reliant c) (first : List (Task Obj)) (gone : List (Item Obj))
    (keeps : x.KeepsClasses c)
    (change : ∀ t, x.ClassChange c t (x.world.class? c t) (y.world.class? c t))
    {kept : List (Item Obj)}
    (before : x.stack = gone ++ kept) (after : y.stack = first.map .task ++ kept)
    (brings : ∀ t ∈ first, x.Brings t)
    (returned : ∀ k r, x.Returns k r → gone = [.code k]) : y.Reliant c := by
  have nothing_returns : ∀ {above k below u}, kept = above ++ .code k :: below →
      k.relies? E.types c = some u → ¬ ∃ k' r, x.Returns k' r ∧ k'.makes? c = some u := by
    rintro above k below u rfl relies ⟨k', r, returns, makes⟩
    rw [returned k' r returns] at before
    exact (reliant (.code k' :: above) k below before).2 u relies _ List.mem_cons_self makes
  intro above k below stack
  obtain ⟨above', rfl, split⟩ : ∃ above', above = first.map .task ++ above' ∧
      kept = above' ++ .code k :: below := by
    rw [after] at stack
    rcases List.append_eq_append_iff.mp stack with ⟨l, rfl, split⟩ | ⟨l, split, there⟩
    · exact ⟨l, rfl, split⟩
    · rcases l with _ | ⟨i, l⟩
      · exact ⟨[], by simpa using split.symm, by simpa using there.symm⟩
      · obtain ⟨rfl, _⟩ := List.cons.inj there
        have mem : .code k ∈ first.map (.task : Task Obj → Item Obj) :=
          split ▸ List.mem_append_right above List.mem_cons_self
        obtain ⟨t, _, no_task⟩ := List.mem_map.mp mem
        cases no_task
  have here : x.stack = (gone ++ above') ++ .code k :: below := by
    rw [before, split, List.append_assoc]
  obtain ⟨holds, alone⟩ := reliant _ k below here
  refine ⟨holds.of_same ?_, ?_⟩
  · intro u relies
    rcases (change u).returns with same | makes
    · exact same
    · exact absurd makes (nothing_returns split relies)
  · intro u relies i mem makes
    rcases List.mem_append.mp mem with new | old
    · obtain ⟨t, brought, rfl⟩ := List.mem_map.mp new
      cases t with
      | call k' =>
        rcases (brings _ brought).makes keeps makes with missing | creates
        · obtain ⟨o, found⟩ := holds.class? relies
          cases missing.symm.trans found
        · obtain ⟨_, _, returns⟩ := creates
          exact nothing_returns split relies ⟨_, _, returns, if_pos rfl⟩
      | _ => exact makes
    · exact alone u relies i (List.mem_append_right gone old) makes

theorem Opened.staged (opened : x.Opened c) (fails : Prop) : x.Staged fails c := by
  have await : ∀ (k : Call Obj) (below : List (Suspended E)), k.makes? c = none →
      (∀ s ∈ below, (∀ t, s.procedure ≠ .classObjects c t) ∧ (∀ u ∈ s.todo, ¬ u.OfLookUp c) ∧
        s.k.makes? c = none) → Suspended.Await c k below := by
    intro k below
    induction below generalizing k with
    | nil => exact fun _ _ => trivial
    | cons s below ih =>
      intro no_class no_lookUp
      obtain ⟨no_class', tasks, above⟩ := no_lookUp s List.mem_cons_self
      exact ⟨.other no_class' tasks no_class,
        ih s.k above fun s' mem => no_lookUp s' (List.mem_cons_of_mem s mem)⟩
  have no_lookUp := opened.no_lookUp
  rcases at_focus : x.focus with _ | ⟨k, a⟩ | s
  · exact .halted at_focus
  · rw [frames_of_code at_focus] at no_lookUp
    exact .code at_focus (await k _ (opened.no_making k a at_focus) no_lookUp)
  · rw [frames_of_bridge at_focus] at no_lookUp
    obtain ⟨no_class, tasks, above⟩ := no_lookUp s List.mem_cons_self
    exact .bridge at_focus (.other no_class tasks)
      (await _ _ above fun s' mem => no_lookUp s' (List.mem_cons_of_mem s mem))

theorem code_of_mem {k : Call Obj} (mem : .code k ∈ x.stack) :
    (∃ a, x.focus = .code k a) ∨ ∃ s ∈ x.frames, s.k = k := by
  have waits : ∀ {frames : List (Suspended E)}, .code k ∈ frames.flatMap Suspended.items →
      ∃ s ∈ frames, s.k = k := by
    intro frames mem
    obtain ⟨s, here, item⟩ := List.mem_flatMap.mp mem
    rcases List.mem_append.mp item with task | code
    · obtain ⟨t, _, no_code⟩ := List.mem_map.mp task
      cases no_code
    · exact ⟨s, here, (Item.code.inj (List.mem_singleton.mp code)).symm⟩
  rcases at_focus : x.focus with _ | ⟨k', a⟩ | s
  · rw [stack, at_focus] at mem
    cases mem
  · rw [stack_of_code at_focus] at mem
    rw [frames_of_code at_focus]
    rcases List.mem_cons.mp mem with same | below
    · obtain rfl := Item.code.inj same
      exact Or.inl ⟨a, rfl⟩
    · exact Or.inr (waits below)
  · simp only [stack, at_focus, ← List.flatMap_cons] at mem
    rw [frames_of_bridge at_focus]
    exact Or.inr (waits mem)

theorem Opened.reliant (opened : x.Opened c) : x.Reliant c := by
  intro above k below here
  have mem : .code k ∈ x.stack := here ▸ List.mem_append_right above List.mem_cons_self
  have no_class : k.makes? c = none := by
    rcases code_of_mem mem with ⟨a, at_code⟩ | ⟨s, frame, rfl⟩
    · exact opened.no_making k a at_code
    · exact (opened.no_lookUp s frame).2.2
  refine ⟨.of_makes_none no_class, ?_⟩
  intro u relies
  cases (Call.relies?_eq_none no_class).symm.trans relies

variable [Traced Obj]

theorem Rewrites.reliant (rewrites : Rewrites x y) (reliant : x.Reliant c) (staged : x.Staged fails c)
    (keeps : x.KeepsClasses c) (valid : y.world.isValid c = true) : y.Reliant c := by
  have change := fun t => (rewrites.outcome c).class_change keeps valid t
  cases rewrites with
  | idle no_task stack world =>
    intro above k below here
    rw [world]
    exact reliant above k below (stack.symm.trans here)
  | performed performs stack =>
    exact reliant.tasks [] [] keeps change rfl stack (fun t mem => nomatch mem)
      fun k r returns => absurd performs returns.not_performs
  | began requests stack =>
    exact reliant.tasks _ [] keeps change rfl stack (fun t mem => brings_start requests mem)
      fun k r returns => absurd requests returns.not_requests
  | returned top stack _ _ returns =>
    refine reliant.tasks _ [_] keeps change top stack
      (fun t mem => brings_resume returns mem) ?_
    intro k' r' returns'
    obtain ⟨_, top'⟩ := returns'.atCode
    rw [(List.cons.inj (top.symm.trans top')).1]
  | halted _ stack =>
    intro above k below here
    rw [stack] at here
    cases above <;> cases here
  | @called k rest top stack world =>
    intro above k' below here
    rw [stack] at here
    rcases above with _ | ⟨i, above⟩
    · obtain ⟨same, _⟩ := List.cons.inj here
      obtain rfl := Item.code.inj same
      rw [world]
      refine ⟨staged.holds ⟨rest, top⟩, ?_⟩
      intro u _ i mem
      cases mem
    · obtain ⟨rfl, rfl⟩ := List.cons.inj here
      rw [world]
      obtain ⟨holds, alone⟩ := reliant (.task (.call k) :: above) k' below top
      refine ⟨holds, ?_⟩
      intro u relies i mem
      rcases List.mem_cons.mp mem with rfl | later
      · exact alone u relies (.task (.call k)) List.mem_cons_self
      · exact alone u relies i (List.mem_cons_of_mem _ later)
  | worked top no_call stack =>
    refine reliant.tasks _ [_] keeps change top stack
      (fun t mem => brings_task ⟨_, top⟩ no_call mem) ?_
    intro k' r' returns'
    exact absurd ⟨_, top⟩ (returns'.atCode.not_atTask _)

theorem lookUps_run {n : Nat} (opened : x.Opened c) (keeps : ∀ m ≤ n, (x.run m).KeepsClasses c) :
    (x.run n).Staged True c ∧ (x.run n).Reliant c := by
  induction n with
  | zero => exact ⟨opened.staged True, opened.reliant⟩
  | succ n ih =>
    obtain ⟨staged, reliant⟩ := ih fun m le => keeps m (Nat.le_succ_of_le le)
    have here := keeps n (Nat.le_succ n)
    have next := (x.run_rewrites n).reliant reliant staged here (keeps (n + 1) (Nat.le_refl _)).valid
    refine ⟨?_, next⟩
    rcases run_succ_cases x n with same | stepped
    · rwa [same]
    · refine stepped.staged staged here ?_ fun _ _ _ _ => Or.inr trivial
      rintro k ⟨rest, top⟩
      exact (reliant [] k rest top).1

end Execution

end HostBridge
