import HostBridge.Proofs.Classes.Chain
/-!
# Code that looks up the class that it creates

While the code of a call creates a class, nothing is kept for the type yet. A look-up that the code
asks for in the meantime creates the class as well, and the class that the code returns takes its
place. Apart from that a class is kept for good, unless its installer fails.
-/

namespace HostBridge.Execution

variable {Obj τ : Type} [Facility τ] {E : Embedder Obj τ} {x : Execution E} {c : ContextId}
  {t : TypeId}

def InCreation (x : Execution E) (c : ContextId) (t : TypeId) : Prop :=
  ∃ prototype, .code (.createClass c t prototype) ∈ x.stack

def Finds (x : Execution E) (c : ContextId) (t : TypeId) (o : ClassObjects) : Prop :=
  ∃ s, x.focus = .bridge s ∧ s.procedure = .classObjects c t ∧ s.todo = [] ∧
    s.progress.classObjects = .ok o

theorem Staged.class?_of_finds {fails : Prop} (staged : x.Staged fails c) {o : ClassObjects}
    (finds : x.Finds c t o) : x.world.class? c t = some o := by
  obtain ⟨s, at_bridge, looks, ended, brought⟩ := finds
  cases (staged.of_bridge at_bridge).1 with
  | lookUp looks' stage =>
    obtain ⟨_, rfl⟩ := Procedure.classObjects.inj (looks.symm.trans looks')
    rw [ended] at stage
    cases stage with
    | settled found brought' rest =>
      cases rest
      obtain rfl := Except.ok.inj (brought'.symm.trans brought)
      exact found
    | failed _ failed =>
      cases failed.symm.trans brought
  | other no_lookUp => exact absurd looks (no_lookUp t)

variable [Traced Obj] {m n : Nat}

/-- A class is kept for good unless it is in creation again when it is kept. -/
theorem class?_of_not_in_creation (opened : x.Opened c) (keeps : ∀ j ≤ n, (x.run j).KeepsClasses c)
    (no_failure : ∀ j < n, ¬ (x.run j).GivesUp c t) (le : m ≤ n) {o : ClassObjects}
    (kept : (x.run m).world.class? c t = some o) (alone : ¬ (x.run m).InCreation c t) :
    (x.run n).world.class? c t = some o := by
  rw [← kept]
  apply class?_of_not_renewed keeps le
  intro l after lt renews
  obtain ⟨i, later, before, renewed, first⟩ := exists_first_renewal after renews
  have earlier : i < n := Nat.lt_of_le_of_lt before lt
  rcases renewed with ⟨_, prototype, returns⟩ | fails
  · have keeps' := fun j (before : j ≤ i) => keeps j (Nat.le_trans before (Nat.le_of_lt earlier))
    rcases in_progress_of_first opened keeps' later (kept ▸ Option.some_ne_none o) first returns
      (if_pos rfl) with code | next
    · exact alone ⟨prototype, code⟩
    · have staged := (lookUps_run opened fun j before => keeps' j (Nat.le_trans before later)).1
      cases ((staged.lookUp_of_makes next (if_pos rfl)).2 prototype rfl).symm.trans kept
  · exact no_failure i earlier fails

theorem finds_same (opened : x.Opened c) (keeps : ∀ j ≤ n, (x.run j).KeepsClasses c)
    (no_failure : ∀ j < n, ¬ (x.run j).GivesUp c t) (le : m ≤ n) {o o' : ClassObjects}
    (finds : (x.run m).Finds c t o) (alone : ¬ (x.run m).InCreation c t)
    (finds' : (x.run n).Finds c t o') : o = o' := by
  have staged := (lookUps_run opened fun j before => keeps j (Nat.le_trans before le)).1
  have staged' := (lookUps_run opened keeps).1
  have still := class?_of_not_in_creation opened keeps no_failure le (staged.class?_of_finds finds)
    alone
  exact Option.some.inj (still.symm.trans (staged'.class?_of_finds finds'))

omit [Traced Obj] in
theorem not_givesUp_of_plan {types : TypeId → TypeDescriptor} {body : Call Obj → List (Order Obj τ)}
    {x : Execution (classPlan types body fun _ => false)} : ¬ x.GivesUp c t := by
  rintro ⟨o, thrown, orders, state, notes, _, _, turn⟩
  have move := congrArg Turn.move turn
  cases orders with
  | nil => cases move
  | cons order rest => cases order <;> cases move

def mainAndHelper (t : TypeId) : TypeDescriptor :=
  if t = ⟨1⟩ then { className := "Helper", installs := true } else { className := "Main" }

/-- The class is looked up twice. Code that creates it looks up the helper. -/
def mainReenters : Execution (classPlan mainAndHelper
    (fun
      | .createClass c ⟨0⟩ _ => [.procedure (.classObjects c ⟨1⟩)]
      | .install c _ _ => [.procedure (.classObjects c ⟨0⟩)]
      | _ => []) (fun _ => false) : Embedder Handle Manual) :=
  classesPlanned {} _ _ _ [.procedure (.classObjects ⟨1⟩ ⟨0⟩), .procedure (.classObjects ⟨1⟩ ⟨0⟩)]

/-- The installer of the helper finds a constructor and a prototype while the class is in creation.
They are replaced when the class has been created, and what is found then is found later on. -/
theorem reentrance_replaces_class :
    mainReenters.Opened ⟨1⟩ ∧ (∀ m ≤ 25, (mainReenters.run m).KeepsClasses ⟨1⟩) ∧
      (∀ m t, ¬ (mainReenters.run m).GivesUp ⟨1⟩ t) ∧
      (mainReenters.run 18).Finds ⟨1⟩ ⟨0⟩ ⟨⟨2, 0⟩, ⟨3, 0⟩⟩ ∧
      (mainReenters.run 18).InCreation ⟨1⟩ ⟨0⟩ ∧
      (mainReenters.run 22).Finds ⟨1⟩ ⟨0⟩ ⟨⟨4, 0⟩, ⟨5, 0⟩⟩ ∧
      (mainReenters.run 25).Finds ⟨1⟩ ⟨0⟩ ⟨⟨4, 0⟩, ⟨5, 0⟩⟩ ∧
      ∀ o, (mainReenters.run 25).Finds ⟨1⟩ ⟨0⟩ o → o = ⟨⟨4, 0⟩, ⟨5, 0⟩⟩ := by
  have opened : mainReenters.Opened ⟨1⟩ := opened_classesPlanned _ _
  have keeps : ∀ m ≤ 25, (mainReenters.run m).KeepsClasses ⟨1⟩ :=
    keepsClasses_of_plan (by decide +kernel)
  have anew : (mainReenters.run 22).Finds ⟨1⟩ ⟨0⟩ ⟨⟨4, 0⟩, ⟨5, 0⟩⟩ := ⟨_, rfl, rfl, rfl, rfl⟩
  have alone : ¬ (mainReenters.run 22).InCreation ⟨1⟩ ⟨0⟩ := by
    rintro ⟨prototype, mem⟩
    cases List.mem_singleton.mp mem
  refine ⟨opened, keeps, fun m t => not_givesUp_of_plan, ⟨_, rfl, rfl, rfl, rfl⟩,
    ⟨none, List.mem_cons_of_mem _ List.mem_cons_self⟩, anew, ⟨_, rfl, rfl, rfl, rfl⟩, ?_⟩
  intro o finds
  exact (finds_same opened keeps (fun _ _ => not_givesUp_of_plan) (by decide) anew alone finds).symm

end HostBridge.Execution
