import HostBridge.Proofs.Classes.Reliance
import HostBridge.Proofs.Execution.Plan
/-!
# Prototype chains

A class is created with the prototype of its parent's class, and keeps it. The parent's class may be
made anew later on: then the prototype chain of the class leads to what is kept no more.
-/

namespace HostBridge

variable {Obj τ : Type} [Facility τ]

namespace Execution

variable {E : Embedder Obj τ}

def Renews (x : Execution E) (c : ContextId) (t : TypeId) : Prop :=
  (∃ o, x.Creates c t o) ∨ x.GivesUp c t

theorem Renews.returns {x : Execution E} {c : ContextId} {t : TypeId} (renews : x.Renews c t) :
    ∃ k r, x.Returns k r ∧ k.makes? c = some t := by
  rcases renews with ⟨o, parent, returns⟩ | ⟨o, thrown, returns⟩
  · exact ⟨_, _, returns, if_pos rfl⟩
  · exact ⟨_, _, returns, if_pos rfl⟩

variable [Traced Obj]

structure CreatedAt (x : Execution E) (c : ContextId) (t : TypeId) (o : ClassObjects)
    (prototype : Option Handle) (m n : Nat) : Prop where
  earlier : m < n
  returns : (x.run m).Returns (.createClass c t prototype) (.ok o)
  since : ∀ l, m < l → l < n → ¬ (x.run l).Renews c t

/-- No two classes that are created for the type within `n` steps have the same prototype. -/
def Distinct (x : Execution E) (c : ContextId) (t : TypeId) (n : Nat) : Prop :=
  ∀ l < n, ∀ l' < l, ∀ o o', (x.run l).Creates c t o → (x.run l').Creates c t o' →
    o.prototype ≠ o'.prototype

variable {x : Execution E} {c : ContextId} {t q : TypeId} {m n : Nat}

theorem class?_of_not_renewed (keeps : ∀ j ≤ n, (x.run j).KeepsClasses c) (le : m ≤ n)
    (since : ∀ l, m ≤ l → l < n → ¬ (x.run l).Renews c t) :
    (x.run n).world.class? c t = (x.run m).world.class? c t := by
  induction le with
  | refl => rfl
  | @step n le ih =>
    have before := ih (fun j le => keeps j (Nat.le_succ_of_le le))
      fun l after lt => since l after (Nat.lt_succ_of_lt lt)
    rw [← before]
    have valid := (keeps (n + 1) (Nat.le_refl _)).valid
    have change := run_class_change (keeps n (Nat.le_succ n)) valid t
    generalize (x.run (n + 1)).world.class? c t = o at change
    have quiet := since n le (Nat.lt_succ_self n)
    cases change with
    | kept => rfl
    | created creates => exact absurd (Or.inl ⟨_, creates⟩) quiet
    | failed fails => exact absurd (Or.inr fails) quiet

theorem created_run (opened : x.Opened c) (keeps : ∀ j ≤ n, (x.run j).KeepsClasses c)
    {o : ClassObjects} (kept : (x.run n).world.class? c t = some o) :
    ∃ m prototype, x.CreatedAt c t o prototype m n := by
  induction n with
  | zero => cases (opened.no_class t).symm.trans kept
  | succ n ih =>
    have valid := (keeps (n + 1) (Nat.le_refl _)).valid
    have change := run_class_change (keeps n (Nat.le_succ n)) valid t
    by_cases renewed : (x.run n).Renews c t
    · rcases renewed with ⟨o', creates⟩ | fails
      · have made := creates.class? (keeps n (Nat.le_succ n)).valid
        obtain rfl := Option.some.inj (made.symm.trans kept)
        obtain ⟨prototype, returns⟩ := creates
        refine ⟨n, prototype, Nat.lt_succ_self n, returns, ?_⟩
        intro l after before
        omega
      · cases fails.class?.symm.trans kept
    · have before : (x.run n).world.class? c t = some o := by
        rw [kept] at change
        generalize earlier : (x.run n).world.class? c t = o' at change
        cases change with
        | kept => rfl
        | created creates => exact absurd (Or.inl ⟨_, creates⟩) renewed
      obtain ⟨m, prototype, created⟩ := ih (fun j le => keeps j (Nat.le_succ_of_le le)) before
      refine ⟨m, prototype, Nat.lt_succ_of_lt created.earlier, created.returns, ?_⟩
      intro l after before
      rcases Nat.lt_succ_iff_lt_or_eq.mp before with earlier | rfl
      · exact created.since l after earlier
      · exact renewed

theorem CreatedAt.inherits (opened : x.Opened c) (keeps : ∀ j ≤ n, (x.run j).KeepsClasses c)
    {o : ClassObjects} {prototype : Option Handle} (created : x.CreatedAt c t o prototype m n) :
    (E.types t).parent ≠ some t ∧ (x.run m).world.Inherits E.types c t prototype := by
  have reliant := (lookUps_run (n := m) opened
    fun j le => keeps j (Nat.le_trans le (Nat.le_of_lt created.earlier))).2
  obtain ⟨rest, top⟩ := created.returns.atCode
  exact (reliant [] _ rest top).1 rfl

theorem called_of_code {k : Call Obj} (le : m ≤ n) (mem : .code k ∈ (x.run n).stack) :
    .code k ∈ (x.run m).stack ∨ ∃ l, m ≤ l ∧ l < n ∧ (x.run l).AtTask (.call k) := by
  induction le with
  | refl => exact Or.inl mem
  | @step n le ih =>
    rcases (x.run_rewrites n).mem_cases mem with old | ⟨_, same, _⟩ | ⟨k', same, next⟩
    · rcases ih old with before | ⟨l, after, lt, next⟩
      · exact Or.inl before
      · exact Or.inr ⟨l, after, Nat.lt_succ_of_lt lt, next⟩
    · cases same
    · obtain rfl := Item.code.inj same
      exact Or.inr ⟨n, le, Nat.lt_succ_self n, next⟩

theorem CreatedAt.not_renews (opened : x.Opened c) (keeps : ∀ j ≤ n, (x.run j).KeepsClasses c)
    {o : ClassObjects} {prototype : Option Handle} (created : x.CreatedAt c t o prototype m n)
    (child : (E.types t).parent = some q) : ¬ (x.run m).Renews c q := by
  intro renews
  obtain ⟨k, r, returns, makes⟩ := renews.returns
  obtain ⟨_, top⟩ := created.returns.atCode
  obtain ⟨_, top'⟩ := returns.atCode
  obtain ⟨same, _⟩ := List.cons.inj (top.symm.trans top')
  obtain rfl := Item.code.inj same
  simp only [Call.makes?, if_true, Option.some.injEq] at makes
  exact (created.inherits opened keeps).1 (makes ▸ child)

/-- A class that is kept is renewed first by a call that is in progress by then, or made at once. -/
theorem in_progress_of_first (opened : x.Opened c) (keeps : ∀ j ≤ n, (x.run j).KeepsClasses c)
    (le : m ≤ n) (kept : (x.run m).world.class? c t ≠ none)
    (first : ∀ i, m ≤ i → i < n → ¬ (x.run i).Renews c t) {k : Call Obj} {r : k.Reply}
    (returns : (x.run n).Returns k r) (makes : k.makes? c = some t) :
    .code k ∈ (x.run m).stack ∨ (x.run m).AtTask (.call k) := by
  obtain ⟨_, top⟩ := returns.atCode
  have code : .code k ∈ (x.run n).stack := top ▸ List.mem_cons_self
  rcases called_of_code le code with before | ⟨j, after, earlier, next⟩
  · exact Or.inl before
  obtain ⟨_, next⟩ := next
  have waits : .task (.call k) ∈ (x.run j).stack := next ▸ List.mem_cons_self
  rcases brings_of_mem after waits with before | ⟨i, after', earlier', brings⟩
  · have staged := (lookUps_run opened fun j before => keeps j (Nat.le_trans before le)).1
    exact Or.inr (staged.atTask_of_makes before (makes ▸ Option.some_ne_none t))
  · exfalso
    have lt : i < n := Nat.lt_trans earlier' earlier
    rcases brings.makes (keeps i (Nat.le_of_lt lt)) makes with missing | made
    · have same := class?_of_not_renewed
        (fun j before => keeps j (Nat.le_trans before (Nat.le_of_lt lt))) after'
        fun j later before => first j later (Nat.lt_trans before lt)
      exact kept (same.symm.trans missing)
    · exact first i after' lt (Or.inl made)

theorem exists_first_renewal {l : Nat} (le : m ≤ l) (renews : (x.run l).Renews c t) :
    ∃ i, m ≤ i ∧ i ≤ l ∧ (x.run i).Renews c t ∧ ∀ j, m ≤ j → j < i → ¬ (x.run j).Renews c t := by
  induction l using Nat.strongRecOn with
  | ind l ih =>
    by_cases again : ∃ i, m ≤ i ∧ i < l ∧ (x.run i).Renews c t
    · obtain ⟨i, after, before, renewed⟩ := again
      obtain ⟨i', after', before', first⟩ := ih i before after renewed
      exact ⟨i', after', Nat.le_trans before' (Nat.le_of_lt before), first⟩
    · exact ⟨l, le, Nat.le_refl l, renews, fun j after before renewed =>
        again ⟨j, after, before, renewed⟩⟩

/-- Only a call that was in progress when the class was created renews the parent's class first. -/
theorem CreatedAt.in_progress (opened : x.Opened c) (keeps : ∀ j ≤ n, (x.run j).KeepsClasses c)
    {o : ClassObjects} {prototype : Option Handle} (created : x.CreatedAt c t o prototype m n)
    (child : (E.types t).parent = some q) {l : Nat} (after : m < l) (lt : l < n)
    (renews : (x.run l).Renews c q) : ∃ k, .code k ∈ (x.run m).stack ∧ k.makes? c = some q := by
  obtain ⟨i, later, le, renewed, first⟩ := exists_first_renewal after renews
  have unrenewed : ∀ j, m ≤ j → j < i → ¬ (x.run j).Renews c q := by
    intro j le' earlier
    rcases Nat.eq_or_lt_of_le le' with rfl | between
    · exact created.not_renews opened keeps child
    · exact first j between earlier
  obtain ⟨p, found, _⟩ := (World.inherits_iff child).mp (created.inherits opened keeps).2
  obtain ⟨k, r, returns, makes⟩ := renewed.returns
  rcases in_progress_of_first opened
    (fun j before => keeps j (Nat.le_trans before (Nat.le_of_lt (Nat.lt_of_le_of_lt le lt))))
    (Nat.le_of_lt later) (found ▸ Option.some_ne_none p) unrenewed returns makes with before | next
  · exact ⟨k, before, makes⟩
  · exact absurd next (created.returns.atCode.not_atTask _)

/-- The prototype chain of a class, from its creation by the `m`th step to the `n`th state; `q` is its
parent. -/
structure Chain (x : Execution E) (c : ContextId) (t q : TypeId) (prototype : Option Handle)
    (m n : Nat) : Prop where
  whole : (∀ l, m < l → l < n → ¬ (x.run l).Renews c q) →
    (x.run n).world.Inherits E.types c t prototype
  broken : x.Distinct c q n → ∀ l, m < l → l < n → (x.run l).Renews c q →
    ¬ (x.run n).world.Inherits E.types c t prototype
  in_progress : ∀ l, m < l → l < n → (x.run l).Renews c q →
    ∃ k, .code k ∈ (x.run m).stack ∧ k.makes? c = some q

/-- A class that is kept was created on the prototype of its parent's class, and it is chained to
that class exactly until that is renewed. -/
theorem chain_run (opened : x.Opened c) (keeps : ∀ j ≤ n, (x.run j).KeepsClasses c)
    (child : (E.types t).parent = some q) {o : ClassObjects}
    (kept : (x.run n).world.class? c t = some o) :
    ∃ m prototype, x.CreatedAt c t o prototype m n ∧
      (x.run m).world.Inherits E.types c t prototype ∧ x.Chain c t q prototype m n := by
  obtain ⟨m, prototype, created⟩ := created_run opened keeps kept
  have le : m ≤ n := Nat.le_of_lt created.earlier
  have inherits := (created.inherits opened keeps).2
  obtain ⟨p, found, given⟩ := (World.inherits_iff child).mp inherits
  refine ⟨m, prototype, created, inherits, ?_, ?_, fun l => created.in_progress opened keeps child⟩
  · intro quiet
    have same : (x.run n).world.class? c q = (x.run m).world.class? c q := by
      apply class?_of_not_renewed keeps le
      intro l after lt
      rcases Nat.eq_or_lt_of_le after with rfl | later
      · exact created.not_renews opened keeps child
      · exact quiet l later lt
    exact (World.inherits_iff child).mpr ⟨p, same.trans found, given⟩
  · intro distinct l after lt renews still
    obtain ⟨p', found', given'⟩ := (World.inherits_iff child).mp still
    obtain ⟨i, _, earlier⟩ := created_run opened
      (fun j before => keeps j (Nat.le_trans before le)) found
    obtain ⟨i', _, later⟩ := created_run opened keeps found'
    have order : l ≤ i' := by
      apply Nat.le_of_not_lt
      intro before
      exact later.since l before lt renews
    have before : i < i' := Nat.lt_of_lt_of_le (Nat.lt_trans earlier.earlier after) order
    apply distinct i' later.earlier i before p' p ⟨_, later.returns⟩ ⟨_, earlier.returns⟩
    exact Option.some.inj (given'.symm.trans given)

end Execution

/-- A plan with an engine that makes a new constructor and a new prototype for every class. It counts
the objects it has made, and keeps them alive. -/
def classPlan (types : TypeId → TypeDescriptor) (body : Call Obj → List (Order Obj τ))
    (throws : ClassObjects → Bool) : Embedder Obj τ where
  State := UInt32
  Activity := List (Order Obj τ)
  Note := Empty
  types := types
  alive _ _ _ := true
  enter := body
  next k _ made orders := match orders, k with
    | .command c :: rest, _ => ⟨made, [], .command c fun _ => rest⟩
    | .procedure p :: rest, _ => ⟨made, [], .procedure p fun _ => rest⟩
    | [], .createClass .. => ⟨made + 2, [], .finish (.ok ⟨⟨made, 0⟩, ⟨made + 1, 0⟩⟩)⟩
    | [], .install _ _ o => ⟨made, [], .finish (if throws o then .error .undefined else .ok ())⟩
    | [], k => ⟨made, [], .finish k.plainReply⟩

namespace Execution

variable {types : TypeId → TypeDescriptor} {body : Call Obj → List (Order Obj τ)}
  {throws : ClassObjects → Bool}

def classesPlanned (facility : τ) (types : TypeId → TypeDescriptor)
    (body : Call Obj → List (Order Obj τ)) (throws : ClassObjects → Bool)
    (orders : List (Order Obj τ)) : Execution (classPlan types body throws) :=
  start (World.createContext { heap := .withThreshold 1024, facility } none) (0 : UInt32) orders

theorem opened_classesPlanned (facility : τ) (orders : List (Order Obj τ)) :
    (classesPlanned facility types body throws orders).Opened ⟨1⟩ := by
  refine ⟨fun t => rfl, fun s mem => (by cases mem), ?_⟩
  intro k a at_code
  obtain ⟨rfl, _⟩ := Focus.code.inj at_code
  rfl

variable [Traced Obj]

theorem keepsClasses_of_plan {x : Execution (classPlan types body throws)} {c : ContextId} {n : Nat}
    (valid : ∀ m < n + 1, (x.run m).world.isValid c = true) : ∀ m ≤ n, (x.run m).KeepsClasses c :=
  fun m le => ⟨valid m (Nat.lt_succ_of_le le), fun _ _ _ => ⟨rfl, rfl⟩⟩

def baseAndSub (t : TypeId) : TypeDescriptor :=
  if t = ⟨1⟩ then { className := "Sub", parent := some ⟨0⟩ }
  else { className := "Base", installs := true }

def baseTwice (throws : ClassObjects → Bool) : Execution (classPlan baseAndSub
    (fun
      | .install c _ _ => [.procedure (.classObjects c ⟨1⟩)]
      | _ => []) throws : Embedder Handle Manual) :=
  classesPlanned {} _ _ _ [.procedure (.classObjects ⟨1⟩ ⟨0⟩), .procedure (.classObjects ⟨1⟩ ⟨0⟩)]

theorem baseTwice_opened (throws : ClassObjects → Bool) : (baseTwice throws).Opened ⟨1⟩ :=
  opened_classesPlanned _ _

/-- The subclass is created while the base class is installed, and chained to it. -/
theorem sub_is_chained : ∃ m prototype,
    (baseTwice fun _ => false).CreatedAt ⟨1⟩ ⟨1⟩ ⟨⟨2, 0⟩, ⟨3, 0⟩⟩ prototype m 18 ∧
      ((baseTwice fun _ => false).run m).world.Inherits baseAndSub ⟨1⟩ ⟨1⟩ prototype ∧
      (baseTwice fun _ => false).Chain ⟨1⟩ ⟨1⟩ ⟨0⟩ prototype m 18 :=
  chain_run (baseTwice_opened _) (keepsClasses_of_plan (by decide +kernel)) rfl
    (by decide +kernel)

def baseFails := baseTwice fun o => o.prototype = ⟨1, 0⟩

/-- A base class whose installer fails at first leaves behind the subclass that it has looked up. The
base class is not kept, and when it has been made anew the subclass is still chained to the old
one. -/
theorem sub_outlives_base :
    baseFails.Opened ⟨1⟩ ∧ (∀ m ≤ 26, (baseFails.run m).KeepsClasses ⟨1⟩) ∧
      (baseFails.run 11).Returns (.createClass ⟨1⟩ ⟨1⟩ (some ⟨1, 0⟩)) (.ok ⟨⟨2, 0⟩, ⟨3, 0⟩⟩) ∧
      (baseFails.run 15).world.class? ⟨1⟩ ⟨1⟩ = some ⟨⟨2, 0⟩, ⟨3, 0⟩⟩ ∧
      (baseFails.run 15).world.class? ⟨1⟩ ⟨0⟩ = none ∧
      (baseFails.run 26).world.class? ⟨1⟩ ⟨1⟩ = some ⟨⟨2, 0⟩, ⟨3, 0⟩⟩ ∧
      ¬ (baseFails.run 26).world.Inherits baseAndSub ⟨1⟩ ⟨1⟩ (some ⟨1, 0⟩) := by
  have anew : (baseFails.run 26).world.class? ⟨1⟩ ⟨0⟩ = some ⟨⟨4, 0⟩, ⟨5, 0⟩⟩ := by decide +kernel
  refine ⟨baseTwice_opened _, keepsClasses_of_plan (by decide +kernel),
    ⟨[], (4 : UInt32), [], rfl, ?_, rfl⟩, by decide +kernel, by decide +kernel, by decide +kernel, ?_⟩
  · intro nothing
    cases nothing
  · intro chained
    obtain ⟨o, found, given⟩ := (World.inherits_iff rfl).mp chained
    obtain rfl := Option.some.inj (anew.symm.trans found)
    exact absurd given (by decide)

end Execution

end HostBridge
