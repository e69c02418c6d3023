import HostBridge.Proofs.Classes.Chain
import HostBridge.Proofs.Classes.Initialization
/-!
# Classes are made once

When all classes of a context are made by finite programs that do not fail, a class is created once
if it is looked up at all, or descends to one that is, and its members are installed once. Every
look-up brings the one constructor and the one prototype.
-/

namespace HostBridge.Execution

variable {Obj τ : Type} [Facility τ] [Traced Obj] {E : Embedder Obj τ} {x : Execution E}
  {c : ContextId} {S : Finset TypeId}

/-- The type is looked up, or one that descends from it. -/
def Wanted (x : Execution E) (c : ContextId) (t : TypeId) : Prop :=
  ∃ n k u resume, (x.run n).Requests k (.classObjects c u) resume ∧
    Relation.ReflTransGen (IsParent E.types) t u

/-- A call of the kind is made exactly once, and it returns what it was made for. -/
structure Once (x : Execution E) (kind : Call Obj → Prop) : Prop where
  unique : ∃! n, ∃ k, kind k ∧ (x.run n).AtTask (.call k)
  returns : ∀ n k, kind k → (x.run n).AtTask (.call k) →
    ∃ m r, n < m ∧ (x.run m).Returns k r ∧ k.Succeeds r

def Pair (x : Execution E) (c : ContextId) (t : TypeId) (o : ClassObjects) : Prop :=
  ∃ n, (x.run n).Creates c t o

/-! ## Every call returns -/

theorem Serves.returns (programmed : Programmed x c S) (serves : x.Serves c S) {n : Nat}
    {k : Call Obj} {t : TypeId} (next : (x.run n).AtTask (.call k)) (makes : k.makes? c = some t) :
    ∃ m r, n < m ∧ (x.run m).Returns k r ∧ k.Succeeds r := by
  obtain ⟨s, todo, at_bridge, first⟩ := next.bridge
  have entered : (x.run n).run 1 = ⟨(x.run n).world, (x.run n).state, .code k (E.enter k),
      { s with todo } :: (x.run n).below, .called k :: (x.run n).history⟩ := by
    rw [run_one_of_bridge at_bridge, work_call first]
  rw [← run_add] at entered
  have at_code : (x.run (n + 1)).focus = .code k (E.enter k) := by rw [entered]
  obtain ⟨_, program⟩ := (serves.abides (n + 1)).follows k _ t at_code makes
  have answers := serves.answers programmed
  obtain ⟨m, y, r, lasts, below, ⟨a, state, notes, here, turn⟩, succeeds⟩ :=
    program_ends program at_code fun m _ u _ resume requests => answers m u k resume requests
  refine ⟨n + 1 + m, r, by omega, ⟨a, state, notes, ?_, ?_, ?_⟩, succeeds⟩
  · rw [run_add, lasts.run, here]
  · rw [run_add, lasts.run, below, entered]
    exact List.cons_ne_nil _ _
  · rw [run_add, lasts.run, turn]

/-! ## A class is created once -/

theorem Serves.creates_unique (serves : x.Serves c S) {m n : Nat} {t : TypeId} {o o' : ClassObjects}
    (creates : (x.run m).Creates c t o) (creates' : (x.run n).Creates c t o') : m = n := by
  have ordered : ∀ {m n : Nat} {o o' : ClassObjects}, (x.run m).Creates c t o →
      (x.run n).Creates c t o' → ¬ m < n := by
    intro m n o o' first second lt
    have made := first.class? (serves.keeps m).valid
    have kept := (serves.run (m + 1)).class?_run made (n - (m + 1))
    rw [← run_add, Nat.add_sub_cancel' lt] at kept
    obtain ⟨parent, a, _, _, at_code, _⟩ := second
    cases ((serves.abides n).missing t parent a at_code).symm.trans kept
  exact Nat.le_antisymm (Nat.le_of_not_lt (ordered creates' creates))
    (Nat.le_of_not_lt (ordered creates creates'))

theorem Serves.pair_unique (serves : x.Serves c S) {t : TypeId} {o o' : ClassObjects}
    (pair : x.Pair c t o) (pair' : x.Pair c t o') : o = o' := by
  obtain ⟨m, creates⟩ := pair
  obtain ⟨n, creates'⟩ := pair'
  obtain rfl := serves.creates_unique creates creates'
  have made := creates.class? (serves.keeps m).valid
  exact Option.some.inj (made.symm.trans (creates'.class? (serves.keeps m).valid))

theorem undisturbed {k : Call Obj} {a : E.Activity} (program : LooksUp x c ∅ k a) {n : Nat}
    (at_code : (x.run n).focus = .code k a) :
    ∃ m ≥ n, (∀ l ≥ n, l ≤ m → (∃ a', (x.run l).focus = .code k a') ∧
        (x.run l).below = (x.run n).below) ∧
      ∃ r, (x.run m).Finishes k r ∧ k.Succeeds r := by
  induction program generalizing n with
  | @intro a proceeds performs only looks finishes proceeds_ih performs_ih looks_ih =>
    -- What is said of the code one step later is said of it now.
    have goes_on : (x.run (n + 1)).below = (x.run n).below →
        (∃ m ≥ n + 1, (∀ l ≥ n + 1, l ≤ m → (∃ a', (x.run l).focus = .code k a') ∧
            (x.run l).below = (x.run (n + 1)).below) ∧
          ∃ r, (x.run m).Finishes k r ∧ k.Succeeds r) →
        ∃ m ≥ n, (∀ l ≥ n, l ≤ m → (∃ a', (x.run l).focus = .code k a') ∧
            (x.run l).below = (x.run n).below) ∧
          ∃ r, (x.run m).Finishes k r ∧ k.Succeeds r := by
      rintro below ⟨m, ge, going, ends⟩
      refine ⟨m, Nat.le_of_succ_le ge, ?_, ends⟩
      intro l after le
      rcases Nat.eq_or_lt_of_le after with rfl | later
      · exact ⟨⟨a, at_code⟩, rfl⟩
      · rw [← below]
        exact going l later le
    obtain ⟨state, notes, move, turn, moves⟩ := exists_moves at_code
    cases move with
    | proceed a' =>
      obtain ⟨next, below, _⟩ := moves.proceeds
      rw [← run_add] at next below
      exact goes_on below (proceeds_ih n a' moves next)
    | command command resume =>
      obtain ⟨next, below, _⟩ := moves.performs
      rw [← run_add] at next below
      exact goes_on below (performs_ih n command resume moves next)
    | procedure p resume =>
      obtain ⟨t, none_allowed, _⟩ := only n p resume moves
      exact absurd none_allowed (Finset.notMem_empty t)
    | finish r =>
      refine ⟨n, Nat.le_refl n, ?_, r, ⟨a, state, notes, at_code, turn⟩, finishes n r moves⟩
      intro l after le
      rw [Nat.le_antisymm le after]
      exact ⟨⟨a, at_code⟩, rfl⟩

theorem Serves.create_unique (serves : x.Serves c S) {m n : Nat} {t : TypeId}
    {p p' : Option Handle} (next : (x.run m).AtTask (.call (.createClass c t p)))
    (next' : (x.run n).AtTask (.call (.createClass c t p'))) : m = n := by
  have ordered : ∀ {m n : Nat} {p p' : Option Handle},
      (x.run m).AtTask (.call (.createClass c t p)) →
      (x.run n).AtTask (.call (.createClass c t p')) → ¬ m < n := by
    intro m n p p' first second lt
    obtain ⟨s, todo, at_bridge, first⟩ := first.bridge
    have entered : x.run (m + 1) = ⟨(x.run m).world, (x.run m).state,
        .code (.createClass c t p) (E.enter (.createClass c t p)),
        { s with todo } :: (x.run m).below, .called (.createClass c t p) :: (x.run m).history⟩ := by
      rw [run_add, run_one_of_bridge at_bridge, work_call first]
    have at_code : (x.run (m + 1)).focus =
        .code (.createClass c t p) (E.enter (.createClass c t p)) := by rw [entered]
    obtain ⟨_, program⟩ := (serves.abides (m + 1)).follows _ _ t at_code (if_pos rfl)
    obtain ⟨l, ge, going, r, ⟨a, state, notes, here, turn⟩, o, rfl⟩ := undisturbed program at_code
    have past : l < n := by
      apply Nat.lt_of_not_le
      intro le
      obtain ⟨⟨a', code⟩, _⟩ := going n lt le
      have still : (x.run n).AtCode (.createClass c t p) := ⟨_, stack_of_code code⟩
      exact still.not_atTask _ second
    have called : (x.run l).below ≠ [] := by
      rw [(going l ge (Nat.le_refl l)).2, entered]
      exact List.cons_ne_nil _ _
    have creates : (x.run l).Creates c t o := ⟨p, a, state, notes, here, called, turn⟩
    have made := creates.class? (serves.keeps l).valid
    have kept := (serves.run (l + 1)).class?_run made (n - (l + 1))
    rw [← run_add, Nat.add_sub_cancel' past] at kept
    have missing := ((serves.abides n).staged.lookUp_of_makes second (if_pos rfl)).2 p' rfl
    cases missing.symm.trans kept
  exact Nat.le_antisymm (Nat.le_of_not_lt (ordered next' next))
    (Nat.le_of_not_lt (ordered next next'))

/-! ## What is looked up is made -/

theorem begins_of_code (opened : x.Opened c) {n : Nat} {k : Call Obj}
    (mem : .code k ∈ (x.run n).stack) (makes : k.makes? c ≠ none) :
    ∃ m < n, (x.run m).AtTask (.call k) := by
  rcases called_of_code (Nat.zero_le n) mem with start | ⟨m, _, lt, next⟩
  · rcases code_of_mem start with ⟨a, at_code⟩ | ⟨s, frame, rfl⟩
    · exact absurd (opened.no_making k a at_code) makes
    · exact absurd (opened.no_lookUp s frame).2.2 makes
  · exact ⟨m, lt, next⟩

theorem wanted_of_makes (opened : x.Opened c) (serves : x.Serves c S) {n : Nat} {k : Call Obj}
    (next : (x.run n).AtTask (.call k)) {t : TypeId} (makes : k.makes? c = some t) :
    x.Wanted c t := by
  obtain ⟨⟨s, u, todo, at_bridge, looks, rest⟩, _⟩ :=
    (serves.abides n).staged.lookUp_of_makes next makes
  have frame : s ∈ (x.run n).frames := frames_of_bridge at_bridge ▸ List.mem_cons_self
  rcases frame_requested frame with ⟨s', start, _, same⟩ | ⟨m, _, requests⟩
  · exact absurd (same.trans looks) ((opened.no_lookUp s' start).1 u)
  · obtain ⟨k', procedure, resume, left, progress⟩ := s
    obtain rfl : procedure = .classObjects c u := looks
    exact ⟨m, k', u, resume, requests, rest.ancestor⟩

theorem kept_of_ancestor (opened : x.Opened c) (serves : x.Serves c S) {n : Nat} {t u : TypeId}
    (ancestor : Relation.ReflTransGen (IsParent E.types) t u) {o : ClassObjects}
    (kept : (x.run n).world.class? c u = some o) :
    ∃ o', (x.run n).world.class? c t = some o' := by
  induction ancestor using Relation.ReflTransGen.head_induction_on with
  | refl => exact ⟨o, kept⟩
  | @head q t parent _ ih =>
    obtain ⟨o', kept'⟩ := ih
    have keeps := fun j (_ : j ≤ n) => serves.keeps j
    obtain ⟨m, prototype, created⟩ := created_run opened keeps kept'
    obtain ⟨p, found, _⟩ := (World.inherits_iff parent).mp (created.inherits opened keeps).2
    have still := (serves.run m).class?_run found (n - m)
    rw [← run_add, Nat.add_sub_cancel' (Nat.le_of_lt created.earlier)] at still
    exact ⟨p, still⟩

theorem created_of_wanted (programmed : Programmed x c S) (opened : x.Opened c)
    (serves : x.Serves c S) {t : TypeId} (wanted : x.Wanted c t) :
    ∃ n o, (x.run n).Creates c t o := by
  obtain ⟨n, k, u, resume, requests, ancestor⟩ := wanted
  obtain ⟨m, y, o, resumes, _, _, kept⟩ := serves.answers programmed n u k resume requests
  rw [← resumes.run, ← run_add] at kept
  obtain ⟨o', kept'⟩ := kept_of_ancestor opened serves ancestor kept
  obtain ⟨l, prototype, created⟩ := created_run opened (fun j _ => serves.keeps j) kept'
  exact ⟨l, o', prototype, created.returns⟩

/-! ## Installing members -/

omit [Traced Obj] in
theorem Brings.install_inv {y : Execution E} {k : Call Obj} (brings : y.Brings (.call k))
    {t : TypeId} {o : ClassObjects} (installs : k = .install c t o) :
    y.Creates c t o ∧ (E.types t).installs = true := by
  cases brings with
  | install returns flagged =>
    cases installs
    exact ⟨⟨_, returns⟩, flagged⟩
  | frameCall =>
    have makes := congrArg (Call.makes? c) installs
    rw [Task.frameCall_makes?] at makes
    simp [Call.makes?] at makes
  | _ => cases installs

theorem Serves.created_of_install (serves : x.Serves c S) (opened : x.Opened c) {n : Nat}
    {t : TypeId} {o : ClassObjects} (next : (x.run n).AtTask (.call (.install c t o))) :
    ∃ m, n = m + 1 ∧ (x.run m).Creates c t o ∧ (E.types t).installs = true := by
  have makes : (Call.install c t o : Call Obj).makes? c ≠ none := by simp [Call.makes?]
  cases n with
  | zero =>
    obtain ⟨s, todo, at_bridge, first⟩ := next.bridge
    have frame : s ∈ x.frames := frames_of_bridge at_bridge ▸ List.mem_cons_self
    have no_lookUp := (opened.no_lookUp s frame).2.1
    exact absurd makes (no_lookUp (.call (.install c t o)) (first ▸ List.mem_cons_self))
  | succ m =>
    refine ⟨m, rfl, ?_⟩
    obtain ⟨rest, top⟩ := next
    have mem : .task (.call (.install c t o)) ∈ (x.run (m + 1)).stack := top ▸ List.mem_cons_self
    rcases (x.run_rewrites m).mem_cases mem with old | ⟨_, same, brings⟩ | ⟨_, same, _⟩
    · obtain ⟨_, before⟩ := (serves.abides m).staged.atTask_of_makes old makes
      cases top.symm.trans ((x.run_rewrites m).of_call before).1
    · obtain rfl := Item.task.inj same
      exact brings.install_inv rfl
    · cases same

theorem install_of_creates {n : Nat} {t : TypeId} {o : ClassObjects}
    (creates : (x.run n).Creates c t o) (installs : (E.types t).installs = true) :
    (x.run (n + 1)).AtTask (.call (.install c t o)) := by
  obtain ⟨parent, returns⟩ := creates
  obtain ⟨p, rest, _, stack⟩ := returns.stack
  simp only [Call.resume, installs] at stack
  exact ⟨rest, stack⟩

/-! ## A context whose classes are made by programs -/

structure MadeOnce (x : Execution E) (c : ContextId) (S : Finset TypeId) : Prop where
  created : ∀ t, x.Wanted c t → x.Once fun k => ∃ prototype, k = .createClass c t prototype
  installed : ∀ t, x.Wanted c t → (E.types t).installs = true →
    x.Once fun k => ∃ o, k = .install c t o
  nothing_else : ∀ n k t, (x.run n).AtTask (.call k) → k.makes? c = some t →
    x.Wanted c t ∧ ∀ o, k = .install c t o → (E.types t).installs = true ∧ x.Pair c t o
  based : ∀ n t prototype, (x.run n).AtTask (.call (.createClass c t prototype)) →
    match (E.types t).parent with
    | none => prototype = none
    | some q => ∃ m < n, ∃ o, (x.run m).Creates c q o ∧ prototype = some o.prototype
  pair_unique : ∀ t o o', x.Pair c t o → x.Pair c t o' → o = o'
  answers : ∀ n t k resume, (x.run n).Requests k (.classObjects c t) resume →
    ∃ o, x.Pair c t o ∧ ∃ m y, (x.run n).Resumes m y ∧ y.focus = .code k (resume (.ok o))
  ends : ∀ n k a, (x.run n).focus = .code k a → LooksUp x c S k a →
    ∃ m y r, (x.run n).Resumes m y ∧ y.Finishes k r

/-- Classes that are made by finite programs are made once. -/
theorem made_once (programmed : Programmed x c S) (opened : x.Opened c)
    (keeps : ∀ n, (x.run n).KeepsClasses c)
    (asked : ∀ n k t resume, (x.run n).Requests k (.classObjects c t) resume → t ∈ S) :
    x.MadeOnce c S := by
  have serves := serves_run programmed opened keeps asked
  have answers := serves.answers programmed
  constructor
  · intro t wanted
    obtain ⟨m, o, prototype, returns⟩ := created_of_wanted programmed opened serves wanted
    obtain ⟨_, top⟩ := returns.atCode
    obtain ⟨n, _, next⟩ := begins_of_code (k := .createClass c t prototype) opened
      (top ▸ List.mem_cons_self) (by simp [Call.makes?])
    refine ⟨⟨n, ⟨_, ⟨prototype, rfl⟩, next⟩, ?_⟩, ?_⟩
    · rintro n' ⟨_, ⟨prototype', rfl⟩, next'⟩
      exact serves.create_unique next' next
    · rintro n' _ ⟨prototype', rfl⟩ next'
      exact serves.returns programmed next' (if_pos rfl)
  · intro t wanted installs
    obtain ⟨m, o, creates⟩ := created_of_wanted programmed opened serves wanted
    refine ⟨⟨m + 1, ⟨_, ⟨o, rfl⟩, install_of_creates creates installs⟩, ?_⟩, ?_⟩
    · rintro n' ⟨_, ⟨o', rfl⟩, next'⟩
      obtain ⟨m', rfl, creates', _⟩ := serves.created_of_install opened next'
      rw [serves.creates_unique creates' creates]
    · rintro n' _ ⟨o', rfl⟩ next'
      exact serves.returns programmed next' (if_pos rfl)
  · intro n k t next makes
    refine ⟨wanted_of_makes opened serves next makes, ?_⟩
    rintro o rfl
    obtain ⟨m, _, creates, installs⟩ := serves.created_of_install opened next
    exact ⟨installs, m, creates⟩
  · intro n t prototype next
    obtain ⟨_, inherits⟩ := (serves.abides n).staged.holds next rfl
    cases parent : (E.types t).parent with
    | none =>
      rw [World.Inherits, parent] at inherits
      exact inherits
    | some q =>
      obtain ⟨o, kept, given⟩ := (World.inherits_iff parent).mp inherits
      obtain ⟨m, _, created⟩ := created_run opened (fun j _ => keeps j) kept
      exact ⟨m, created.earlier, o, ⟨_, created.returns⟩, given⟩
  · exact fun t o o' pair pair' => serves.pair_unique pair pair'
  · intro n t k resume requests
    obtain ⟨m, y, o, resumes, focus, _, kept⟩ := answers n t k resume requests
    rw [← resumes.run, ← run_add] at kept
    obtain ⟨l, _, created⟩ := created_run opened (fun j _ => keeps j) kept
    exact ⟨o, ⟨l, _, created.returns⟩, m, y, resumes, focus⟩
  · intro n k a at_code program
    obtain ⟨m, y, r, resumes, _, finishes, _⟩ := program_ends program at_code
      fun m _ t _ resume requests => answers m t k resume requests
    exact ⟨m, y, r, resumes, finishes⟩

/-! ## Planned programs -/

variable {types : TypeId → TypeDescriptor} {body : Call Obj → List (Order Obj τ)}

theorem looksUp_of_plan {x : Execution (classPlan types body fun _ => false)} {k : Call Obj}
    {orders : List (Order Obj τ)}
    (only : ∀ order ∈ orders, ∃ t ∈ S, order = .procedure (.classObjects c t)) :
    LooksUp x c S k orders := by
  induction orders with
  | nil =>
    constructor
    · rintro n a' ⟨_, move⟩
      cases k <;> cases move
    · rintro n command resume ⟨_, move⟩
      cases k <;> cases move
    · rintro n p resume ⟨_, move⟩
      cases k <;> cases move
    · rintro n t resume ⟨_, move⟩
      cases k <;> cases move
    · rintro n r ⟨_, move⟩
      cases k with
      | createClass =>
        cases move
        exact ⟨_, rfl⟩
      | install =>
        cases move
        rfl
      | _ => trivial
  | cons order rest ih =>
    obtain ⟨t, mem, rfl⟩ := only order List.mem_cons_self
    have program := ih fun order later => only order (List.mem_cons_of_mem _ later)
    constructor
    · rintro n a' ⟨_, move⟩
      cases move
    · rintro n command resume ⟨_, move⟩
      cases move
    · rintro n p resume ⟨_, move⟩
      cases move
      exact ⟨t, mem, rfl⟩
    · rintro n u resume ⟨_, move⟩ o
      cases move
      exact program
    · rintro n r ⟨_, move⟩
      cases move

def looksInto {throws : ClassObjects → Bool} (x : Execution (classPlan types body throws))
    (S : Finset TypeId) : Bool :=
  match x.focus with
  | .code _ (.procedure (.classObjects _ t) :: _ : List (Order Obj τ)) => decide (t ∈ S)
  | _ => true

omit [Traced Obj] in
theorem mem_of_looksInto {throws : ClassObjects → Bool}
    {x : Execution (classPlan types body throws)} (looks : x.looksInto S = true) {k : Call Obj}
    {t : TypeId} {resume : Except Value ClassObjects → (classPlan types body throws).Activity}
    (requests : x.Requests k (.classObjects c t) resume) : t ∈ S := by
  obtain ⟨orders, state, notes, at_code, turn⟩ := requests
  have move := congrArg Turn.move turn
  cases orders with
  | nil => cases k <;> cases move
  | cons order rest =>
    cases order with
    | command => cases move
    | procedure p =>
      cases move
      rw [looksInto, at_code] at looks
      exact of_decide_eq_true looks

theorem acyclic_of_lt {types : TypeId → TypeDescriptor}
    (older : ∀ q t, IsParent types q t → q.val < t.val) (t : TypeId) :
    ¬ Relation.TransGen (IsParent types) t t := by
  have ordered : ∀ u, Relation.TransGen (IsParent types) t u → t.val < u.val := by
    intro u descends
    induction descends with
    | single parent => exact older _ _ parent
    | tail _ parent ih => exact Nat.lt_trans ih (older _ _ parent)
  intro own
  exact Nat.lt_irrefl _ (ordered t own)

theorem baseAndSub_parent {q t : TypeId} (parent : (baseAndSub t).parent = some q) :
    q = ⟨0⟩ ∧ t = ⟨1⟩ := by
  unfold baseAndSub at parent
  split at parent
  · rename_i sub
    exact ⟨(Option.some.inj parent).symm, sub⟩
  · cases parent

/-- The base class and the subclass, which its installer looks up, are made once. -/
theorem base_and_sub_made_once : (baseTwice fun _ => false).MadeOnce ⟨1⟩ {⟨0⟩, ⟨1⟩} ∧
    (baseTwice fun _ => false).Wanted ⟨1⟩ ⟨1⟩ := by
  have halted : ((baseTwice fun _ => false).run 26).step = none := by rfl
  have kept : ∀ m < 27, ((baseTwice fun _ => false).run m).world.isValid ⟨1⟩ = true := by
    decide +kernel
  have into : ∀ m < 27, ((baseTwice fun _ => false).run m).looksInto {⟨0⟩, ⟨1⟩} = true := by
    decide +kernel
  refine ⟨made_once ⟨?_, ?_, ?_⟩ (baseTwice_opened _) ?_ ?_, ?_⟩
  · intro t _ q parent
    rw [(baseAndSub_parent parent).1]
    decide
  · intro t _
    apply acyclic_of_lt
    intro q t parent
    obtain ⟨rfl, rfl⟩ := baseAndSub_parent parent
    decide
  · intro k t _ makes
    apply looksUp_of_plan
    intro order mem
    rcases Call.eq_of_makes makes with ⟨prototype, rfl⟩ | ⟨o, rfl⟩
    · cases mem
    · exact ⟨⟨1⟩, by simp [Call.lookedUp], List.mem_singleton.mp mem⟩
  · intro n
    have valid : ((baseTwice fun _ => false).run n).world.isValid ⟨1⟩ = true :=
      run_of_halted (P := fun y => y.world.isValid ⟨1⟩ = true) halted (Nat.zero_le _)
        (fun m le _ => kept m (Nat.lt_succ_of_le le)) n (Nat.zero_le n)
    exact ⟨valid, fun _ _ _ => ⟨rfl, rfl⟩⟩
  · intro n k t resume requests
    refine mem_of_looksInto (S := {⟨0⟩, ⟨1⟩}) ?_ requests
    exact run_of_halted (P := fun y => y.looksInto {⟨0⟩, ⟨1⟩} = true) halted (Nat.zero_le _)
      (fun m le _ => into m (Nat.lt_succ_of_le le)) n (Nat.zero_le n)
  · exact ⟨6, _, ⟨1⟩, _, ⟨_, _, _, rfl, rfl⟩, .refl⟩

end HostBridge.Execution
