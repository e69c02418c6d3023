import HostBridge.Proofs.Execution.Extent
import HostBridge.Proofs.Execution.Stack
/-!
# Tasks in their turn

The tasks of a procedure come next one after the other, each when the one before it, with all that
came of it, is done with. The procedure is in focus again then, with the tasks that are left, and has
counted what its own tasks count.
-/

namespace HostBridge

variable {Obj τ : Type}

def Task.Counts : Task Obj → Prop
  | fire .. | frame .. | markAndSweep => True
  | _ => False

theorem Task.run_count [Traced Obj] {t : Task Obj} (other : ¬ t.Counts) (env : Surroundings)
    (w : World Obj τ) (p : Progress) : (t.run env w p).progress.count = p.count := by
  cases t with
  | fire | frame | markAndSweep => exact absurd trivial other
  | drain | frames =>
    simp only [run]
    split
    · split <;> rfl
    · rfl
  | classObjects =>
    simp only [run]
    split
    · rfl
    · split <;> rfl
  | defineClass =>
    simp only [run]
    split
    · rfl
    · split <;> rfl
  | traceRoots r | traceComplete r => cases r <;> rfl
  | letGo =>
    simp only [run]
    split <;> rfl
  | call | dispatch | setLevel | retire | endDrain | flush | conclude => rfl

theorem Call.resume_count (types : TypeId → TypeDescriptor) (w : World Obj τ) (p : Progress)
    (k : Call Obj) (r : k.Reply) : (k.resume types w p r).progress.count = p.count := by
  cases k with
  | function | createClass | install => rcases r with _ | _ <;> rfl
  | job => rcases r with _ | _ | _ <;> rfl
  | session | native | report | typeError | event | traceRoots | traceComplete | drop => rfl

namespace Execution

variable [Facility τ] {E : Embedder Obj τ}

def Hosts (x : Execution E) (s : Suspended E) (below : List (Suspended E)) (count : Nat) : Prop :=
  ∃ inner todo p, x.frames = inner ++ { s with todo, progress := p } :: below ∧ p.count = count

variable [Traced Obj]

/-- The tasks come next in turn, the first after `m` steps, each when the one before it is done with.
After `n` steps the last is. -/
inductive InTurn (x : Execution E) : Nat → List (Task Obj) → Nat → Prop
  | nil (n : Nat) : InTurn x n [] n
  | cons {m j n : Nat} {t : Task Obj} {ts : List (Task Obj)} (next : (x.run m).AtTask t)
      (finishes : (x.run m).FinishesAt j) (later : InTurn x (m + j) ts n) : InTurn x m (t :: ts) n

variable {x y : Execution E} {m n : Nat} {s : Suspended E} {below : List (Suspended E)} {count : Nat}

theorem FinishesAt.pos (finishes : x.FinishesAt n) : 0 < n := by
  obtain ⟨m, rfl, _⟩ := finishes.exists_succ
  exact Nat.succ_pos m

theorem FinishesAt.unique (finishes : x.FinishesAt m) (finishes' : x.FinishesAt n) : m = n := by
  rcases Nat.lt_trichotomy m n with lt | same | lt
  · have long := finishes'.1 m lt
    have short := finishes.2
    omega
  · exact same
  · have long := finishes.1 n lt
    have short := finishes'.2
    omega

section Turns

variable {j k : Nat} {ts us : List (Task Obj)} {rest : List (Item Obj)}

theorem InTurn.le (turns : x.InTurn m ts n) : m ≤ n := by
  induction turns with
  | nil => exact Nat.le_refl _
  | cons _ _ _ ih => omega

theorem InTurn.unique (turns : x.InTurn m ts n) (turns' : x.InTurn m ts k) : n = k := by
  induction turns with
  | nil => cases turns'; rfl
  | cons _ finishes _ ih =>
    cases turns' with
    | cons _ finishes' later' =>
      obtain rfl := finishes.unique finishes'
      exact ih later'

theorem InTurn.append (turns : x.InTurn m ts k) (later : x.InTurn k us n) :
    x.InTurn m (ts ++ us) n := by
  induction turns with
  | nil => exact later
  | cons next finishes _ ih => exact .cons next finishes (ih later)

theorem InTurn.split (turns : x.InTurn m (ts ++ us) n) :
    ∃ k, x.InTurn m ts k ∧ x.InTurn k us n := by
  induction ts generalizing m with
  | nil => exact ⟨m, .nil m, turns⟩
  | cons t ts ih =>
    cases turns with
    | cons next finishes later =>
      obtain ⟨k, first, last⟩ := ih later
      exact ⟨k, .cons next finishes first, last⟩

theorem InTurn.stack (turns : x.InTurn m ts n) (top : (x.run m).stack = ts.map .task ++ rest) :
    (x.run n).stack = rest := by
  induction turns with
  | nil => exact top
  | cons _ finishes _ ih => exact ih (by rw [run_add]; exact finishes.stack top)

theorem InTurn.stack_within (turns : x.InTurn m ts n) (top : (x.run m).stack = ts.map .task ++ rest)
    {i : Nat} (after : m ≤ i) (le : i ≤ n) :
    ∃ pre, (x.run i).stack = pre ++ rest ∧ (i < n → pre ≠ []) := by
  induction turns with
  | nil =>
    obtain rfl : i = _ := Nat.le_antisymm le after
    exact ⟨[], top, fun lt => absurd lt (Nat.lt_irrefl _)⟩
  | @cons m j n t ts _ finishes later ih =>
    by_cases within : i < m + j
    · obtain ⟨d, rfl⟩ := Nat.exists_eq_add_of_le after
      have here : (x.run m).stack = .task t :: (ts.map .task ++ rest) := top
      obtain ⟨it, pre, stack⟩ := (finishes.unfinished (by omega : d < j)).stack here
      exact ⟨it :: (pre ++ ts.map .task), by rw [run_add, stack]; simp,
        fun _ => List.cons_ne_nil _ _⟩
    · exact ih (by rw [run_add]; exact finishes.stack top) (by omega) le

/-- Tasks on top of the stack have their turn, until one of them goes on and on. -/
theorem exists_inTurn (top : (x.run m).stack = ts.map .task ++ rest) (le : m ≤ n) :
    ∃ done left k, ts = done ++ left ∧ x.InTurn m done k ∧ k ≤ n ∧
      ∀ t ∈ left.head?, (x.run k).AtTask t ∧ (x.run k).Unfinished (n - k) := by
  induction ts generalizing m with
  | nil => exact ⟨[], [], m, rfl, .nil m, le, fun t mem => nomatch mem⟩
  | cons t ts ih =>
    have next : (x.run m).AtTask t := ⟨_, top⟩
    by_cases past : (x.run m).Unfinished (n - m)
    · refine ⟨[], t :: ts, m, rfl, .nil m, le, fun u mem => ?_⟩
      obtain rfl := Option.some.inj mem
      exact ⟨next, past⟩
    · obtain ⟨j, early, finishes⟩ := exists_finishesAt past
      obtain ⟨done, left, k, split, turns, before, goes_on⟩ :=
        ih (m := m + j) (by rw [run_add]; exact finishes.stack top) (by omega)
      exact ⟨t :: done, left, k, by rw [split]; rfl, .cons next finishes turns, before, goes_on⟩

theorem InTurn.finishesAt {i : Item Obj} (turns : x.InTurn (m + 1) ts n)
    (before : (x.run m).stack = i :: rest) (top : (x.run (m + 1)).stack = ts.map .task ++ rest) :
    (x.run m).FinishesAt (n - m) := by
  have late := turns.le
  constructor
  · intro l lt
    rw [← run_add, before]
    rcases Nat.eq_zero_or_pos l with rfl | pos
    · exact Nat.le_of_eq (congrArg List.length before.symm)
    · obtain ⟨pre, here, more⟩ := turns.stack_within top (i := m + l) (by omega) (by omega)
      have long := List.length_pos_iff.mpr (more (by omega))
      rw [here, List.length_append, List.length_cons]
      omega
  · rw [← run_add, Nat.add_sub_cancel' (by omega), turns.stack top, before]
    exact Nat.lt_succ_self _

theorem FinishesAt.inTurn {i : Item Obj} (finishes : (x.run m).FinishesAt j)
    (before : (x.run m).stack = i :: rest) (top : (x.run (m + 1)).stack = ts.map .task ++ rest) :
    x.InTurn (m + 1) ts (m + j) := by
  have positive := finishes.pos
  obtain ⟨done, left, k, rfl, turns, le, goes_on⟩ := exists_inTurn (n := m + j) top (by omega)
  cases left with
  | nil =>
    rw [List.append_nil] at top ⊢
    obtain rfl := finishes.unique (turns.finishesAt before top)
    rwa [Nat.add_sub_cancel' (Nat.le_of_succ_le turns.le)]
  | cons t left =>
    exfalso
    obtain ⟨_, past⟩ := goes_on t rfl
    rw [List.map_append, List.append_assoc] at top
    obtain ⟨u, pre, stack⟩ := past.stack (i := .task t) (turns.stack top)
    have down := finishes.stack before
    rw [← run_add, Nat.add_sub_cancel' le] at stack
    rw [← run_add, stack] at down
    have lengths := congrArg List.length down
    simp at lengths
    omega

end Turns

omit [Traced Obj] in
theorem countP_items (below : List (Suspended E)) :
    (below.flatMap Suspended.items).countP Item.isCode = below.length := by
  induction below with
  | nil => rfl
  | cons s below ih =>
    rw [List.flatMap_cons, List.countP_append, ih, Suspended.items, List.countP_append,
      countP_isCode_tasks, List.length_cons]
    simp [Item.isCode]
    omega

omit [Traced Obj] in
theorem countP_of_bridge (at_bridge : x.focus = .bridge s) :
    x.stack.countP Item.isCode = x.frames.length := by
  rw [stack_of_bridge at_bridge, frames_of_bridge at_bridge, List.countP_append,
    countP_isCode_tasks, List.countP_cons_of_pos rfl, countP_items, List.length_cons]
  omega

omit [Traced Obj] in
theorem countP_of_code {k : Call Obj} {a : E.Activity} (at_code : x.focus = .code k a) :
    x.stack.countP Item.isCode = x.frames.length + 1 := by
  rw [stack_of_code at_code, frames_of_code at_code, List.countP_cons_of_pos rfl, countP_items]

omit [Traced Obj] in
theorem AtTask.unique {t u : Task Obj} (next : x.AtTask t) (next' : x.AtTask u) : t = u := by
  obtain ⟨_, top⟩ := next
  obtain ⟨_, top'⟩ := next'
  exact Item.task.inj (List.cons.inj (top.symm.trans top')).1

inductive Stepped.Frames (x y : Execution E) : Prop
  | same (frames : y.frames = x.frames)
  | began (s : Suspended E) (frames : y.frames = s :: x.frames)
  | went (s : Suspended E) (rest : List (Suspended E)) (todo : List (Task Obj)) (p : Progress)
      (before : x.frames = s :: rest) (frames : y.frames = { s with todo, progress := p } :: rest)
      (counted : p.count = s.progress.count ∨ ∃ t, x.AtTask t ∧ t.Counts)
  | ended (s : Suspended E) (at_bridge : x.focus = .bridge s) (done : s.todo = [])
      (frames : y.frames = x.below)

theorem Stepped.frames (stepped : Stepped x y) : Stepped.Frames x y := by
  cases stepped with
  | proceed at_code | command at_code =>
    exact .same (by rw [frames_of_code at_code, frames_of_code rfl])
  | procedure at_code => exact .began _ (by rw [frames_of_bridge rfl, frames_of_code at_code])
  | halt at_code _ alone => exact .same (by rw [frames_of_code at_code, alone]; rfl)
  | @finish k _ _ _ r s below at_code _ caller =>
    refine .went s below _ _ ?_ (frames_of_bridge rfl) (Or.inl ?_)
    · rw [frames_of_code at_code, caller]
    · exact Call.resume_count E.types x.world s.progress k r
  | ended at_bridge done => exact .ended _ at_bridge done (frames_of_code rfl)
  | @called s k todo at_bridge =>
    exact .went s x.below todo s.progress (frames_of_bridge at_bridge) (frames_of_code rfl)
      (Or.inl rfl)
  | @worked s t todo at_bridge next =>
    refine .went s x.below _ _ (frames_of_bridge at_bridge) (frames_of_bridge rfl) ?_
    by_cases counts : t.Counts
    · exact Or.inr ⟨t, atTask_of_bridge at_bridge next, counts⟩
    · exact Or.inl (Task.run_count counts _ _ _)

theorem Stepped.stays (stepped : Stepped x y) {inner : List (Suspended E)} {left : List (Task Obj)}
    {p : Progress} (frames : x.frames = inner ++ { s with todo := left, progress := p } :: below)
    {pre : List (Item Obj)} (more : pre ≠ [])
    (here : x.stack = pre ++ .code s.k :: below.flatMap Suspended.items) :
    ∃ inner' left' p', y.frames = inner' ++ { s with todo := left', progress := p' } :: below ∧
      (p'.count = p.count ∨ inner = [] ∧ ∃ t, x.AtTask t ∧ t.Counts) := by
  cases stepped.frames with
  | same kept => exact ⟨inner, left, p, kept.trans frames, Or.inl rfl⟩
  | began s' pushed => exact ⟨s' :: inner, left, p, by rw [pushed, frames]; rfl, Or.inl rfl⟩
  | went s' rest todo' p' before after counted =>
    rw [before] at frames
    cases inner with
    | nil =>
      obtain ⟨rfl, rfl⟩ := List.cons.inj frames
      exact ⟨[], todo', p', after, counted.imp_right fun counts => ⟨rfl, counts⟩⟩
    | cons u inner =>
      obtain ⟨rfl, rfl⟩ := List.cons.inj frames
      exact ⟨_ :: inner, left, p, after, Or.inl rfl⟩
  | ended s' at_bridge done after =>
    rw [frames_of_bridge at_bridge] at frames
    cases inner with
    | nil =>
      exfalso
      obtain ⟨rfl, rfl⟩ := List.cons.inj frames
      rw [stack_of_bridge at_bridge, done] at here
      have lengths := congrArg List.length here
      have long := List.length_pos_iff.mpr more
      simp only [List.map_nil, List.nil_append, List.length_append, List.length_cons] at lengths
      omega
    | cons u inner =>
      obtain ⟨_, is⟩ := List.cons.inj frames
      exact ⟨inner, left, p, after.trans is, Or.inl rfl⟩

/-- Below tasks of a kind that counts nothing, or what comes of them, the procedure does not end and
keeps its count. -/
theorem Stepped.hosts {S : Task Obj → Prop} (silent : ∀ t, S t → ¬ t.Counts) (stepped : Stepped x y)
    (hosts : x.Hosts s below count) {pre : List (Item Obj)} {todo : List (Task Obj)}
    (confined : Confined τ S pre) (more : pre ≠ [])
    (here : x.stack = pre ++ (todo.map .task ++ .code s.k :: below.flatMap Suspended.items)) :
    y.Hosts s below count := by
  obtain ⟨inner, left, p, frames, same⟩ := hosts
  obtain ⟨inner', left', p', frames', kept⟩ := stepped.stays frames
    (List.append_ne_nil_of_left_ne_nil more _) (here.trans (List.append_assoc _ _ _).symm)
  refine ⟨inner', left', p', frames', ?_⟩
  rcases kept with kept | ⟨rfl, t, next, counts⟩
  · exact kept.trans same
  · -- The task is of the kind, as no code is on the stack above the procedure.
    exfalso
    have codes := congrArg (List.countP Item.isCode) here
    obtain ⟨s', _, at_bridge, _⟩ := next.bridge
    rw [countP_of_bridge at_bridge, frames, List.countP_append, List.countP_append,
      countP_isCode_tasks, List.countP_cons_of_pos rfl, countP_items, List.nil_append,
      List.length_cons] at codes
    obtain ⟨u, next', of_kind⟩ := confined.atTask here more (by omega)
    exact silent u of_kind (next.unique next' ▸ counts)

/-- When a task of a kind that counts nothing is done with, its procedure is in focus again with the
tasks behind it. -/
theorem FinishesAt.resumes {S : Task Obj → Prop} (keeps : Keeps τ S)
    (silent : ∀ t, S t → ¬ t.Counts) {t : Task Obj} {todo : List (Task Obj)}
    (at_bridge : x.focus = .bridge s) (next : s.todo = t :: todo) (of_kind : S t)
    (finishes : x.FinishesAt n) :
    ∃ p, (x.run n).focus = .bridge { s with todo, progress := p } ∧
      (x.run n).below = x.below ∧ p.count = s.progress.count := by
  have top : x.stack =
      .task t :: (todo.map .task ++ .code s.k :: x.below.flatMap Suspended.items) := by
    rw [stack_of_bridge at_bridge, next]
    rfl
  -- What comes of the task stays on top of the procedure, and it counts nothing there.
  have hosted : ∀ m ≤ n, (x.run m).Hosts s x.below s.progress.count ∧
      (m < n → ∃ pre, pre ≠ [] ∧ Confined τ S pre ∧ (x.run m).stack =
        pre ++ (todo.map .task ++ .code s.k :: x.below.flatMap Suspended.items)) := by
    intro m
    induction m with
    | zero =>
      intro _
      refine ⟨⟨[], s.todo, s.progress, frames_of_bridge at_bridge, rfl⟩, fun _ => ?_⟩
      exact ⟨[.task t], List.cons_ne_nil _ _, .own [t] (by simpa using of_kind), top⟩
    | succ m ih =>
      intro le
      obtain ⟨hosts, confined⟩ := ih (Nat.le_of_succ_le le)
      obtain ⟨pre, more, confined, here⟩ := confined le
      constructor
      · rcases run_succ_cases x m with same | stepped
        · rwa [same]
        · exact stepped.hosts silent hosts confined more here
      · intro lt
        obtain ⟨pre', stack, confined⟩ := (x.run_rewrites m).confined keeps confined here more
        refine ⟨pre', ?_, confined, stack⟩
        rintro rfl
        have long := finishes.1 (m + 1) lt
        rw [stack, top, List.length_cons, List.nil_append] at long
        omega
  obtain ⟨inner, left, p, frames, counted⟩ := (hosted n (Nat.le_refl n)).1
  have down := finishes.stack top
  have codes := congrArg (List.countP Item.isCode) down
  rw [List.countP_append, countP_isCode_tasks, List.countP_cons_of_pos rfl, countP_items] at codes
  rcases at_focus : (x.run n).focus with _ | ⟨k, a⟩ | s'
  · rw [Execution.stack, at_focus] at down
    simp at down
  · rw [countP_of_code at_focus, frames, List.length_append, List.length_cons] at codes
    omega
  · rw [countP_of_bridge at_focus, frames, List.length_append, List.length_cons] at codes
    obtain rfl : inner = [] := List.length_eq_zero_iff.mp (by omega)
    rw [frames_of_bridge at_focus] at frames
    obtain ⟨rfl, same⟩ := List.cons.inj frames
    rw [stack_of_bridge at_focus, same] at down
    have tasks := List.append_cancel_right down
    obtain rfl : left = todo := List.map_inj_right (fun _ _ => Item.task.inj) |>.mp tasks
    exact ⟨p, rfl, same, counted⟩

theorem InTurn.resumes {S : Task Obj → Prop} (keeps : Keeps τ S) (silent : ∀ t, S t → ¬ t.Counts)
    {ts todo : List (Task Obj)} (turns : x.InTurn m ts n) (of_kind : ∀ t ∈ ts, S t)
    (at_bridge : (x.run m).focus = .bridge s) (next : s.todo = ts ++ todo) :
    ∃ p, (x.run n).focus = .bridge { s with todo, progress := p } ∧
      (x.run n).below = (x.run m).below ∧ p.count = s.progress.count := by
  induction turns generalizing s with
  | nil =>
    subst next
    exact ⟨s.progress, at_bridge, rfl, rfl⟩
  | cons _ finishes _ ih =>
    obtain ⟨first, later⟩ := List.forall_mem_cons.mp of_kind
    obtain ⟨p, here, below, count⟩ := finishes.resumes keeps silent at_bridge next first
    rw [← run_add] at here below
    obtain ⟨q, there, below', count'⟩ := ih later here rfl
    exact ⟨q, there, below'.trans below, count'.trans count⟩

end Execution

end HostBridge
