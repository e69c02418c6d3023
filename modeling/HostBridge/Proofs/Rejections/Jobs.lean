import HostBridge.Proofs.Rejections.Drains
import HostBridge.Proofs.Timers.Dispatch
/-!
# Jobs run one at a time

The flag that refuses drains is set exactly while the end of a drain is still to come. As jobs are
called by drains only, none is called above one that has not returned, and a job that throws has its
exception reported, once and to the end, before the next is called.
-/

namespace HostBridge.Execution

variable {Obj τ : Type} [Facility τ] {E : Embedder Obj τ} {c : ContextId}

def jobOf (c : ContextId) : Item Obj → Bool
  | .task (.call (.job c')) | .code (.job c') => c' == c
  | _ => false

omit [Facility τ] in
theorem endDrain_notMem {items : List (Item Obj)} (no_end : items.countP (endsDrain c) = 0) :
    .task (.endDrain c) ∉ items :=
  fun mem => List.countP_eq_zero.mp no_end _ mem (by simp [endsDrain])

variable [Traced Obj] {x y : Execution E} {n : Nat}

theorem BeginsNone.countP_jobOf (begins_none : (x.run n).BeginsNone c) :
    (x.run (n + 1)).stack.countP (jobOf c) ≤ (x.run n).stack.countP (jobOf c) := by
  have rewrites := x.run_rewrites n
  by_cases drains : (x.run n).AtTask (.drain c)
  · obtain ⟨rest, top⟩ := drains
    rw [begins_none.idle top rewrites, top, List.countP_cons]
    exact Nat.le_add_right _ _
  by_cases calls : (x.run n).AtTask (.call (.job c))
  · obtain ⟨rest, top⟩ := calls
    rw [(rewrites.of_call top).1, top, List.countP_cons, List.countP_cons]
    exact Nat.le_refl _
  by_cases continues : (x.run n).Continues c
  · obtain ⟨r, returns⟩ := continues
    obtain ⟨p, rest, top, stack⟩ := returns.stack
    rw [stack, top, List.countP_append, List.countP_cons_of_pos (by simp [jobOf])]
    cases r <;> simp [Call.resume, jobOf, Nat.add_comm]
  · apply rewrites.countP_le
    · intro t brings
      cases brings with
      | @firstJob c' here _ =>
        apply beq_false_of_ne
        rintro rfl
        exact drains here
      | @nextJob c' here =>
        apply beq_false_of_ne
        rintro rfl
        exact continues here
      | frameCall =>
        unfold Task.frameCall
        split <;> rfl
      | _ => rfl
    · intro k next
      cases k with
      | job c' =>
        apply beq_false_of_ne
        rintro rfl
        exact calls next
      | _ => rfl

inductive DrainPhase (x : Execution E) (c : ContextId) : Prop
  | free (no_job : x.stack.countP (jobOf c) = 0) (no_end : x.stack.countP (endsDrain c) = 0)
  | running {pre rest : List (Item Obj)} (runs : x.RunsJobs c pre rest)
      (one : x.stack.countP (jobOf c) ≤ 1) (no_job : rest.countP (jobOf c) = 0)
      (no_end : rest.countP (endsDrain c) = 0)
  | ending {rest : List (Item Obj)} (top : x.stack = .task (.endDrain c) :: rest)
      (refuses : x.Refuses c) (no_job : rest.countP (jobOf c) = 0)
      (no_end : rest.countP (endsDrain c) = 0)

theorem DrainPhase.succ_of_free (blank : x.Blank) (no_job : (x.run n).stack.countP (jobOf c) = 0)
    (no_end : (x.run n).stack.countP (endsDrain c) = 0) : (x.run (n + 1)).DrainPhase c := by
  by_cases begins_none : (x.run n).BeginsNone c
  · have jobs := begins_none.countP_jobOf
    have ends := begins_none.countP_endsDrain (x.run_rewrites n)
    exact .free (by omega) (by omega)
  · obtain ⟨⟨rest, top⟩, valid, _⟩ : (x.run n).AtTask (.drain c) ∧
        (x.run n).world.isValid c = true ∧ ¬ (x.run n).Refuses c := by
      simpa [BeginsNone] using begins_none
    have drains : (x.run n).Drains c := ⟨⟨rest, top⟩, valid, endDrain_notMem no_end⟩
    obtain ⟨a, found, a_valid, free⟩ := drains.free blank
    obtain ⟨stack, refuses⟩ := (x.run_rewrites n).of_drain top found a_valid free
    rw [top, List.countP_cons_of_neg (by simp [jobOf])] at no_job
    rw [top, List.countP_cons_of_neg (by simp [endsDrain])] at no_end
    have runs : (x.run (n + 1)).RunsJobs c [.task (.call (.job c))] rest :=
      ⟨stack, .next, refuses, rfl⟩
    refine .running runs ?_ no_job no_end
    rw [stack, List.countP_cons, List.countP_cons, no_job]
    simp [jobOf]

theorem DrainPhase.succ (blank : x.Blank) (phase : (x.run n).DrainPhase c) :
    (x.run (n + 1)).DrainPhase c := by
  have rewrites := x.run_rewrites n
  cases phase with
  | free no_job no_end => exact succ_of_free blank no_job no_end
  | running runs one no_job no_end =>
    have begins_none : (x.run n).BeginsNone c := fun _ _ => runs.refuses
    rcases runs.rewrites rewrites with ⟨pre, still⟩ | ⟨stack, _⟩
    · exact .running still (Nat.le_trans begins_none.countP_jobOf one) no_job no_end
    · exact .ending stack (runs.refuses.rewrites runs.goes_on rewrites) no_job no_end
  | ending top _ no_job no_end =>
    obtain ⟨p, stack, _⟩ := rewrites.of_task top fun k same => nomatch same
    apply DrainPhase.free
    · rw [stack, List.countP_append, no_job]
      rfl
    · rw [stack, List.countP_append, no_end]
      rfl

theorem drainPhase_run (blank : x.Blank) (outside : x.AtCode .session) (c : ContextId) (n : Nat) :
    (x.run n).DrainPhase c := by
  induction n with
  | zero =>
    obtain ⟨rest, top⟩ := outside
    have alone : (x.run 0).stack = [.code .session] := by
      rcases blank.stack with nothing | ⟨k, here⟩
      · cases nothing.symm.trans top
      · rw [run_zero, here, (List.cons.inj (here.symm.trans top)).1]
    exact .free (by rw [alone]; rfl) (by rw [alone]; rfl)
  | succ n ih => exact ih.succ blank

omit [Traced Obj] in
theorem DrainPhase.refuses (phase : x.DrainPhase c) (mem : .task (.endDrain c) ∈ x.stack) :
    x.Refuses c := by
  cases phase with
  | free _ no_end => exact absurd mem (endDrain_notMem no_end)
  | running runs => exact runs.refuses
  | ending _ refuses => exact refuses

omit [Traced Obj] in
/-- There is one job on the stack at most, called or about to be. -/
theorem DrainPhase.countP_jobOf (phase : x.DrainPhase c) : x.stack.countP (jobOf c) ≤ 1 := by
  cases phase with
  | free no_job => omega
  | running _ one => exact one
  | ending top _ no_job =>
    rw [top, List.countP_cons_of_neg (by simp [jobOf]), no_job]
    exact Nat.zero_le 1

section Report

variable {v : Value} {rest : List (Item Obj)}

theorem made_of_report (top : x.stack = .task (.call (.report c v)) :: rest)
    (unfinished : x.Unfinished n) : x.made (n + 1) = [.report c v] ∧
      ((x.run (n + 1)).stack = rest ∨
        ∃ above, (x.run (n + 1)).stack = above ++ .code (.report c v) :: rest) := by
  have level : x.nesting = rest.countP Item.isCode := by
    rw [nesting_of_stack [] top rfl]
    exact Nat.zero_add _
  induction n with
  | zero =>
    have here : (x.run 0).stack = .task (.call (.report c v)) :: rest := top
    exact ⟨made_of_call here level, Or.inr ⟨[], ((x.run_rewrites 0).of_call top).1⟩⟩
  | succ n ih =>
    obtain ⟨said, past | ⟨above, here⟩⟩ := ih (unfinished.of_le (Nat.le_succ n))
    · have long := unfinished (n + 1) (Nat.le_refl _)
      rw [top, past] at long
      exact absurd long (Nat.not_succ_le_self _)
    · refine ⟨by rw [made_of_code here level, said], ?_⟩
      rcases (x.run_rewrites (n + 1)).of_code here with more | ⟨_, ⟨_, p, _, stack⟩ | ⟨nothing, _⟩⟩
      · exact Or.inr more
      · exact Or.inl stack
      · exact absurd nothing (stack_ne_nil_of_task top)

end Report

structure JobsInOrder (x : Execution E) (c : ContextId) : Prop where
  guarded : ∀ n, (x.run n).Refuses c ↔ .task (.endDrain c) ∈ (x.run n).stack
  alone : ∀ n, (x.run n).AtTask (.call (.job c)) → .code (.job c) ∉ (x.run n).stack
  reported : ∀ n v, (x.run n).Returns (.job c) (some (.error v)) →
    (x.run (n + 1)).AtTask (.call (.report c v)) ∧
      ∀ m, 0 < m → (∀ l < m, ¬ ((x.run (n + 1)).run l).AtTask (.call (.job c))) →
        (x.run (n + 1)).made m = [.report c v] ∧
          (((x.run (n + 1)).run m).AtTask (.call (.job c)) → (x.run (n + 1)).FinishesAt m)

omit [Traced Obj] in
theorem job_called_alone (phase : x.DrainPhase c) (next : x.AtTask (.call (.job c))) :
    .code (.job c) ∉ x.stack := by
  obtain ⟨rest, top⟩ := next
  intro waits
  have one := phase.countP_jobOf
  rw [top] at waits one
  rw [List.countP_cons_of_pos (by simp [jobOf])] at one
  rcases List.mem_cons.mp waits with same | below
  · cases same
  · have none_below : rest.countP (jobOf c) = 0 := by omega
    exact List.countP_eq_zero.mp none_below _ below (by simp [jobOf])

/-- The report of a job's exception is done with when the next job is called. -/
theorem report_before_next_job {v : Value} {rest : List (Item Obj)} {m : Nat}
    (phase : ∀ m, (x.run m).DrainPhase c)
    (top : x.stack = .task (.call (.report c v)) :: .task (.call (.job c)) :: rest) (pos : 0 < m)
    (until_then : ∀ l < m, ¬ (x.run l).AtTask (.call (.job c))) :
    x.made m = [.report c v] ∧ ((x.run m).AtTask (.call (.job c)) → x.FinishesAt m) := by
  obtain ⟨m, rfl⟩ := Nat.exists_eq_add_of_le' pos
  have unfinished : x.Unfinished m := by
    by_contra past
    obtain ⟨j, le, finishes⟩ := exists_finishesAt past
    exact until_then j (Nat.lt_succ_of_le le) ⟨rest, finishes.stack top⟩
  obtain ⟨said, here⟩ := made_of_report top unfinished
  refine ⟨said, ?_⟩
  rintro ⟨rest', next⟩
  rcases here with here | ⟨above, here⟩
  · refine ⟨fun l lt => unfinished l (Nat.le_of_lt_succ lt), ?_⟩
    rw [here, top]
    exact Nat.lt_succ_self _
  · -- The job that the drain calls next is still on the stack below the report.
    exfalso
    have one := (phase (m + 1)).countP_jobOf
    rcases above with _ | ⟨i, above⟩
    · cases next.symm.trans here
    · obtain ⟨rfl, _⟩ := List.cons.inj (next.symm.trans here)
      rw [here, List.cons_append, List.countP_cons_of_pos (by simp [jobOf]), List.countP_append,
        List.countP_cons_of_neg (by simp [jobOf]), List.countP_cons_of_pos (by simp [jobOf])] at one
      omega

theorem jobs_in_order (blank : x.Blank) (outside : x.AtCode .session) (c : ContextId) :
    x.JobsInOrder c := by
  have phase := drainPhase_run blank outside c
  constructor
  · exact fun n => ⟨(·.endDrain_mem blank), (phase n).refuses⟩
  · exact fun n => job_called_alone (phase n)
  · intro n v returns
    obtain ⟨p, rest, _, stack⟩ := returns.stack
    have reports : (x.run (n + 1)).stack =
        .task (.call (.report c v)) :: .task (.call (.job c)) :: rest := stack
    refine ⟨⟨_, reports⟩, fun m pos until_then => ?_⟩
    refine report_before_next_job (fun l => ?_) reports pos until_then
    rw [← run_add]
    exact phase (n + 1 + l)

section Outcomes

variable {Obj τ : Type} [Facility τ]

def outcomePlan (body : Call Obj → List (Order Obj τ)) : Embedder Obj τ where
  State := List (Except Value Unit)
  Activity := List (Order Obj τ)
  Note := Empty
  types _ := { className := "" }
  alive _ heap x := heap.alive x
  enter := body
  next k _ jobs orders := match orders with
    | .command c :: rest => ⟨jobs, [], .command c fun _ => rest⟩
    | .procedure p :: rest => ⟨jobs, [], .procedure p fun _ => rest⟩
    | [] => match k, jobs with
      | .job _, outcome :: left => ⟨left, [], .finish (some outcome)⟩
      | k, jobs => ⟨jobs, [], .finish k.plainReply⟩

end Outcomes

def drainEverywhere : Call (List Handle) → List (Order (List Handle) Manual)
  | .job c => [.procedure (.drain c)]
  | .report c _ => [.procedure (.drain c), .procedure (.process c), .command (.dispose c)]
  | _ => []

def throwingJob : Execution (outcomePlan drainEverywhere) :=
  start { heap := .withThreshold 1024, facility := {} }
    ([.error (.boolean true), .ok ()] : List (Except Value Unit))
    [.command (.createContext none), .procedure (.drain ⟨1⟩)]

/-- The sink drains the context, which does nothing, and then the second job is called. -/
theorem thrown_reported_before_next_job :
    (throwingJob.run 7).Returns (.job ⟨1⟩) (some (.error (.boolean true))) ∧
      (throwingJob.run 10).AtTask (.drain ⟨1⟩) ∧ (throwingJob.run 16).AtTask (.call (.job ⟨1⟩)) ∧
      (throwingJob.run 8).made 8 = [.report ⟨1⟩ (.boolean true)] ∧
      (throwingJob.run 8).FinishesAt 8 := by
  have ordered := jobs_in_order (x := throwingJob) ⟨rfl, rfl⟩ ⟨_, rfl⟩ ⟨1⟩
  have returns : (throwingJob.run 7).Returns (.job ⟨1⟩) (some (.error (.boolean true))) :=
    ⟨_, _, _, rfl, List.cons_ne_nil _ _, rfl⟩
  have other : ∀ l < 8, ((throwingJob.run 8).run l).nextCall? ≠ some (.job ⟨1⟩) := by decide +kernel
  have none_called : ∀ l < 8, ¬ ((throwingJob.run 8).run l).AtTask (.call (.job ⟨1⟩)) := by
    rintro l lt ⟨rest, top⟩
    exact other l lt (by rw [nextCall?, top])
  obtain ⟨said, finished⟩ := (ordered.reported 7 _ returns).2 8 (by decide) none_called
  exact ⟨returns, ⟨_, rfl⟩, ⟨_, rfl⟩, said, finished ⟨_, rfl⟩⟩

end HostBridge.Execution
