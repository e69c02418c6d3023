import HostBridge.Host.Queue
/-!
# Waiting for fires

One wait beside any posts and pumps of others, in any order with its own steps. A permit may outlast
its fire, and a fire the permit that it left. Still the wait ends with a pump of at least one fire
only, and whoever sleeps has missed none: a fire that waits is seen by who looks, was announced to who
listens, and has woken who slept.
-/

namespace HostBridge.FireQueue

inductive Act
  | post (fires : List Fire)
  | pump
  | step
  deriving DecidableEq

def wait (q : FireQueue) : FireQueue := { q with waiter := .looking }

def act (q : FireQueue) : Act → FireQueue
  | .post fires => q.post fires
  | .pump => q.drained
  | .step => q.step.1

def ended? (q : FireQueue) : Act → Option (List Fire)
  | .step => if q.waiter ≠ .absent ∧ q.step.1.waiter = .absent then some q.step.2 else none
  | _ => none

def after (q : FireQueue) (acts : List Act) : FireQueue := acts.foldl act q

def ends (q : FireQueue) : List Act → List (List Fire)
  | [] => []
  | a :: acts => (q.ended? a).toList ++ (q.act a).ends acts

variable {q : FireQueue} {acts : List Act} {a : Act} {fires : List Fire}

/-! ## The steps of the waiter -/

theorem step_absent (here : q.waiter = .absent) : q.step = (q, []) := by
  rw [step, here]

theorem step_asleep (here : q.waiter = .asleep) : q.step = (q, []) := by
  rw [step, here]

theorem step_looking_empty (here : q.waiter = .looking) (empty : q.waiting = []) :
    q.step = ({ q with waiter := .listening }, []) := by
  rw [step, here, isEmpty, empty]
  rfl

theorem step_looking_fires (here : q.waiter = .looking) (some : q.waiting ≠ []) :
    q.step = ({ q.drained with waiter := .absent }, q.waiting) := by
  rw [step, here, isEmpty, List.isEmpty_eq_false_iff.mpr some]
  rfl

theorem step_listening_permit (here : q.waiter = .listening) (permit : q.permit = true) :
    q.step = ({ q with permit := false, waiter := .looking }, []) := by
  rw [step, here, permit]
  rfl

theorem step_listening_none (here : q.waiter = .listening) (none : q.permit = false) :
    q.step = ({ q with waiter := .asleep }, []) := by
  rw [step, here, none]
  rfl

/-! ## What others do to the waiter -/

theorem post_nil (q : FireQueue) : q.post [] = q := rfl

theorem post_waiter (some : fires ≠ []) :
    (q.post fires).waiter = if q.waiter = .asleep then .looking else q.waiter := by
  cases fires with
  | nil => exact absurd rfl some
  | cons => simp only [post]

theorem post_permit (some : fires ≠ []) (awake : q.waiter ≠ .asleep) :
    (q.post fires).permit = true := by
  cases fires with
  | nil => exact absurd rfl some
  | cons => simp [post, awake]

/-! ## No wake-up is lost -/

/-- Where a waiter may stand while fires wait: asleep nowhere, and listening only with a permit. -/
structure Wakeful (q : FireQueue) : Prop where
  asleep : q.waiter = .asleep → q.waiting = [] ∧ q.permit = false
  listening : q.waiter = .listening → q.waiting ≠ [] → q.permit = true

theorem Wakeful.of_looking (here : q.waiter = .looking) : q.Wakeful :=
  ⟨fun asleep => (nomatch here.symm.trans asleep), fun listening => (nomatch here.symm.trans listening)⟩

theorem Wakeful.of_absent (here : q.waiter = .absent) : q.Wakeful :=
  ⟨fun asleep => (nomatch here.symm.trans asleep), fun listening => (nomatch here.symm.trans listening)⟩

theorem Wakeful.post (wakeful : q.Wakeful) (fires : List Fire) : (q.post fires).Wakeful := by
  by_cases none : fires = []
  · rwa [none, post_nil]
  · have moved := post_waiter (q := q) none
    by_cases asleep : q.waiter = .asleep
    · rw [if_pos asleep] at moved
      exact .of_looking moved
    · rw [if_neg asleep] at moved
      exact ⟨fun sleeps => absurd (moved.symm.trans sleeps) asleep, fun _ _ => post_permit none asleep⟩

theorem Wakeful.drained (wakeful : q.Wakeful) : q.drained.Wakeful :=
  ⟨fun asleep => ⟨rfl, (wakeful.asleep asleep).2⟩, fun _ some => absurd rfl some⟩

theorem Wakeful.step (wakeful : q.Wakeful) : q.step.1.Wakeful := by
  cases here : q.waiter with
  | absent => rwa [step_absent here]
  | asleep => rwa [step_asleep here]
  | looking =>
    by_cases empty : q.waiting = []
    · rw [step_looking_empty here empty]
      exact ⟨nofun, fun _ some => absurd empty some⟩
    · rw [step_looking_fires here empty]
      exact .of_absent rfl
  | listening =>
    cases permit : q.permit with
    | true =>
      rw [step_listening_permit here permit]
      exact .of_looking rfl
    | false =>
      rw [step_listening_none here permit]
      refine ⟨fun _ => ⟨?_, permit⟩, nofun⟩
      by_cases empty : q.waiting = []
      · exact empty
      · exact absurd (permit.symm.trans (wakeful.listening here empty)) Bool.false_ne_true

theorem Wakeful.act (wakeful : q.Wakeful) (a : Act) : (q.act a).Wakeful := by
  cases a with
  | post fires => exact wakeful.post fires
  | pump => exact wakeful.drained
  | step => exact wakeful.step

theorem Wakeful.after (wakeful : q.Wakeful) (acts : List Act) : (q.after acts).Wakeful := by
  induction acts generalizing q with
  | nil => exact wakeful
  | cons a acts ih => exact ih (wakeful.act a)

/-! ## How a wait ends -/

theorem absent_act (here : q.waiter = .absent) (a : Act) : (q.act a).waiter = .absent := by
  cases a with
  | post fires =>
    by_cases none : fires = []
    · rw [none]
      exact here
    · rw [act, post_waiter none, here]
      rfl
  | pump => exact here
  | step => rwa [act, step_absent here]

theorem ended?_absent (here : q.waiter = .absent) (a : Act) : q.ended? a = none := by
  cases a with
  | post | pump => rfl
  | step => exact if_neg fun ends => ends.1 here

theorem absent_after (here : q.waiter = .absent) (acts : List Act) :
    (q.after acts).waiter = .absent ∧ q.ends acts = [] := by
  induction acts generalizing q with
  | nil => exact ⟨here, rfl⟩
  | cons a acts ih =>
    obtain ⟨stays, none⟩ := ih (absent_act here a)
    refine ⟨stays, ?_⟩
    rw [ends, ended?_absent here, none]
    rfl

theorem ended?_cases (waits : q.waiter ≠ .absent) (a : Act) :
    q.ended? a = none ∧ (q.act a).waiter ≠ .absent ∨
      q.waiting ≠ [] ∧ q.ended? a = some q.waiting ∧ (q.act a).waiter = .absent := by
  cases a with
  | post fires =>
    refine Or.inl ⟨rfl, ?_⟩
    by_cases none : fires = []
    · rwa [none]
    · rw [act, post_waiter none]
      split
      · exact nofun
      · exact waits
  | pump => exact Or.inl ⟨rfl, waits⟩
  | step =>
    cases here : q.waiter with
    | absent => exact absurd here waits
    | asleep => simp [ended?, act, step_asleep here, here]
    | looking =>
      by_cases empty : q.waiting = []
      · simp [ended?, act, step_looking_empty here empty, empty]
      · simp [ended?, act, step_looking_fires here empty, here, empty]
    | listening =>
      cases permit : q.permit with
      | true => simp [ended?, act, step_listening_permit here permit]
      | false => simp [ended?, act, step_listening_none here permit]

theorem ends_cases (waits : q.waiter ≠ .absent) (acts : List Act) :
    q.ends acts = [] ∧ (q.after acts).waiter ≠ .absent ∨
      ∃ batch, batch ≠ [] ∧ q.ends acts = [batch] ∧ (q.after acts).waiter = .absent := by
  induction acts generalizing q with
  | nil => exact Or.inl ⟨rfl, waits⟩
  | cons a acts ih =>
    rcases ended?_cases waits a with ⟨goes_on, still⟩ | ⟨some, batch, gone⟩
    · rw [ends, goes_on]
      exact ih still
    · obtain ⟨stays, none⟩ := absent_after gone acts
      refine Or.inr ⟨q.waiting, some, ?_, stays⟩
      rw [ends, batch, none]
      rfl

/-! ## How long it takes -/

def untilEnd : Waiter → Nat
  | .absent | .asleep => 0
  | .looking => 1
  | .listening => 2

def untilSleep (q : FireQueue) : Nat :=
  match q.waiter with
  | .absent | .asleep => 0
  | .looking => if q.permit then 4 else 2
  | .listening => if q.permit then 3 else 1

theorem step_of_fires (wakeful : q.Wakeful) (some : q.waiting ≠ []) :
    q.step.1.waiter = .absent ∨
      q.step.1.waiting ≠ [] ∧ untilEnd q.waiter = untilEnd q.step.1.waiter + 1 := by
  cases here : q.waiter with
  | absent => exact Or.inl (by rwa [step_absent here])
  | asleep => exact absurd (wakeful.asleep here).1 some
  | looking => exact Or.inl (by rw [step_looking_fires here some])
  | listening =>
    rw [step_listening_permit here (wakeful.listening here some)]
    exact Or.inr ⟨some, rfl⟩

theorem step_of_empty (waits : q.waiter ≠ .absent) (empty : q.waiting = []) :
    q.step.1.waiter ≠ .absent ∧ q.step.1.waiting = [] ∧ q.step.1.listen = q.listen ∧
      q.step.1.untilSleep = q.untilSleep - 1 := by
  cases here : q.waiter with
  | absent => exact absurd here waits
  | asleep =>
    rw [step_asleep here]
    exact ⟨waits, empty, rfl, by simp only [untilSleep, here]⟩
  | looking =>
    rw [step_looking_empty here empty]
    refine ⟨nofun, empty, rfl, ?_⟩
    simp only [untilSleep, here]
    cases q.permit <;> rfl
  | listening =>
    cases permit : q.permit with
    | true =>
      rw [step_listening_permit here permit]
      exact ⟨nofun, empty, rfl, by simp [untilSleep, here, permit]⟩
    | false =>
      rw [step_listening_none here permit]
      exact ⟨nofun, empty, rfl, by simp [untilSleep, here, permit]⟩

/-- The wait ends while fires wait that nobody else pumps. -/
theorem ends_of_fires (wakeful : q.Wakeful) (some : q.waiting ≠ []) (alone : .pump ∉ acts)
    (steps : untilEnd q.waiter ≤ acts.count .step) : (q.after acts).waiter = .absent := by
  induction acts generalizing q with
  | nil =>
    cases here : q.waiter with
    | absent => exact here
    | asleep => exact absurd (wakeful.asleep here).1 some
    | looking | listening => simp [here, untilEnd] at steps
  | cons a acts ih =>
    have behind : .pump ∉ acts := fun mem => alone (List.mem_cons_of_mem _ mem)
    cases a with
    | pump => exact absurd List.mem_cons_self alone
    | post fires =>
      rw [List.count_cons_of_ne (by simp)] at steps
      have more : (q.post fires).waiting ≠ [] := by
        rw [post_waiting]
        exact List.append_ne_nil_of_left_ne_nil some fires
      refine ih (wakeful.post fires) more behind ?_
      by_cases none : fires = []
      · rwa [none]
      · -- Fires wait already, so the waiter is awake and the post does not move it.
        have awake : q.waiter ≠ .asleep := fun asleep => some (wakeful.asleep asleep).1
        show untilEnd (q.post fires).waiter ≤ _
        rwa [post_waiter none, if_neg awake]
    | step =>
      rw [List.count_cons_self] at steps
      rcases step_of_fires wakeful some with gone | ⟨still, nearer⟩
      · exact (absent_after gone acts).1
      · refine ih wakeful.step still behind ?_
        show untilEnd q.step.1.waiter ≤ _
        omega

/-- Without a post the waiter falls asleep at the empty queue, and the permit is spent. -/
theorem sleeps_of_no_post (waits : q.waiter ≠ .absent) (wakeful : q.Wakeful) (empty : q.waiting = [])
    (silent : ∀ fires, .post fires ∉ acts) (steps : q.untilSleep ≤ acts.count .step) :
    q.after acts = q.listen := by
  induction acts generalizing q with
  | nil =>
    cases here : q.waiter with
    | absent => exact absurd here waits
    | asleep =>
      have spent := (wakeful.asleep here).2
      show q = { q with permit := false, waiter := .asleep }
      rw [← spent, ← here]
    | looking | listening =>
      rw [untilSleep, here] at steps
      cases permit : q.permit <;> simp [permit] at steps
  | cons a acts ih =>
    have behind : ∀ fires, .post fires ∉ acts := fun fires mem =>
      silent fires (List.mem_cons_of_mem _ mem)
    cases a with
    | post fires => exact absurd List.mem_cons_self (silent fires)
    | pump =>
      rw [List.count_cons_of_ne (by simp)] at steps
      have same : q.act .pump = q := by
        show { q with waiting := [] } = q
        rw [← empty]
      show (q.act .pump).after acts = q.listen
      rw [same]
      exact ih waits wakeful empty behind steps
    | step =>
      rw [List.count_cons_self] at steps
      obtain ⟨still, stays, kept, nearer⟩ := step_of_empty waits empty
      rw [← kept]
      refine ih still wakeful.step stays behind ?_
      show q.step.1.untilSleep ≤ _
      omega

/-! ## One wait -/

structure Waits (q : FireQueue) (acts : List Act) : Prop where
  ended : q.wait.ends acts = [] ∧ (q.wait.after acts).waiter ≠ .absent ∨
    ∃ batch, batch ≠ [] ∧ q.wait.ends acts = [batch] ∧ (q.wait.after acts).waiter = .absent
  asleep : (q.wait.after acts).waiter = .asleep →
    (q.wait.after acts).waiting = [] ∧ (q.wait.after acts).permit = false
  prompt : (q.wait.after acts).waiting ≠ [] → ∀ more, .pump ∉ more → 2 ≤ more.count .step →
    ((q.wait.after acts).after more).waiter = .absent
  idle : (q.wait.after acts).waiter ≠ .absent → (q.wait.after acts).waiting = [] → ∀ more,
    (∀ fires, .post fires ∉ more) → 4 ≤ more.count .step →
      (q.wait.after acts).after more = (q.wait.after acts).listen

theorem untilEnd_le (w : Waiter) : untilEnd w ≤ 2 := by
  cases w <;> decide

theorem untilSleep_le (q : FireQueue) : q.untilSleep ≤ 4 := by
  unfold untilSleep
  cases q.waiter <;> cases q.permit <;> decide

/-- Every wait is for fires, and no fire is missed. -/
theorem waits_for_fires (q : FireQueue) (acts : List Act) : Waits q acts := by
  have wakeful : (q.wait.after acts).Wakeful := (Wakeful.of_looking rfl).after acts
  constructor
  · have begun : q.wait.waiter = .looking := rfl
    exact ends_cases (by rw [begun]; exact nofun) acts
  · exact wakeful.asleep
  · intro some more alone steps
    exact ends_of_fires wakeful some alone (Nat.le_trans (untilEnd_le _) steps)
  · intro waits empty more silent steps
    exact sleeps_of_no_post waits wakeful empty silent (Nat.le_trans (untilSleep_le _) steps)

/-- A permit without its fire, a sleep, and the fire that ends it. -/
example : (FireQueue.mk [] true .absent).wait.ends
    [.step, .step, .step, .step, .post [default], .step] = [[default]] := by decide

end HostBridge.FireQueue
