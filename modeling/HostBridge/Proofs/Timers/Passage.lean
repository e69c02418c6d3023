import HostBridge.Proofs.Timers.Alarms
/-!
# How time passes

An act of the clock moves it and rings, and it never moves past an instant at which an alarm is due.
For one alarm that means: it waits, and it rings at the instant it is due.
-/

namespace HostBridge

namespace Clock

variable {late : Lateness} {c c' c'' : Clock late} {chimes later : List Chime}

def Settled (c : Clock late) : Prop := ∀ a ∈ c.alarms, c.now < a.due

inductive Passes : Clock late → Clock late → List Chime → Prop
  | nothing (c : Clock late) : Passes c c []
  | move {c c' : Clock late} {chimes : List Chime} (instant : Nat) (on : c.now ≤ instant)
      (first : ∀ a ∈ c.alarms, instant ≤ a.due) (rest : Passes { c with now := instant } c' chimes) :
      Passes c c' chimes
  | ring {c c' : Clock late} {chimes : List Chime} (rest : Passes c.ring.1 c' chimes) :
      Passes c c' (c.ring.2 ++ chimes)

namespace Passes

theorem trans (first : Passes c c' chimes) (second : Passes c' c'' later) :
    Passes c c'' (chimes ++ later) := by
  induction first with
  | nothing => exact second
  | move instant on passed _ ih => exact .move instant on passed (ih second)
  | ring _ ih =>
    rw [List.append_assoc]
    exact .ring (ih second)

theorem ring_only (c : Clock late) : Passes c c.ring.1 c.ring.2 := by
  have rung := ring (.nothing c.ring.1)
  rwa [List.append_nil] at rung

theorem move_only (instant : Nat) (on : c.now ≤ instant) (first : ∀ a ∈ c.alarms, instant ≤ a.due) :
    Passes c { c with now := instant } [] :=
  .move instant on first (.nothing _)

theorem jump (instant : Nat) (on : c.now ≤ instant) (first : ∀ a ∈ c.alarms, instant ≤ a.due) :
    Passes c (c.jump instant).1 (c.jump instant).2 :=
  .move instant on first (ring_only _)

end Passes

theorem Sound.move (sound : c.Sound) (instant : Nat) (first : ∀ a ∈ c.alarms, instant ≤ a.due) :
    ({ c with now := instant } : Clock late).Sound :=
  ⟨sound.table, sound.targets, sound.numbers, sound.started, sound.periods, first⟩

theorem Passes.sound (passes : Passes c c' chimes) (sound : c.Sound) : c'.Sound := by
  induction passes with
  | nothing => exact sound
  | move instant _ first _ ih => exact ih (sound.move instant first)
  | ring _ ih => exact ih sound.ring

theorem nextDue_le {due : Nat} (next : c.nextDue = some due) : ∀ a ∈ c.alarms, due ≤ a.due := by
  intro a mem
  exact (List.min?_eq_some_iff.mp next).2 a.due (List.mem_map_of_mem mem)

theorem exists_nextDue {due : Nat} (next : c.nextDue = some due) : ∃ a ∈ c.alarms, a.due = due :=
  List.mem_map.mp (List.min?_eq_some_iff.mp next).1

theorem alarms_of_nextDue (next : c.nextDue = none) : c.alarms = [] :=
  List.map_eq_nil_iff.mp (List.min?_eq_none_iff.mp next)

theorem first_of_nextDue {limit : Nat} (none_before : ∀ due ∈ c.nextDue, limit ≤ due) :
    ∀ a ∈ c.alarms, limit ≤ a.due := by
  cases next : c.nextDue with
  | none => simp [alarms_of_nextDue next]
  | some due => exact fun a mem => Nat.le_trans (none_before due next) (nextDue_le next a mem)

theorem settled_jump {instant : Nat} (sound : c.Sound) (first : ∀ a ∈ c.alarms, instant ≤ a.due) :
    (c.jump instant).1.Settled :=
  (sound.move instant first).lt_due_ring

theorem sleepUntil_passes {limit : Nat} (sound : c.Sound) (settled : c.Settled)
    (on : c.now ≤ limit) :
    Passes c (c.sleepUntil limit).1 (c.sleepUntil limit).2 ∧ (c.sleepUntil limit).1.Settled := by
  fun_induction sleepUntil c limit with
  | case1 c next =>
    have first : ∀ a ∈ c.alarms, limit ≤ a.due := first_of_nextDue (by simp [next])
    exact ⟨.jump limit on first, settled_jump sound first⟩
  | case2 c due next within rung slept ih =>
    have step : Passes c rung.1 rung.2 := .jump due (Nat.le_of_lt within.1) (nextDue_le next)
    have settled : rung.1.Settled := settled_jump sound (nextDue_le next)
    obtain ⟨rest, done⟩ := ih (step.sound sound) settled within.2
    exact ⟨step.trans rest, done⟩
  | case3 c due next beyond =>
    obtain ⟨a, mem, rfl⟩ := exists_nextDue next
    -- Nothing is due just now, so the next alarm is beyond the limit.
    have first : ∀ a ∈ c.alarms, limit ≤ a.due := by
      refine first_of_nextDue fun due same => ?_
      rw [next] at same
      cases same
      have ahead := settled a mem
      omega
    exact ⟨.jump limit on first, settled_jump sound first⟩

theorem sleep_passes (sound : c.Sound) (d : Duration) :
    Passes c (c.sleep d).1 (c.sleep d).2 ∧ (c.sleep d).1.Settled := by
  have rung := Passes.ring_only c
  obtain ⟨rest, settled⟩ :=
    sleepUntil_passes (rung.sound sound) sound.lt_due_ring (Nat.le_add_right c.now d.millis)
  exact ⟨rung.trans rest, settled⟩

theorem waitUntil_passes {limit : Nat} (sound : c.Sound) (on : c.now ≤ limit) :
    Passes c (c.waitUntil limit).1 (c.waitUntil limit).2 := by
  rw [waitUntil]
  split
  · rename_i due next
    obtain ⟨a, mem, rfl⟩ := exists_nextDue next
    split
    · rw [Nat.max_eq_left (sound.timely a mem)]
      exact .jump a.due (sound.timely a mem) (nextDue_le next)
    · rename_i beyond
      refine .move_only limit on fun b there => ?_
      exact Nat.le_trans (Nat.le_of_not_lt beyond) (nextDue_le next b there)
  · rename_i next
    exact .move_only limit on (by simp [alarms_of_nextDue next])

def Reaches (c : Clock late) : Act → Prop
  | .advance d => ∀ a ∈ c.alarms, c.now + d.millis ≤ a.due
  | _ => True

theorem act_passes (sound : c.Sound) (a : Act) (reaches : c.Reaches a) :
    Passes c (c.act a).1 (c.act a).2 := by
  cases a with
  | settle => exact .ring_only c
  | sleep d => exact (sleep_passes sound d).1
  | advance d => exact .jump _ (Nat.le_add_right ..) reaches
  | wait d => exact waitUntil_passes sound (Nat.le_add_right ..)

/-- Only who waits may leave something due unrung. -/
theorem act_settled (sound : c.Sound) (a : Act) (reaches : c.Reaches a) (stirs : ∀ d, a ≠ .wait d) :
    (c.act a).1.Settled := by
  cases a with
  | settle => exact sound.lt_due_ring
  | sleep d => exact (sleep_passes sound d).2
  | advance d => exact settled_jump sound reaches
  | wait d => exact absurd rfl (stirs d)

end Clock

namespace Alarm

/-- What becomes of one alarm, or of none, and its chimes, from one instant to another. -/
inductive Course : Nat → Option Alarm → List Chime → Nat → Option Alarm → Prop
  | rest (now : Nat) (a : Option Alarm) : Course now a [] now a
  | wait {now later last : Nat} {a a' : Option Alarm} {chimes : List Chime} (on : now ≤ later)
      (rest : Course later a chimes last a') : Course now a chimes last a'
  | chime {a : Alarm} {last : Nat} {a' : Option Alarm} {chimes : List Chime}
      (rest : Course a.due a.next chimes last a') :
      Course a.due (some a) (⟨a.due, a.number, a.target⟩ :: chimes) last a'

namespace Course

variable {now last : Nat} {a : Alarm} {before after : Option Alarm} {chimes : List Chime}

theorem trans {last' : Nat} {after' : Option Alarm} {later : List Chime}
    (first : Course now before chimes last after) (second : Course last after later last' after') :
    Course now before (chimes ++ later) last' after' := by
  induction first with
  | rest => exact second
  | wait on _ ih => exact .wait on (ih second)
  | chime _ ih => exact .chime (ih second)

theorem le_last (course : Course now before chimes last after) : now ≤ last := by
  induction course with
  | rest => exact Nat.le_refl _
  | wait on _ ih => exact Nat.le_trans on ih
  | chime _ ih => exact ih

theorem silent (course : Course now before chimes last after) (absent : before = none) :
    chimes = [] ∧ after = none := by
  induction course with
  | rest => exact ⟨rfl, absent⟩
  | wait _ _ ih => exact ih absent
  | chime => exact nomatch absent

theorem once (course : Course now before chimes last after) (running : before = some a)
    (once : a.period = none) :
    chimes = [] ∧ after = some a ∨
      chimes = [⟨a.due, a.number, a.target⟩] ∧ after = none ∧ a.due ≤ last := by
  induction course with
  | rest => exact Or.inl ⟨rfl, running⟩
  | wait _ _ ih => exact ih running
  | chime course =>
    obtain rfl := (Option.some.inj running).symm
    obtain ⟨rfl, gone⟩ := course.silent (by rw [Alarm.next, once, Option.map_none])
    exact Or.inr ⟨rfl, gone, course.le_last⟩

/-- A repeating alarm has chimed at the first instants of its rhythm, and is due at the next. -/
theorem repeating {p : Nat} (course : Course now before chimes last after)
    (running : before = some a) (repeats : a.period = some p) :
    ∃ k, chimes = (List.range k).map (fun j => ⟨a.due + j * p, a.number, a.target⟩) ∧
      (∀ j < k, a.due + j * p ≤ last) ∧ after = some { a with due := a.due + k * p } := by
  induction course generalizing a with
  | rest =>
    refine ⟨0, rfl, fun j lt => absurd lt (Nat.not_lt_zero j), ?_⟩
    rw [Nat.zero_mul]
    exact running
  | wait _ _ ih => exact ih running repeats
  | chime course ih =>
    obtain rfl := (Option.some.inj running).symm
    have next : a.next = some { a with due := a.due + p } := by
      rw [Alarm.next, repeats, Option.map_some]
    -- From the second chime on it is the same rhythm, one period later.
    obtain ⟨k, chimes, past, after⟩ := ih next repeats
    have shift (j : Nat) : a.due + p + j * p = a.due + (j + 1) * p := by
      rw [Nat.succ_mul, Nat.add_assoc, Nat.add_comm p]
    simp only [shift] at chimes past after
    refine ⟨k + 1, ?_, ?_, after⟩
    · rw [List.range_succ_eq_map, List.map_cons, List.map_map, chimes, Nat.zero_mul]
      rfl
    · intro j lt
      cases j with
      | zero =>
        rw [Nat.zero_mul]
        exact course.le_last
      | succ j => exact past j (Nat.lt_of_succ_lt_succ lt)

end Course

end Alarm

namespace Clock

variable {c c' : Clock late} {chimes : List Chime}

theorem Sound.course_ring (sound : c.Sound) (t : Target) :
    Alarm.Course c.now (c.alarm? t) (c.ring.2.filter (·.target = t)) c.now (c.ring.1.alarm? t) := by
  rw [sound.chimes_ring, sound.alarm?_ring]
  cases found : c.alarm? t with
  | none => exact .rest ..
  | some a =>
    rw [Option.bind_some, Option.toList_some, List.flatMap_singleton]
    rcases Nat.lt_or_eq_of_le (sound.timely a (mem_of_alarm? found)) with early | now
    · rw [Alarm.chimes_early early, Alarm.after_early early]
      exact .rest ..
    · rw [now, Alarm.chimes_due, Alarm.after_due]
      exact .chime (.rest ..)

theorem Passes.course (passes : Passes c c' chimes) (sound : c.Sound) (t : Target) :
    Alarm.Course c.now (c.alarm? t) (chimes.filter (·.target = t)) c'.now (c'.alarm? t) := by
  induction passes with
  | nothing => exact .rest ..
  | move instant on first _ ih =>
    exact .wait on (ih (sound.move instant first))
  | ring _ ih =>
    rw [List.filter_append]
    exact (sound.course_ring t).trans (ih sound.ring)

end Clock

end HostBridge
