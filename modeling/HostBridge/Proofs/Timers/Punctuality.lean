import HostBridge.Host.Choice
import HostBridge.Proofs.Timers.Instructions
import HostBridge.Proofs.Timers.Passage
import Mathlib.Data.Set.Card
/-!
# The clock keeps time

Whatever a clock is told, what was scheduled last for a target chimes at the instants of its own
schedule, and at no other; what was cancelled or replaced never chimes again; and the targets that
are timed are those whose last schedule has still something to chime.
-/

namespace HostBridge

open Instruction

namespace Clock

variable {late : Lateness}

def follow (c : Clock late) : Instruction Act → Clock late × List Chime
  | .schedule t delay repeats => (c.schedule t delay repeats, [])
  | .cancel t => (c.cancel t, [])
  | .act a => c.act a

def after (c : Clock late) (told : List (Instruction Act)) : Clock late := (followAll follow c told).1

def chimes (c : Clock late) (told : List (Instruction Act)) : List Chime := (followAll follow c told).2

def chimed (c : Clock late) (t : Target) (told : List (Instruction Act)) : List Chime :=
  (c.chimes told).filter (·.target = t)

/-- The clock is moved from one due instant to the next, past none of them. -/
def Paced (c : Clock late) : List (Instruction Act) → Prop
  | [] => True
  | i :: told => (∀ a, i = .act a → c.Reaches a) ∧ Paced (c.follow i).1 told

variable {c : Clock late} {t : Target} {told earlier since rest : List (Instruction Act)}
  {i : Instruction Act}

theorem after_append (c : Clock late) (earlier rest : List (Instruction Act)) :
    c.after (earlier ++ rest) = (c.after earlier).after rest := by
  rw [after, followAll_append]
  rfl

theorem Paced.append_iff :
    c.Paced (earlier ++ rest) ↔ c.Paced earlier ∧ (c.after earlier).Paced rest := by
  induction earlier generalizing c with
  | nil => exact (and_iff_right trivial).symm
  | cons i earlier ih => exact (and_congr_right fun _ => ih).trans and_assoc.symm

theorem Sound.follow (sound : c.Sound) (reaches : ∀ a, i = .act a → c.Reaches a) :
    (c.follow i).1.Sound := by
  cases i with
  | schedule t delay repeats => exact sound.schedule t delay repeats
  | cancel t => exact sound.cancel t
  | act a => exact (act_passes sound a (reaches a rfl)).sound sound

theorem Sound.followAll (sound : c.Sound) (paced : c.Paced told) : (c.after told).Sound := by
  induction told generalizing c with
  | nil => exact sound
  | cons i told ih => exact ih (sound.follow paced.1) paced.2

theorem Sound.course_follow (sound : c.Sound) (reaches : ∀ a, i = .act a → c.Reaches a)
    (other : i.target? ≠ some t) :
    Alarm.Course c.now (c.alarm? t) ((c.follow i).2.filter (·.target = t)) (c.follow i).1.now
      ((c.follow i).1.alarm? t) := by
  cases i with
  | schedule t' delay repeats =>
    have kept : (c.schedule t' delay repeats).alarm? t = c.alarm? t := by
      rw [sound.alarm?_schedule, if_neg]
      exact fun same => other (congrArg some same.symm)
    rw [Clock.follow, kept]
    exact .rest ..
  | cancel t' =>
    have kept : (c.cancel t').alarm? t = c.alarm? t := by
      rw [sound.alarm?_cancel, if_neg]
      exact fun same => other (congrArg some same.symm)
    rw [Clock.follow, kept]
    exact .rest ..
  | act a => exact (act_passes sound a (reaches a rfl)).course sound t

/-- While a target is left alone, its alarm runs its course. -/
theorem Sound.course (sound : c.Sound) (paced : c.Paced told) (alone : LeaveAlone t told) :
    Alarm.Course c.now (c.alarm? t) (c.chimed t told) (c.after told).now ((c.after told).alarm? t) := by
  induction told generalizing c with
  | nil => exact .rest ..
  | cons i told ih =>
    have first := sound.course_follow paced.1 (alone i (List.mem_cons_self ..))
    have rest := ih (sound.follow paced.1) paced.2 alone.tail
    have split : c.chimed t (i :: told) =
        (c.follow i).2.filter (·.target = t) ++ (c.follow i).1.chimed t told := List.filter_append ..
    rw [split]
    exact first.trans rest

structure Reserved (c : Clock late) (n : Nat) (p : Target → Prop) : Prop where
  taken : n < c.started
  targets : ∀ a ∈ c.alarms, a.number = n → p a.target

variable {n : Nat} {p : Target → Prop}

theorem Reserved.of_subset {c' : Clock late} (reserved : c.Reserved n p) (started : c'.started = c.started)
    (fewer : ∀ b ∈ c'.alarms, ∃ a ∈ c.alarms, b.entry = a.entry) : c'.Reserved n p := by
  constructor
  · rw [started]
    exact reserved.taken
  · intro b mem named
    obtain ⟨a, running, same⟩ := fewer b mem
    have target : b.target = a.target := congrArg Prod.fst same
    have number : b.number = a.number := congrArg Prod.snd same
    rw [target]
    exact reserved.targets a running (number.symm.trans named)

theorem Reserved.ring (reserved : c.Reserved n p) :
    c.ring.1.Reserved n p ∧ ∀ x ∈ c.ring.2, x.alarm = n → p x.target := by
  constructor
  · refine reserved.of_subset rfl fun b mem => ?_
    obtain ⟨a, running, stays⟩ := List.mem_filterMap.mp mem
    exact ⟨a, running, Alarm.entry_of_after a b stays⟩
  · intro x mem named
    obtain ⟨a, running, chimes⟩ := List.mem_flatMap.mp mem
    rw [List.eq_of_mem_replicate chimes] at named ⊢
    exact reserved.targets a (List.mem_mergeSort.mp running) named

theorem Passes.reserved {c' : Clock late} {chimes : List Chime} (passes : Passes c c' chimes)
    (reserved : c.Reserved n p) :
    c'.Reserved n p ∧ ∀ x ∈ chimes, x.alarm = n → p x.target := by
  induction passes with
  | nothing => exact ⟨reserved, fun _ mem => nomatch mem⟩
  | move instant _ _ _ ih => exact ih ⟨reserved.taken, reserved.targets⟩
  | ring _ ih =>
    obtain ⟨still, first⟩ := reserved.ring
    obtain ⟨still, rest⟩ := ih still
    exact ⟨still, List.forall_mem_append.mpr ⟨first, rest⟩⟩

theorem Reserved.cancel (reserved : c.Reserved n p) (sound : c.Sound) (t : Target) :
    (c.cancel t).Reserved n fun t' => p t' ∧ t' ≠ t := by
  rw [sound.cancel_eq]
  refine ⟨reserved.taken, fun a mem named => ⟨?_, ?_⟩⟩
  · exact reserved.targets a ((c.others_sublist t).subset mem) named
  · simpa using List.of_mem_filter mem

theorem Reserved.schedule (reserved : c.Reserved n p) (sound : c.Sound) (t : Target)
    (delay : Duration) (repeats : Bool) :
    (c.schedule t delay repeats).Reserved n fun t' => p t' ∧ t' ≠ t := by
  rw [sound.schedule_eq]
  refine ⟨Nat.lt_succ_of_lt reserved.taken, ?_⟩
  refine List.forall_mem_append.mpr ⟨fun a mem named => ⟨?_, ?_⟩, List.forall_mem_singleton.mpr ?_⟩
  · exact reserved.targets a ((c.others_sublist t).subset mem) named
  · simpa using List.of_mem_filter mem
  · exact fun named => absurd named (Nat.ne_of_gt reserved.taken)

theorem Reserved.weaken {q : Target → Prop} (reserved : c.Reserved n p) (le : ∀ t, p t → q t) :
    c.Reserved n q :=
  ⟨reserved.taken, fun a mem named => le _ (reserved.targets a mem named)⟩

theorem Reserved.follow (reserved : c.Reserved n p) (sound : c.Sound)
    (reaches : ∀ a, i = .act a → c.Reaches a) :
    (c.follow i).1.Reserved n p ∧ ∀ x ∈ (c.follow i).2, x.alarm = n → p x.target := by
  cases i with
  | schedule t delay repeats =>
    exact ⟨(reserved.schedule sound t delay repeats).weaken fun _ => And.left,
      fun _ mem => nomatch mem⟩
  | cancel t =>
    exact ⟨(reserved.cancel sound t).weaken fun _ => And.left, fun _ mem => nomatch mem⟩
  | act a => exact (act_passes sound a (reaches a rfl)).reserved reserved

theorem Reserved.followAll (reserved : c.Reserved n p) (sound : c.Sound) (paced : c.Paced told) :
    (c.after told).Reserved n p ∧ ∀ x ∈ c.chimes told, x.alarm = n → p x.target := by
  induction told generalizing c with
  | nil => exact ⟨reserved, fun _ mem => nomatch mem⟩
  | cons i told ih =>
    obtain ⟨still, first⟩ := reserved.follow sound paced.1
    obtain ⟨still, rest⟩ := ih still (sound.follow paced.1) paced.2
    exact ⟨still, List.forall_mem_append.mpr ⟨first, rest⟩⟩

theorem Sound.reserved_schedule (sound : c.Sound) (t : Target) (delay : Duration) (repeats : Bool) :
    (c.schedule t delay repeats).Reserved c.started (· = t) := by
  rw [sound.schedule_eq]
  refine ⟨Nat.lt_succ_self _, List.forall_mem_append.mpr ⟨fun a mem named => ?_, ?_⟩⟩
  · have old := sound.started a ((c.others_sublist t).subset mem)
    exact absurd named (Nat.ne_of_lt old)
  · exact List.forall_mem_singleton.mpr fun _ => rfl

theorem Reserved.ended (reserved : c.Reserved n (· = t)) (sound : c.Sound)
    (names : i.target? = some t) : (c.follow i).1.Reserved n fun _ => False := by
  cases i with
  | schedule t' delay repeats =>
    refine (reserved.schedule sound t' delay repeats).weaken fun t'' ⟨same, other⟩ => other ?_
    exact same.trans (Option.some.inj names).symm
  | cancel t' =>
    refine (reserved.cancel sound t').weaken fun t'' ⟨same, other⟩ => other ?_
    exact same.trans (Option.some.inj names).symm
  | act a => exact nomatch names

/-- The clock has not come to the instant, or has just come to it and not rung yet. -/
def Awaits (c : Clock late) (instant : Nat) : Prop := c.now ≤ instant ∧ (c.Settled → c.now < instant)

def chimedSince (c : Clock late) (t : Target) (earlier : List (Instruction Act)) (i : Instruction Act)
    (since : List (Instruction Act)) : List Chime :=
  ((c.after earlier).follow i).1.chimed t since

/-- What was scheduled last for the target was not cancelled, and it has not had its one shot. -/
def Standing (c : Clock late) (told : List (Instruction Act)) (t : Target) : Prop :=
  ∃ earlier delay repeats since, Latest t told earlier (.schedule t delay repeats) since ∧
    (repeats = true ∨ c.chimedSince t earlier (.schedule t delay repeats) since = [])

/-- What the clock promises about the instructions it has followed. -/
structure KeepsTime (c : Clock late) (told : List (Instruction Act)) : Prop where
  once : ∀ {t earlier delay since}, Latest t told earlier (.schedule t delay false) since →
    let start := c.after earlier
    let chimes := c.chimedSince t earlier (.schedule t delay false) since
    let due := start.now + delay.millis
    chimes = [] ∧ (c.after told).Awaits due ∨
      chimes = [⟨due, start.started, t⟩] ∧ due ≤ (c.after told).now
  repeating : ∀ {t earlier delay since}, Latest t told earlier (.schedule t delay true) since →
    let start := c.after earlier
    let chimes := c.chimedSince t earlier (.schedule t delay true) since
    let due (k : Nat) := start.now + delay.millis + k * max delay.millis 1
    ∃ k, chimes = (List.range k).map (fun j => ⟨due j, start.started, t⟩) ∧
      (∀ j < k, due j ≤ (c.after told).now) ∧ (c.after told).Awaits (due k)
  unscheduled : ∀ {t}, LeaveAlone t told → c.chimed t told = []
  cancelled : ∀ {t earlier since}, Latest t told earlier (.cancel t) since →
    c.chimedSince t earlier (.cancel t) since = []
  replaced : ∀ {t earlier delay repeats since i rest},
    told = earlier ++ .schedule t delay repeats :: since ++ i :: rest → i.target? = some t →
    ∀ x ∈ (c.after (earlier ++ .schedule t delay repeats :: since ++ [i])).chimes rest,
      x.alarm ≠ (c.after earlier).started
  settled : ∀ {earlier a}, told = earlier ++ [.act a] → (∀ d, a ≠ .wait d) → (c.after told).Settled
  pending : {t | c.Standing told t}.encard = (c.after told).pending

theorem Sound.awaits {a : Alarm} (sound : c.Sound) (found : c.alarm? t = some a) :
    c.Awaits a.due :=
  ⟨sound.timely a (mem_of_alarm? found), fun settled => settled a (mem_of_alarm? found)⟩

section

variable (sound : c.Sound) (paced : c.Paced told)
include sound paced

theorem Sound.course_since (latest : Latest t told earlier i since) :
    let start := ((c.after earlier).follow i).1
    Alarm.Course start.now (start.alarm? t) (c.chimedSince t earlier i since) (c.after told).now
      ((c.after told).alarm? t) := by
  rw [latest.split] at paced ⊢
  obtain ⟨first, paced⟩ := Paced.append_iff.mp paced
  have there := sound.followAll first
  rw [after_append]
  exact (there.follow paced.1).course paced.2 latest.alone

theorem Sound.sound_earlier (latest : Latest t told earlier i since) : (c.after earlier).Sound := by
  rw [latest.split] at paced
  exact sound.followAll (Paced.append_iff.mp paced).1

theorem Sound.cancelled (latest : Latest t told earlier (.cancel t) since) :
    c.chimedSince t earlier (.cancel t) since = [] ∧ (c.after told).alarm? t = none := by
  refine (sound.course_since paced latest).silent ?_
  exact ((sound.sound_earlier paced latest).alarm?_cancel t t).trans (if_pos rfl)

theorem Sound.once {delay : Duration}
    (latest : Latest t told earlier (.schedule t delay false) since) :
    let start := c.after earlier
    let chimes := c.chimedSince t earlier (.schedule t delay false) since
    let due := start.now + delay.millis
    chimes = [] ∧ (c.after told).alarm? t = some ⟨start.started, t, due, none⟩ ∨
      chimes = [⟨due, start.started, t⟩] ∧ (c.after told).alarm? t = none ∧
        due ≤ (c.after told).now := by
  have begun := (sound.sound_earlier paced latest).alarm?_schedule t delay false t
  rw [if_pos rfl] at begun
  exact (sound.course_since paced latest).once begun rfl

theorem Sound.repeating {delay : Duration}
    (latest : Latest t told earlier (.schedule t delay true) since) :
    let start := c.after earlier
    let chimes := c.chimedSince t earlier (.schedule t delay true) since
    let due (k : Nat) := start.now + delay.millis + k * max delay.millis 1
    ∃ k, chimes = (List.range k).map (fun j => ⟨due j, start.started, t⟩) ∧
      (∀ j < k, due j ≤ (c.after told).now) ∧
      (c.after told).alarm? t = some ⟨start.started, t, due k, some (max delay.millis 1)⟩ := by
  have begun := (sound.sound_earlier paced latest).alarm?_schedule t delay true t
  rw [if_pos rfl] at begun
  exact (sound.course_since paced latest).repeating begun rfl

theorem Sound.replaced {delay : Duration} {repeats : Bool} (names : i.target? = some t)
    (split : told = earlier ++ .schedule t delay repeats :: since ++ i :: rest) :
    ∀ x ∈ (c.after (earlier ++ .schedule t delay repeats :: since ++ [i])).chimes rest,
      x.alarm ≠ (c.after earlier).started := by
  rw [split] at paced
  obtain ⟨before, pacedHere, pacedRest⟩ := Paced.append_iff.mp paced
  obtain ⟨pacedEarlier, _, pacedSince⟩ := Paced.append_iff.mp before
  have start := sound.followAll pacedEarlier
  -- The number is the target's own until the target is named again, and then nobody's.
  have begun := (start.reserved_schedule t delay repeats).followAll
    (start.schedule t delay repeats) pacedSince
  have middle := sound.followAll before
  rw [after_append] at pacedHere pacedRest middle
  have ended := begun.1.ended middle names
  have rest := ended.followAll (middle.follow pacedHere) pacedRest
  rw [after_append, after_append]
  exact rest.2

theorem Sound.standing_iff (blank : c.alarms = []) :
    c.Standing told t ↔ ∃ a, (c.after told).alarm? t = some a := by
  constructor
  · rintro ⟨earlier, delay, repeats, since, latest, repeats_or_none⟩
    cases repeats with
    | true =>
      obtain ⟨k, _, _, running⟩ := sound.repeating paced latest
      exact ⟨_, running⟩
    | false =>
      rcases sound.once paced latest with ⟨_, running⟩ | ⟨rung, _⟩
      · exact ⟨_, running⟩
      · rw [rung] at repeats_or_none
        simp at repeats_or_none
  · rintro ⟨a, running⟩
    rcases leaveAlone_or_latest t told with alone | ⟨earlier, i, since, latest⟩
    · have gone := ((sound.course paced alone).silent (by simp [alarm?, blank])).2
      rw [running] at gone
      cases gone
    · cases i with
      | schedule t' delay repeats =>
        obtain rfl : t' = t := Option.some.inj latest.names
        refine ⟨earlier, delay, repeats, since, latest, ?_⟩
        cases repeats with
        | true => exact Or.inl rfl
        | false =>
          rcases sound.once paced latest with ⟨none_yet, _⟩ | ⟨_, gone, _⟩
          · exact Or.inr none_yet
          · rw [running] at gone
            cases gone
      | cancel t' =>
        obtain rfl : t' = t := Option.some.inj latest.names
        rw [(sound.cancelled paced latest).2] at running
        cases running
      | act a => cases latest.names

theorem Sound.pending_eq (blank : c.alarms = []) :
    {t | c.Standing told t}.encard = (c.after told).pending := by
  have last := sound.followAll paced
  have distinct : ((c.after told).table.map Prod.fst).Nodup := by
    rw [last.table, List.map_map]
    exact last.targets
  have timed : {t | c.Standing told t} = ((c.after told).table.map Prod.fst).toFinset := by
    ext t
    rw [Set.mem_ofPred_eq, sound.standing_iff paced blank, ← last.mem_table, Finset.mem_coe,
      List.mem_toFinset]
  rw [timed, Set.encard_coe_eq_coe_finsetCard, List.toFinset_card_of_nodup distinct,
    List.length_map, pending]

end

/-- A clock that starts at any instant keeps time. -/
theorem keeps_time (late : Lateness) (instant : Nat) (told : List (Instruction Act))
    (paced : ({ now := instant } : Clock late).Paced told) :
    ({ now := instant } : Clock late).KeepsTime told := by
  have sound : ({ now := instant } : Clock late).Sound := sound_start instant
  have last := sound.followAll paced
  constructor
  · intro t earlier delay since latest
    rcases sound.once paced latest with ⟨none_yet, running⟩ | ⟨rung, _, past⟩
    · exact Or.inl ⟨none_yet, last.awaits running⟩
    · exact Or.inr ⟨rung, past⟩
  · intro t earlier delay since latest
    obtain ⟨k, chimes, past, running⟩ := sound.repeating paced latest
    exact ⟨k, chimes, past, last.awaits running⟩
  · exact fun alone => ((sound.course paced alone).silent rfl).1
  · exact fun latest => (sound.cancelled paced latest).1
  · exact fun split names => sound.replaced paced names split
  · intro earlier a split stirs
    rw [split] at paced ⊢
    obtain ⟨first, reaches, -⟩ := Paced.append_iff.mp paced
    rw [after_append]
    exact act_settled (sound.followAll first) a (reaches a rfl) stirs
  · exact sound.pending_eq paced rfl

/-- A rhythm is cancelled after two beats, and a shot is replaced by an earlier one. -/
theorem rhythm_then_replaced_shot :
    let c : Clock .delayed := {}
    let rhythm : Target := ⟨⟨1⟩, ⟨1⟩⟩
    let shot : Target := ⟨⟨1⟩, ⟨2⟩⟩
    let told : List (Instruction Act) :=
      [.act (.advance ⟨5⟩), .schedule rhythm ⟨10⟩ true, .act (.sleep ⟨25⟩), .cancel rhythm,
        .schedule shot ⟨50⟩ false, .schedule shot ⟨5⟩ false, .act (.wait ⟨100⟩),
        .act (.sleep ⟨100⟩)]
    (c.Paced told ∧ c.KeepsTime told) ∧
      c.chimes told = [⟨15, 0, rhythm⟩, ⟨25, 0, rhythm⟩, ⟨35, 2, shot⟩] := by
  intro c rhythm shot told
  have paced : c.Paced told := by simp [c, told, Paced, Reaches]
  refine ⟨⟨paced, keeps_time .delayed 0 told paced⟩, ?_⟩
  simp [c, told, rhythm, shot, chimes, followAll, follow, act, Clock.sleep, sleepUntil, waitUntil,
    jump, ring, schedule, cancel, newAlarm, abort, struck, ending, number?, inOrder, nextDue,
    Alarm.chimes, Alarm.after, Alarm.rings]

end Clock

end HostBridge
