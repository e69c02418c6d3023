import HostBridge.Host.Clock
import HostBridge.Proofs.Keyed
/-!
# The alarms of a clock and their table

While a clock is sound, each target has one running alarm at most, and the table lists just the
running alarms under their targets. So to cancel a target ends its alarm and no other, to schedule
it puts a new alarm in the place of its old one, and an alarm that ends strikes its own entry.
-/

namespace HostBridge

namespace Alarm

variable {late : Lateness} {a b : Alarm} {now : Nat}

def entry (a : Alarm) : Target × Nat := (a.target, a.number)

def next (a : Alarm) : Option Alarm := a.period.map fun p => { a with due := a.due + p }

theorem chimes_early (early : now < a.due) : a.chimes late now = [] := by
  rw [chimes, rings, if_pos early, List.replicate_zero]

theorem after_early (early : now < a.due) : a.after late now = some a := by
  rw [after, if_pos early]

theorem rings_due (a : Alarm) : a.rings late a.due = 1 := by
  rw [rings, if_neg (Nat.lt_irrefl _)]
  cases a.period with
  | none => rfl
  | some p => exact if_pos rfl

theorem chimes_due (a : Alarm) : a.chimes late a.due = [⟨a.due, a.number, a.target⟩] := by
  rw [chimes, rings_due, List.replicate_one]

theorem after_due (a : Alarm) : a.after late a.due = a.next := by
  simp only [after, Nat.lt_irrefl, if_false, if_true, next]

theorem eq_of_after (a b : Alarm) (stays : a.after late now = some b) : b = { a with due := b.due } := by
  rw [after] at stays
  split at stays
  · rw [Option.some.inj stays]
  · obtain ⟨p, -, rfl⟩ := Option.map_eq_some_iff.mp stays
    rfl

theorem entry_of_after (a b : Alarm) (stays : a.after late now = some b) : b.entry = a.entry := by
  rw [eq_of_after a b stays]
  rfl

theorem target_of_after (a b : Alarm) (stays : a.after late now = some b) : b.target = a.target := by
  rw [eq_of_after a b stays]

theorem number_of_after (a b : Alarm) (stays : a.after late now = some b) : b.number = a.number := by
  rw [eq_of_after a b stays]

theorem period_of_after (a b : Alarm) (stays : a.after late now = some b) : b.period = a.period := by
  rw [eq_of_after a b stays]

theorem lt_due_of_after (positive : ∀ p, a.period = some p → 0 < p) (timely : now ≤ a.due)
    (stays : a.after late now = some b) : now < b.due := by
  rcases Nat.lt_or_eq_of_le timely with early | rfl
  · rw [after_early early] at stays
    rw [← Option.some.inj stays]
    exact early
  · rw [after_due] at stays
    obtain ⟨p, repeats, rfl⟩ := Option.map_eq_some_iff.mp stays
    exact Nat.lt_add_of_pos_right (positive p repeats)

theorem filter_chimes (a : Alarm) (now : Nat) (t : Target) :
    (a.chimes late now).filter (·.target = t) = if a.target = t then a.chimes late now else [] := by
  rw [chimes, List.filter_replicate]
  simp only [decide_eq_true_eq]

end Alarm

namespace Clock

variable {late : Lateness}

def alarm? (c : Clock late) (t : Target) : Option Alarm := c.alarms.find? (·.target = t)

/-- The table lists the running alarms, and none of them is late. -/
structure Sound (c : Clock late) : Prop where
  table : c.table = c.alarms.map Alarm.entry
  targets : (c.alarms.map Alarm.target).Nodup
  numbers : (c.alarms.map Alarm.number).Nodup
  started : ∀ a ∈ c.alarms, a.number < c.started
  periods : ∀ a ∈ c.alarms, ∀ p, a.period = some p → 0 < p
  timely : ∀ a ∈ c.alarms, c.now ≤ a.due

variable {c : Clock late} {t : Target} {a : Alarm}

theorem mem_of_alarm? (found : c.alarm? t = some a) : a ∈ c.alarms := List.mem_of_find?_eq_some found

theorem target_of_alarm? (found : c.alarm? t = some a) : a.target = t := Keyed.key_of_find? found

theorem Sound.alarm?_target (sound : c.Sound) (mem : a ∈ c.alarms) :
    c.alarm? a.target = some a :=
  Keyed.find?_of_mem sound.targets mem

theorem Sound.number?_eq (sound : c.Sound) (t : Target) :
    c.number? t = (c.alarm? t).map Alarm.number := by
  rw [number?, alarm?, sound.table, List.find?_map, Option.map_map]
  rfl

theorem Sound.mem_table (sound : c.Sound) (t : Target) :
    t ∈ c.table.map Prod.fst ↔ ∃ a, c.alarm? t = some a := by
  rw [sound.table, List.map_map]
  constructor
  · intro mem
    obtain ⟨a, running, rfl⟩ := List.mem_map.mp mem
    exact ⟨a, sound.alarm?_target running⟩
  · rintro ⟨a, found⟩
    exact List.mem_map.mpr ⟨a, mem_of_alarm? found, target_of_alarm? found⟩

theorem sound_start (instant : Nat) : ({ now := instant } : Clock late).Sound :=
  ⟨rfl, List.nodup_nil, List.nodup_nil, fun _ mem => (nomatch mem), fun _ mem => (nomatch mem),
    fun _ mem => nomatch mem⟩

def others (c : Clock late) (t : Target) : List Alarm := c.alarms.filter (·.target ≠ t)

theorem others_sublist (c : Clock late) (t : Target) : (c.others t).Sublist c.alarms :=
  List.filter_sublist

theorem Sound.struck_one (sound : c.Sound) (t : Target) :
    c.struck [t] = (c.others t).map Alarm.entry := by
  rw [struck, sound.table, List.filter_map, others]
  refine congrArg (List.map Alarm.entry) (List.filter_congr fun a _ => decide_eq_decide.mpr ?_)
  rw [List.mem_singleton]
  rfl

/-- The table names the alarm of the target, so it is the one that is aborted. -/
theorem Sound.abort_number (sound : c.Sound) (t : Target) :
    abort c.alarms (c.number? t) = c.others t := by
  refine List.filter_congr fun a mem => decide_eq_decide.mpr (not_congr ?_)
  rw [sound.number?_eq, Option.map_eq_some_iff]
  constructor
  · rintro ⟨b, found, same⟩
    rw [List.inj_on_of_nodup_map sound.numbers mem (mem_of_alarm? found) same.symm]
    exact target_of_alarm? found
  · rintro rfl
    exact ⟨a, sound.alarm?_target mem, rfl⟩

theorem Sound.cancel_eq (sound : c.Sound) (t : Target) :
    c.cancel t = { c with alarms := c.others t, table := (c.others t).map Alarm.entry } := by
  rw [cancel, sound.abort_number, sound.struck_one]

theorem Sound.schedule_eq (sound : c.Sound) (t : Target) (delay : Duration) (repeats : Bool) :
    c.schedule t delay repeats =
      let alarms := c.others t ++ [c.newAlarm t delay repeats]
      { c with alarms, table := alarms.map Alarm.entry, started := c.started + 1 } := by
  -- The new alarm has a new number, which the table does not know yet.
  have spared : abort [c.newAlarm t delay repeats] (c.number? t) = [c.newAlarm t delay repeats] := by
    refine List.filter_eq_self.mpr fun a mem => decide_eq_true fun named => ?_
    rw [List.mem_singleton.mp mem, sound.number?_eq] at named
    obtain ⟨b, found, same⟩ := Option.map_eq_some_iff.mp named
    exact Nat.lt_irrefl _ (same ▸ sound.started b (mem_of_alarm? found))
  have aborted : abort (c.alarms ++ [c.newAlarm t delay repeats]) (c.number? t) =
      c.others t ++ [c.newAlarm t delay repeats] := by
    rw [abort, List.filter_append, ← abort, ← abort, sound.abort_number, spared]
  have listed : (c.others t ++ [c.newAlarm t delay repeats]).map Alarm.entry =
      (c.others t).map Alarm.entry ++ [(t, c.started)] := List.map_append ..
  rw [schedule, aborted, sound.struck_one]
  exact congrArg (fun table => Clock.mk c.now _ table (c.started + 1)) listed.symm

theorem Sound.alarm?_cancel (sound : c.Sound) (t' t : Target) :
    (c.cancel t').alarm? t = if t = t' then none else c.alarm? t := by
  rw [sound.cancel_eq]
  exact Keyed.find?_filter_ne c.alarms t' t

theorem Sound.alarm?_schedule (sound : c.Sound) (t' : Target) (delay : Duration) (repeats : Bool)
    (t : Target) : (c.schedule t' delay repeats).alarm? t =
      if t = t' then some (c.newAlarm t' delay repeats) else c.alarm? t := by
  have kept : (c.others t').find? (·.target = t) = if t = t' then none else c.alarm? t :=
    Keyed.find?_filter_ne c.alarms t' t
  rw [sound.schedule_eq, alarm?, List.find?_append, kept]
  split
  · rename_i same
    simp [newAlarm, same]
  · rename_i other
    simp [newAlarm, Ne.symm other]

theorem Sound.cancel (sound : c.Sound) (t : Target) : (c.cancel t).Sound := by
  have fewer := c.others_sublist t
  rw [sound.cancel_eq]
  exact ⟨rfl, sound.targets.sublist (fewer.map _), sound.numbers.sublist (fewer.map _),
    fun a mem => sound.started a (fewer.subset mem), fun a mem => sound.periods a (fewer.subset mem),
    fun a mem => sound.timely a (fewer.subset mem)⟩

theorem Sound.schedule (sound : c.Sound) (t : Target) (delay : Duration) (repeats : Bool) :
    (c.schedule t delay repeats).Sound := by
  have fewer := c.others_sublist t
  rw [sound.schedule_eq]
  constructor
  · rfl
  · refine Keyed.nodup_snoc (sound.targets.sublist (fewer.map _)) fun a mem => ?_
    simpa [newAlarm] using List.of_mem_filter mem
  · refine Keyed.nodup_snoc (sound.numbers.sublist (fewer.map _)) fun a mem => ?_
    exact Nat.ne_of_lt (sound.started a (fewer.subset mem))
  · refine List.forall_mem_append.mpr ⟨fun a mem => ?_, List.forall_mem_singleton.mpr ?_⟩
    · exact Nat.lt_succ_of_lt (sound.started a (fewer.subset mem))
    · exact Nat.lt_succ_self _
  · refine List.forall_mem_append.mpr ⟨fun a mem => ?_, List.forall_mem_singleton.mpr ?_⟩
    · exact sound.periods a (fewer.subset mem)
    · intro p repeating
      obtain ⟨-, period⟩ := Option.ite_none_right_eq_some.mp repeating
      rw [← Option.some.inj period]
      exact Nat.lt_of_lt_of_le Nat.zero_lt_one (Nat.le_max_right ..)
  · refine List.forall_mem_append.mpr ⟨fun a mem => ?_, List.forall_mem_singleton.mpr ?_⟩
    · exact sound.timely a (fewer.subset mem)
    · exact Nat.le_add_right ..

theorem Sound.mem_ending (sound : c.Sound) (mem : a ∈ c.alarms) (now : Nat) :
    a.target ∈ c.ending now ↔ a.after late now = none := by
  rw [ending, List.mem_map]
  constructor
  · rintro ⟨b, ends, same⟩
    obtain ⟨running, ends⟩ := List.mem_filter.mp ends
    rw [← List.inj_on_of_nodup_map sound.targets running mem same]
    exact of_decide_eq_true ends
  · intro ends
    exact ⟨a, List.mem_filter.mpr ⟨mem, decide_eq_true ends⟩, rfl⟩

theorem Sound.struck_ending (sound : c.Sound) (now : Nat) :
    c.struck (c.ending now) = (c.alarms.filterMap (·.after late now)).map Alarm.entry := by
  rw [Keyed.map_filterMap Alarm.entry_of_after, struck, sound.table, List.filter_map]
  refine congrArg (List.map Alarm.entry) (List.filter_congr fun a mem => ?_)
  rw [Bool.eq_iff_iff, Option.isSome_iff_ne_none]
  exact decide_eq_true_iff.trans (not_congr (sound.mem_ending mem now))

theorem Sound.alarm?_ring (sound : c.Sound) (t : Target) :
    c.ring.1.alarm? t = (c.alarm? t).bind (·.after late c.now) :=
  Keyed.find?_filterMap sound.targets Alarm.target_of_after t

theorem Sound.chimes_ring (sound : c.Sound) (t : Target) :
    c.ring.2.filter (·.target = t) = (c.alarm? t).toList.flatMap (·.chimes late c.now) := by
  have apart (alarms : List Alarm) :
      (alarms.flatMap (·.chimes late c.now)).filter (·.target = t) =
        (alarms.filter (·.target = t)).flatMap (·.chimes late c.now) := by
    induction alarms with
    | nil => rfl
    | cons a alarms ih =>
      rw [List.flatMap_cons, List.filter_append, ih, Alarm.filter_chimes, List.filter_cons]
      by_cases named : a.target = t
      · simp [named]
      · simp [named]
  have perm : c.inOrder.Perm c.alarms := List.mergeSort_perm ..
  have distinct : (c.inOrder.map Alarm.target).Nodup :=
    (perm.map _).nodup_iff.mpr sound.targets
  rw [ring, apart, Keyed.filter_eq distinct, Keyed.find?_perm perm distinct]
  rfl

theorem Sound.lt_due_ring (sound : c.Sound) : ∀ b ∈ c.ring.1.alarms, c.now < b.due := by
  intro b mem
  obtain ⟨a, running, stays⟩ := List.mem_filterMap.mp mem
  exact Alarm.lt_due_of_after (sound.periods a running) (sound.timely a running) stays

theorem Sound.ring (sound : c.Sound) : c.ring.1.Sound := by
  constructor
  · exact sound.struck_ending c.now
  · exact Keyed.nodup_filterMap Alarm.target_of_after sound.targets
  · exact Keyed.nodup_filterMap Alarm.number_of_after sound.numbers
  · intro b mem
    obtain ⟨a, running, stays⟩ := List.mem_filterMap.mp mem
    rw [Alarm.number_of_after a b stays]
    exact sound.started a running
  · intro b mem
    obtain ⟨a, running, stays⟩ := List.mem_filterMap.mp mem
    rw [Alarm.period_of_after a b stays]
    exact sound.periods a running
  · exact fun b mem => Nat.le_of_lt (sound.lt_due_ring b mem)

end Clock

end HostBridge
