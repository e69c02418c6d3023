import HostBridge.Host.Queue
import HostBridge.Proofs.Timers.Instructions
import HostBridge.Proofs.Timers.Manual
/-!
# Every fire is accounted for

A manual facility beside the queue that it posts to. Whatever the embedder does with the two, the
queue gives out each posted fire once and in order, a one-shot timer has one fire at most, and what
an expiry posts and takes away can be told from what is scheduled.
-/

namespace HostBridge

open Instruction

namespace Manual

variable {m : Manual} {t : Target}

theorem get?_of_not_isScheduled (absent : ¬ m.isScheduled t) : m.get? t = none := by
  cases found : m.get? t with
  | none => rfl
  | some s => exact absurd (isScheduled_iff.mpr ⟨s, found⟩) absent

theorem expire_fires (m : Manual) (f : Fire) :
    (m.expire f).2 = if m.isScheduled f.target then [f] else [] := by
  split
  · rename_i here
    obtain ⟨s, found⟩ := isScheduled_iff.mp here
    rw [expire, found]
  · rename_i absent
    rw [expire, get?_of_not_isScheduled absent]

theorem expire_unscheduled {f : Fire} (absent : ¬ m.isScheduled f.target) :
    (m.expire f).1 = m := by
  rw [expire, get?_of_not_isScheduled absent]

theorem expire_scheduled (distinct : m.Distinct) (f : Fire) :
    (m.expire f).1.scheduled = m.scheduled.filter fun s => s.repeats ∨ s.target ≠ f.target := by
  cases found : m.get? f.target with
  | none =>
    rw [expire, found]
    refine (List.filter_eq_self.mpr fun s mem => ?_).symm
    have other := List.find?_eq_none.mp found s mem
    simp only [decide_eq_true_eq] at other ⊢
    exact Or.inr other
  | some s =>
    have only {s' : Scheduled} (mem : s' ∈ m.scheduled) (named : s'.target = f.target) : s' = s :=
      List.inj_on_of_nodup_map distinct mem (List.mem_of_find?_eq_some found)
        (named.trans (target_of_get? found).symm)
    cases repeats : s.repeats with
    | true =>
      simp only [expire, found, repeats, if_true]
      refine (List.filter_eq_self.mpr fun s' mem => ?_).symm
      by_cases named : s'.target = f.target
      · simp [only mem named, repeats]
      · simp [named]
    | false =>
      simp only [expire, found, repeats, Bool.false_eq_true, if_false]
      refine (Keyed.eraseP_eq distinct f.target).trans (List.filter_congr fun s' mem => ?_)
      refine decide_eq_decide.mpr (or_iff_right_of_imp fun stays named => ?_).symm
      rw [only mem named, repeats] at stays
      cases stays

theorem Distinct.expire (distinct : m.Distinct) (f : Fire) : (m.expire f).1.Distinct :=
  (expires_expire distinct f).distinct

theorem get?_expire (distinct : m.Distinct) (f : Fire) (t : Target) :
    (m.expire f).1.get? t = (m.get? t).filter fun s => s.repeats ∨ s.target ≠ f.target := by
  rw [get?, expire_scheduled distinct]
  exact Keyed.find?_filter distinct _ t

theorem isScheduled_expire (distinct : m.Distinct) (f : Fire) (other : t ≠ f.target)
    (here : m.isScheduled t) : (m.expire f).1.isScheduled t := by
  obtain ⟨s, found⟩ := isScheduled_iff.mp here
  refine isScheduled_iff.mpr ⟨s, ?_⟩
  rw [get?_expire distinct, found, Option.filter_some]
  simp [target_of_get? found, other]

theorem expireEach_eq (distinct : m.Distinct) {ts : List Target} (different : ts.Nodup)
    (here : ∀ t ∈ ts, m.isScheduled t) :
    (m.expireEach ts).2 = ts.map (⟨·, none⟩) ∧
      (m.expireEach ts).1.scheduled = m.scheduled.filter fun s => s.repeats ∨ s.target ∉ ts := by
  induction ts generalizing m with
  | nil =>
    refine ⟨rfl, (List.filter_eq_self.mpr fun s _ => ?_).symm⟩
    simp
  | cons t ts ih =>
    obtain ⟨fresh, different⟩ := List.nodup_cons.mp different
    obtain ⟨first, rest⟩ := List.forall_mem_cons.mp here
    -- An expiry takes away no other target, so those still to come are scheduled.
    have still : ∀ t' ∈ ts, (m.expire ⟨t, none⟩).1.isScheduled t' := by
      intro t' mem
      have other : t' ≠ t := fun same => fresh (same ▸ mem)
      exact isScheduled_expire distinct ⟨t, none⟩ other (rest t' mem)
    obtain ⟨fires, left⟩ := ih (distinct.expire ⟨t, none⟩) different still
    constructor
    · rw [List.map_cons, ← fires]
      exact congrArg (· ++ _) ((m.expire_fires ⟨t, none⟩).trans (if_pos first))
    · refine left.trans ?_
      rw [expire_scheduled distinct, List.filter_filter]
      refine List.filter_congr fun s _ => ?_
      simp only [← Bool.decide_and, List.mem_cons, not_or, ← or_and_left, and_comm]

theorem mem_targets : t ∈ m.targets ↔ m.isScheduled t := by
  simp [targets, isScheduled]

theorem expireAll_fires (distinct : m.Distinct) : m.expireAll.2 = m.targets.map (⟨·, none⟩) :=
  (expireEach_eq distinct distinct fun _ => mem_targets.mp).1

theorem expireAll_scheduled (distinct : m.Distinct) :
    m.expireAll.1.scheduled = m.scheduled.filter (·.repeats) := by
  refine (expireEach_eq distinct distinct fun _ => mem_targets.mp).2.trans ?_
  refine List.filter_congr fun s mem => ?_
  have timed : s.target ∈ m.targets := List.mem_map_of_mem mem
  simp [timed]

inductive Shots : Option Scheduled → List Fire → Option Scheduled → Prop
  | rest (s : Option Scheduled) : Shots s [] s
  | fire {s : Scheduled} {f : Fire} {fires : List Fire} {s' : Option Scheduled}
      (rest : Shots ((some s).filter (·.repeats)) fires s') : Shots (some s) (f :: fires) s'

namespace Shots

variable {before after after' : Option Scheduled} {fires later : List Fire} {s : Scheduled}

theorem trans (first : Shots before fires after) (second : Shots after later after') :
    Shots before (fires ++ later) after' := by
  induction first with
  | rest => exact second
  | fire _ ih => exact .fire (ih second)

theorem silent (shots : Shots before fires after) (absent : before = none) :
    fires = [] ∧ after = none := by
  cases shots with
  | rest => exact ⟨rfl, absent⟩
  | fire => exact nomatch absent

theorem once (shots : Shots before fires after) (here : before = some s)
    (once : s.repeats = false) :
    fires = [] ∧ after = some s ∨ (∃ f, fires = [f]) ∧ after = none := by
  cases shots with
  | rest => exact Or.inl ⟨rfl, here⟩
  | @fire _ f _ _ shots =>
    obtain rfl := (Option.some.inj here).symm
    obtain ⟨rfl, gone⟩ := shots.silent (by rw [Option.filter_some, once, if_neg Bool.false_ne_true])
    exact Or.inr ⟨⟨f, rfl⟩, gone⟩

theorem repeating (shots : Shots before fires after) (here : before = some s)
    (repeats : s.repeats = true) : after = some s := by
  induction shots with
  | rest => exact here
  | fire _ ih =>
    obtain rfl := (Option.some.inj here).symm
    exact ih (by rw [Option.filter_some, repeats, if_pos rfl])

end Shots

theorem shots_expire (distinct : m.Distinct) (f : Fire) (t : Target) :
    Shots (m.get? t) ((m.expire f).2.filter (·.target = t)) ((m.expire f).1.get? t) := by
  rw [expire_fires, get?_expire distinct]
  cases found : m.get? t with
  | none =>
    have silent : (if m.isScheduled f.target then [f] else []).filter (·.target = t) = [] := by
      split
      · rename_i here
        refine List.filter_eq_nil_iff.mpr fun f' mem named => ?_
        rw [List.mem_singleton.mp mem, decide_eq_true_eq] at named
        obtain ⟨s, there⟩ := isScheduled_iff.mp here
        rw [named, found] at there
        cases there
      · rfl
    rw [silent]
    exact .rest none
  | some s =>
    have of_t := target_of_get? found
    by_cases named : f.target = t
    · have here : m.isScheduled f.target := isScheduled_iff.mpr ⟨s, named ▸ found⟩
      rw [if_pos here, List.filter_cons_of_pos (by simpa using named), List.filter_nil]
      have left : (some s).filter (fun s => s.repeats ∨ s.target ≠ f.target) =
          (some s).filter (·.repeats) := by
        simp [Option.filter_some, of_t, named]
      rw [left]
      exact .fire (.rest _)
    · have silent : (if m.isScheduled f.target then [f] else []).filter (·.target = t) = [] := by
        split
        · rw [List.filter_cons_of_neg (by simpa using named), List.filter_nil]
        · rfl
      have left : (some s).filter (fun s => s.repeats ∨ s.target ≠ f.target) = some s := by
        simp [Option.filter_some, of_t, Ne.symm named]
      rw [silent, left]
      exact .rest _

theorem shots_expireAll (distinct : m.Distinct) (t : Target) :
    Shots (m.get? t) (m.expireAll.2.filter (·.target = t)) (m.expireAll.1.get? t) := by
  have left : m.expireAll.1.get? t = (m.get? t).filter (·.repeats) := by
    rw [get?, expireAll_scheduled distinct]
    exact Keyed.find?_filter distinct _ t
  have fires : m.expireAll.2.filter (·.target = t) = (m.get? t).toList.map (⟨·.target, none⟩) := by
    rw [expireAll_fires distinct, targets, List.map_map, List.filter_map]
    exact congrArg _ (Keyed.filter_eq distinct t)
  rw [left, fires]
  cases m.get? t with
  | none => exact .rest none
  | some s => exact .fire (.rest _)

theorem shots_perform (distinct : m.Distinct) (a : Manual.Act) (t : Target) :
    Shots (m.get? t) ((Facility.perform m a).2.filter (·.target = t))
      ((Facility.perform m a).1.get? t) := by
  cases a with
  | expire f => exact shots_expire distinct f t
  | expireAll => exact shots_expireAll distinct t

end Manual

structure Desk where
  facility : Manual := {}
  queue : FireQueue := {}

namespace Desk

inductive Act
  | facility (a : Manual.Act)
  | push (f : Fire)
  | drain

inductive Entry
  | expired (f : Fire)
  | pushed (f : Fire)
  | drained (batch : List Fire)

namespace Entry

def posted? : Entry → Option Fire
  | expired f => some f
  | pushed f => some f
  | drained _ => none

def fired? (t : Target) : Entry → Option Fire
  | expired f => if f.target = t then some f else none
  | _ => none

def batch? : Entry → Option (List Fire)
  | drained batch => some batch
  | _ => none

end Entry

def post (d : Desk) (acted : Manual × List Fire) : Desk × List Entry :=
  (⟨acted.1, d.queue.post acted.2⟩, acted.2.map .expired)

def follow (d : Desk) : Instruction Act → Desk × List Entry
  | .schedule t delay repeats => ({ d with facility := d.facility.schedule t delay repeats }, [])
  | .cancel t => ({ d with facility := d.facility.cancel t }, [])
  | .act (.facility a) => d.post (Facility.perform d.facility a)
  | .act (.push f) => ({ d with queue := d.queue.post [f] }, [.pushed f])
  | .act .drain => ({ d with queue := d.queue.drained }, [.drained d.queue.waiting])

def after (d : Desk) (told : List (Instruction Act)) : Desk := (followAll follow d told).1

def log (d : Desk) (told : List (Instruction Act)) : List Entry := (followAll follow d told).2

variable {d : Desk} {t : Target} {told earlier since : List (Instruction Act)}
  {i : Instruction Act}

theorem posted_expired (fires : List Fire) :
    (fires.map Entry.expired).filterMap Entry.posted? = fires := by
  rw [List.filterMap_map]
  exact List.filterMap_some

theorem batches_expired (fires : List Fire) :
    (fires.map Entry.expired).filterMap Entry.batch? = [] := by
  rw [List.filterMap_map]
  exact List.filterMap_none ..

/-- What is drained was waiting, and what is posted waits. -/
theorem conserved_follow (d : Desk) (i : Instruction Act) :
    ((d.follow i).2.filterMap Entry.batch?).flatten ++ (d.follow i).1.queue.waiting =
      d.queue.waiting ++ (d.follow i).2.filterMap Entry.posted? := by
  have acted (result : Manual × List Fire) :
      ((d.post result).2.filterMap Entry.batch?).flatten ++ (d.post result).1.queue.waiting =
        d.queue.waiting ++ (d.post result).2.filterMap Entry.posted? := by
    rw [post, posted_expired, batches_expired]
    exact d.queue.post_waiting result.2
  cases i with
  | schedule => exact (List.append_nil _).symm
  | cancel => exact (List.append_nil _).symm
  | act a =>
    cases a with
    | facility a => exact acted _
    | push f => exact d.queue.post_waiting [f]
    | drain => simp [follow, Entry.batch?, Entry.posted?, FireQueue.drained]

theorem conserved (d : Desk) (told : List (Instruction Act)) :
    ((d.log told).filterMap Entry.batch?).flatten ++ (d.after told).queue.waiting =
      d.queue.waiting ++ (d.log told).filterMap Entry.posted? := by
  induction told generalizing d with
  | nil => exact (List.append_nil _).symm
  | cons i told ih =>
    have log_cons : d.log (i :: told) = (d.follow i).2 ++ (d.follow i).1.log told := rfl
    have after_cons : d.after (i :: told) = (d.follow i).1.after told := rfl
    rw [log_cons, after_cons, List.filterMap_append, List.filterMap_append, List.flatten_append,
      List.append_assoc, ih, ← List.append_assoc, conserved_follow, List.append_assoc]

def fired (d : Desk) (t : Target) (told : List (Instruction Act)) : List Fire :=
  (d.log told).filterMap (Entry.fired? t)

theorem fired_expired (fires : List Fire) (t : Target) :
    (fires.map Entry.expired).filterMap (Entry.fired? t) = fires.filter (·.target = t) := by
  rw [List.filterMap_map, ← List.filterMap_eq_filter]
  refine List.filterMap_congr fun f _ => ?_
  simp [Entry.fired?, Option.guard]

theorem distinct_follow (distinct : d.facility.Distinct) (i : Instruction Act) :
    (d.follow i).1.facility.Distinct := by
  cases i with
  | schedule t delay repeats => exact distinct.schedule t delay repeats
  | cancel t => exact distinct.cancel t
  | act a =>
    cases a with
    | facility a => exact (Manual.expires_perform distinct a).distinct
    | push => exact distinct
    | drain => exact distinct

theorem distinct_after (distinct : d.facility.Distinct) (told : List (Instruction Act)) :
    (d.after told).facility.Distinct := by
  induction told generalizing d with
  | nil => exact distinct
  | cons i told ih => exact ih (distinct_follow distinct i)

theorem shots_follow (distinct : d.facility.Distinct) (other : i.target? ≠ some t) :
    Manual.Shots (d.facility.get? t) ((d.follow i).2.filterMap (Entry.fired? t))
      ((d.follow i).1.facility.get? t) := by
  cases i with
  | schedule t' delay repeats =>
    have kept : (d.facility.schedule t' delay repeats).get? t = d.facility.get? t := by
      rw [Manual.get?_schedule, if_neg]
      exact fun same => other (congrArg some same.symm)
    rw [follow, kept]
    exact .rest _
  | cancel t' =>
    have kept : (d.facility.cancel t').get? t = d.facility.get? t := by
      rw [Manual.get?_cancel distinct, if_neg]
      exact fun same => other (congrArg some same.symm)
    rw [follow, kept]
    exact .rest _
  | act a =>
    cases a with
    | facility a =>
      rw [follow, post, fired_expired]
      exact Manual.shots_perform distinct a t
    | push f => exact .rest _
    | drain => exact .rest _

/-- While a target is left alone, its fires alone change what is scheduled for it. -/
theorem shots (distinct : d.facility.Distinct) (alone : LeaveAlone t told) :
    Manual.Shots (d.facility.get? t) (d.fired t told) ((d.after told).facility.get? t) := by
  induction told generalizing d with
  | nil => exact .rest _
  | cons i told ih =>
    have first := shots_follow distinct (alone i (List.mem_cons_self ..))
    have rest := ih (distinct_follow distinct i) alone.tail
    have split : d.fired t (i :: told) =
        (d.follow i).2.filterMap (Entry.fired? t) ++ (d.follow i).1.fired t told :=
      List.filterMap_append ..
    rw [split]
    exact first.trans rest

def firedSince (d : Desk) (t : Target) (earlier : List (Instruction Act)) (i : Instruction Act)
    (since : List (Instruction Act)) : List Fire :=
  ((d.after earlier).follow i).1.fired t since

theorem shots_since (distinct : d.facility.Distinct) (latest : Latest t told earlier i since) :
    Manual.Shots (((d.after earlier).follow i).1.facility.get? t) (d.firedSince t earlier i since)
      ((d.after told).facility.get? t) := by
  have there := distinct_follow (distinct_after distinct earlier) i
  have all : d.after told = ((d.after earlier).follow i).1.after since := by
    rw [after, latest.split, followAll_append]
    rfl
  rw [all]
  exact shots there latest.alone

structure Accounts (d : Desk) (told : List (Instruction Act)) : Prop where
  conserved : ((d.log told).filterMap Entry.batch?).flatten ++ (d.after told).queue.waiting =
    (d.log told).filterMap Entry.posted?
  once : ∀ {t earlier delay since}, Latest t told earlier (.schedule t delay false) since →
    let fires := d.firedSince t earlier (.schedule t delay false) since
    fires = [] ∧ (d.after told).facility.get? t = some ⟨t, delay, false⟩ ∨
      (∃ f, fires = [f]) ∧ (d.after told).facility.get? t = none
  repeating : ∀ {t earlier delay since}, Latest t told earlier (.schedule t delay true) since →
    (d.after told).facility.get? t = some ⟨t, delay, true⟩
  cancelled : ∀ {t earlier since}, Latest t told earlier (.cancel t) since →
    d.firedSince t earlier (.cancel t) since = [] ∧ (d.after told).facility.get? t = none
  unscheduled : ∀ {t}, LeaveAlone t told →
    d.fired t told = [] ∧ (d.after told).facility.get? t = none
  expire : ∀ f, let last := d.after told
    let next := last.follow (.act (.facility (.expire f)))
    next.2 = (if last.facility.isScheduled f.target then [.expired f] else []) ∧
      (¬ last.facility.isScheduled f.target → next.1 = last) ∧
      next.1.facility.scheduled =
        last.facility.scheduled.filter fun s => s.repeats ∨ s.target ≠ f.target
  expireAll : let last := d.after told
    let next := last.follow (.act (.facility .expireAll))
    next.2 = last.facility.targets.map (fun t => .expired ⟨t, none⟩) ∧
      next.1.facility.scheduled = last.facility.scheduled.filter (·.repeats)

theorem follow_expire (d : Desk) (f : Fire) :
    d.follow (.act (.facility (.expire f))) = d.post (d.facility.expire f) := rfl

theorem follow_expireAll (d : Desk) :
    d.follow (.act (.facility .expireAll)) = d.post d.facility.expireAll := rfl

theorem expire_posts (d : Desk) (f : Fire) : (d.follow (.act (.facility (.expire f)))).2 =
    if d.facility.isScheduled f.target then [.expired f] else [] := by
  rw [follow_expire, post, Manual.expire_fires]
  split <;> rfl

theorem expire_unscheduled {f : Fire} (absent : ¬ d.facility.isScheduled f.target) :
    (d.follow (.act (.facility (.expire f)))).1 = d := by
  rw [follow_expire, post, Manual.expire_unscheduled absent, Manual.expire_fires, if_neg absent]
  rfl

/-- Every desk accounts for its fires. -/
theorem accounts (told : List (Instruction Act)) : Accounts {} told := by
  have distinct : (Desk.mk {} {}).facility.Distinct := List.nodup_nil
  have last : (after {} told).facility.Distinct := distinct_after distinct told
  constructor
  · exact conserved {} told
  · intro t earlier delay since latest
    refine (shots_since distinct latest).once ?_ rfl
    exact (Manual.get?_schedule t delay false _ t).trans (if_pos rfl)
  · intro t earlier delay since latest
    refine (shots_since distinct latest).repeating ?_ rfl
    exact (Manual.get?_schedule t delay true _ t).trans (if_pos rfl)
  · intro t earlier since latest
    refine (shots_since distinct latest).silent ?_
    exact (Manual.get?_cancel (distinct_after distinct earlier) t t).trans (if_pos rfl)
  · exact fun alone => (shots distinct alone).silent rfl
  · exact fun f => ⟨expire_posts _ f, expire_unscheduled, Manual.expire_scheduled last f⟩
  · refine ⟨?_, Manual.expireAll_scheduled last⟩
    rw [follow_expireAll, post, Manual.expireAll_fires last, List.map_map]
    rfl

end Desk

end HostBridge
