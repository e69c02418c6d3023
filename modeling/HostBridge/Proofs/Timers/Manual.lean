import HostBridge.Host.Manual
import HostBridge.Proofs.Keyed
import HostBridge.World
/-!
# What the manual facility times

A target is scheduled at most once. Scheduling it again replaces what was scheduled, and it is
scheduled no more once it has been cancelled or its one shot has expired.
-/

namespace HostBridge

variable {Obj : Type}

namespace Manual

def Distinct (m : Manual) : Prop := m.targets.Nodup

variable {m m' : Manual} {t t' : Target}

theorem target_of_get? {s : Scheduled} (found : m.get? t = some s) : s.target = t :=
  Keyed.key_of_find? found

theorem Distinct.get?_target (distinct : m.Distinct) {s : Scheduled} (mem : s ∈ m.scheduled) :
    m.get? s.target = some s :=
  Keyed.find?_of_mem distinct mem

theorem isScheduled_iff : m.isScheduled t = true ↔ ∃ s, m.get? t = some s := by
  rw [isScheduled, ← List.isSome_find?, Option.isSome_iff_exists]
  rfl

section

variable (t' : Target) (delay : Duration) (repeats : Bool)

def replace (s : Scheduled) : Scheduled := if s.target = t' then ⟨t', delay, repeats⟩ else s

theorem replace_target (s : Scheduled) : (replace t' delay repeats s).target = s.target := by
  unfold replace
  split
  · rename_i same
    exact same.symm
  · rfl

theorem schedule_eq (m : Manual) : m.schedule t' delay repeats =
    if m.isScheduled t' then ⟨m.scheduled.map (replace t' delay repeats)⟩
    else ⟨m.scheduled ++ [⟨t', delay, repeats⟩]⟩ := rfl

theorem get?_schedule (m : Manual) (t : Target) : (m.schedule t' delay repeats).get? t =
    if t = t' then some ⟨t', delay, repeats⟩ else m.get? t := by
  rw [schedule_eq]
  by_cases here : m.isScheduled t' = true
  · have mapped : (m.scheduled.map (replace t' delay repeats)).find? (·.target = t) =
        (m.get? t).map (replace t' delay repeats) := by
      rw [List.find?_map, get?]
      simp only [Function.comp_def, replace_target]
    rw [if_pos here, get?, mapped]
    by_cases same : t = t'
    · obtain ⟨s, found⟩ := isScheduled_iff.mp here
      rw [if_pos same, same, found, Option.map_some, replace, if_pos (target_of_get? found)]
    · rw [if_neg same]
      cases found : m.get? t with
      | none => rfl
      | some s =>
        rw [Option.map_some, replace, if_neg]
        rw [target_of_get? found]
        exact same
  · rw [if_neg here, get?, List.find?_append, ← get?, List.find?_singleton]
    by_cases same : t = t'
    · have absent : m.get? t = none := by
        cases found : m.get? t with
        | none => rfl
        | some s => exact absurd (isScheduled_iff.mpr ⟨s, same ▸ found⟩) here
      rw [absent, if_pos same, if_pos (decide_eq_true same.symm), Option.none_or]
    · rw [if_neg same, if_neg (by simpa using Ne.symm same), Option.or_none]

theorem Distinct.schedule (distinct : m.Distinct) : (m.schedule t' delay repeats).Distinct := by
  rw [schedule_eq]
  split
  · have same : (m.scheduled.map (replace t' delay repeats)).map Scheduled.target = m.targets := by
      rw [List.map_map]
      exact List.map_congr_left fun s _ => replace_target t' delay repeats s
    rw [Distinct, targets, same]
    exact distinct
  · rename_i free
    refine Keyed.nodup_snoc distinct fun s mem named => free (isScheduled_iff.mpr ⟨s, ?_⟩)
    rw [← show s.target = t' from named]
    exact distinct.get?_target mem

end

theorem get?_cancel (distinct : m.Distinct) (t' t : Target) :
    (m.cancel t').get? t = if t = t' then none else m.get? t :=
  Keyed.find?_eraseP distinct t' t

theorem Distinct.cancel (distinct : m.Distinct) (t' : Target) : (m.cancel t').Distinct :=
  distinct.sublist (List.eraseP_sublist.map Scheduled.target)

structure Expires (m m' : Manual) (fires : List Fire) : Prop where
  kept : ∀ t, m'.get? t = m.get? t ∨ m'.get? t = none ∧ ∃ f ∈ fires, f.target = t
  scheduled : ∀ f ∈ fires, ∃ s, m.get? f.target = some s ∧
    m'.get? f.target = if s.repeats then some s else none
  distinct : m'.Distinct

theorem Expires.nothing (distinct : m.Distinct) : m.Expires m [] :=
  ⟨fun _ => Or.inl rfl, (fun _ mem => nomatch mem), distinct⟩

theorem Expires.trans {m'' : Manual} {fires later : List Fire} (first : m.Expires m' fires)
    (second : m'.Expires m'' later) : m.Expires m'' (fires ++ later) := by
  constructor
  · intro t
    rcases second.kept t with same | ⟨gone, f, mem, named⟩
    · rw [same]
      rcases first.kept t with kept | ⟨gone, f, mem, named⟩
      · exact Or.inl kept
      · exact Or.inr ⟨gone, f, List.mem_append_left later mem, named⟩
    · exact Or.inr ⟨gone, f, List.mem_append_right fires mem, named⟩
  · intro f mem
    rcases List.mem_append.mp mem with early | late
    · obtain ⟨s, found, after⟩ := first.scheduled f early
      refine ⟨s, found, ?_⟩
      rcases second.kept f.target with same | ⟨gone, f', late, named⟩
      · rw [same, after]
      · obtain ⟨s', there, afterwards⟩ := second.scheduled f' late
        rw [named, after] at there
        rw [named] at afterwards
        split at there
        · rw [afterwards, Option.some.inj there]
        · exact nomatch there
    · obtain ⟨s, found, after⟩ := second.scheduled f late
      refine ⟨s, ?_, after⟩
      rcases first.kept f.target with same | ⟨gone, _⟩
      · rw [← same, found]
      · rw [found] at gone
        exact nomatch gone
  · exact second.distinct

theorem expires_expire (distinct : m.Distinct) (f : Fire) :
    m.Expires (m.expire f).1 (m.expire f).2 := by
  cases found : m.get? f.target with
  | none =>
    simp only [expire, found]
    exact .nothing distinct
  | some s =>
    cases repeats : s.repeats with
    | true =>
      simp only [expire, found, repeats, if_true]
      refine ⟨fun _ => Or.inl rfl, ?_, distinct⟩
      intro f' mem
      rw [List.mem_singleton.mp mem]
      exact ⟨s, found, by rw [found, repeats, if_pos rfl]⟩
    | false =>
      simp only [expire, found, repeats, Bool.false_eq_true, if_false]
      refine ⟨?_, ?_, distinct.cancel f.target⟩
      · intro t
        rw [get?_cancel distinct]
        split
        · rename_i same
          exact Or.inr ⟨rfl, f, List.mem_singleton_self f, same.symm⟩
        · exact Or.inl rfl
      · intro f' mem
        rw [List.mem_singleton.mp mem]
        refine ⟨s, found, ?_⟩
        rw [get?_cancel distinct, if_pos rfl, repeats, if_neg Bool.false_ne_true]

theorem expires_expireEach (distinct : m.Distinct) (ts : List Target) :
    m.Expires (m.expireEach ts).1 (m.expireEach ts).2 := by
  induction ts generalizing m with
  | nil => exact .nothing distinct
  | cons t ts ih =>
    have now := expires_expire distinct ⟨t, none⟩
    exact now.trans (ih now.distinct)

theorem expires_perform (distinct : m.Distinct) (a : Facility.Act Manual) :
    m.Expires (Facility.perform m a).1 (Facility.perform m a).2 := by
  cases a with
  | expire f => exact expires_expire distinct f
  | expireAll => exact expires_expireEach distinct m.targets

end Manual

namespace World

theorem facility_foldl_cancel {w : World Obj Manual} (distinct : w.facility.Distinct)
    (ts : List Target) : (ts.foldl World.cancel w).facility.Distinct ∧
      ∀ t, (ts.foldl World.cancel w).facility.get? t =
        if t ∈ ts then none else w.facility.get? t := by
  induction ts generalizing w with
  | nil => exact ⟨distinct, fun t => rfl⟩
  | cons t' ts ih =>
    obtain ⟨still, each⟩ := ih (w := w.cancel t') (distinct.cancel t')
    refine ⟨still, ?_⟩
    intro t
    have first : (w.cancel t').facility.get? t = if t = t' then none else w.facility.get? t :=
      Manual.get?_cancel distinct t' t
    rw [List.foldl_cons, each t, first]
    by_cases same : t = t'
    · simp [same]
    · simp [same]

end World

end HostBridge
