import HostBridge.Proofs.Execution.Sources
import HostBridge.Proofs.Rejections.Order
import Mathlib.Data.Nat.Count
/-!
# How often an episode is reported

A batch that is taken has an event for every open episode, and every event of a batch is dispatched
in the end. So over any stretch of a run the reports of an episode and those that still wait balance
the batches that were taken while the episode was open.
-/

namespace HostBridge

variable {Obj τ : Type}

def EventKind.reported? (kind : EventKind) (r : Rejection) : Option Episode :=
  match kind with
  | .unhandledRejection => some r.inEpisode
  | .rejectionHandled => none

def Item.event? (c : ContextId) : Item Obj → Option RejectionEvent
  | task t => t.event? c
  | code _ => none

def Item.report? (c : ContextId) (i : Item Obj) : Option Episode :=
  (i.event? c).bind fun v => v.1.reported? v.2

theorem Item.event?_eq_some {c : ContextId} {i : Item Obj} {kind : EventKind} {r : Rejection} :
    i.event? c = some (kind, r) ↔ i = .task (.call (.event c kind r)) := by
  constructor
  · intro event
    cases i with
    | code => cases event
    | task t =>
      simp only [event?, Task.event?] at event
      split at event
      · split at event
        · rename_i same
          obtain ⟨rfl, rfl⟩ := Prod.mk.inj (Option.some.inj event)
          rw [same]
        · cases event
      · cases event
  · rintro rfl
    simp [event?, Task.event?]

theorem reports_of_tasks (c : ContextId) (ts : List (Task Obj)) :
    (ts.map Item.task).filterMap (Item.report? c) =
      (eventsOf c ts).filterMap fun v => v.1.reported? v.2 := by
  rw [List.filterMap_map, eventsOf, List.filterMap_filterMap]
  rfl

theorem Rejections.reports_of_pending (r : Rejections) :
    r.pending.events.filterMap (fun v => v.1.reported? v.2) =
      r.unhandled.map Rejection.inEpisode := by
  have unhandled : (r.pending.unhandled.map (Prod.mk EventKind.unhandledRejection)).filterMap
      (fun v => v.1.reported? v.2) = r.unhandled.map Rejection.inEpisode := by
    rw [List.filterMap_map, pending, List.filterMap_map, ← List.filterMap_eq_map]
    rfl
  have handled : (r.pending.handled.map (Prod.mk EventKind.rejectionHandled)).filterMap
      (fun v => v.1.reported? v.2) = [] := by
    rw [List.filterMap_map]
    exact List.filterMap_eq_nil_iff.mpr fun _ _ => rfl
  rw [Batch.events, List.filterMap_append, unhandled, handled, List.append_nil]

theorem Rejections.Sound.nodup_episodes {r : Rejections} (sound : r.Sound) :
    (r.unhandled.map Rejection.inEpisode).Nodup := by
  have promises : r.unhandled.map Rejection.promise =
      (r.unhandled.map Rejection.inEpisode).map Episode.promise := by
    rw [List.map_map]
    rfl
  exact List.Nodup.of_map Episode.promise (promises ▸ sound.distinct)

theorem World.batch_of_valid {w : World Obj τ} {c : ContextId} (valid : w.isValid c = true) :
    w.batch c = (w.rejections c).pending := by
  rw [batch, rejections]
  cases found : w.context? c with
  | none => simp [isValid, found] at valid
  | some a =>
    have valid : a.valid = true := by simpa [isValid, found] using valid
    simp [valid]

namespace Execution

variable [Facility τ] {E : Embedder Obj τ} {x y : Execution E} {c : ContextId} {e : Episode}

def Takes (x : Execution E) (c : ContextId) (e : Episode) : Prop :=
  x.TakesBatch c ∧ x.Tracked c e

/-- The episodes whose reports wait in a context, each as often as it is to be reported. -/
def awaiting (x : Execution E) (c : ContextId) : List Episode := x.stack.filterMap (Item.report? c)

theorem dispatch?_eq_stack (x : Execution E) (c : ContextId) :
    x.dispatch? c = x.stack.head?.bind (Item.event? c) := by
  rcases at_focus : x.focus with _ | ⟨k, a⟩ | s
  · simp [dispatch?, stack, at_focus]
  · simp [dispatch?, stack, at_focus, Item.event?]
  · rw [stack_of_bridge at_focus]
    simp only [dispatch?, at_focus]
    rcases s.todo with _ | ⟨t, todo⟩ <;> rfl

theorem reports_iff : x.Reports c .unhandledRejection e ↔
    x.stack.head?.bind (Item.report? c) = some e := by
  rw [Reports, dispatch?_eq_stack]
  cases x.stack.head? with
  | none => simp
  | some i =>
    simp only [Option.bind_some, Item.report?]
    constructor
    · rintro ⟨r, event, rfl⟩
      rw [event]
      rfl
    · intro reports
      obtain ⟨⟨kind, r⟩, event, is⟩ := Option.bind_eq_some_iff.mp reports
      cases kind with
      | unhandledRejection => exact ⟨r, event, Option.some.inj is⟩
      | rejectionHandled => cases is

theorem AtCode.not_reports {k : Call Obj} (at_code : x.AtCode k) :
    x.stack.head?.bind (Item.report? c) = none := by
  obtain ⟨rest, top⟩ := at_code
  rw [top]
  rfl

theorem TakesBatch.not_reports (takes : x.TakesBatch c) : ¬ x.Reports c .unhandledRejection e := by
  rw [reports_iff]
  cases takes with
  | flushed next _ =>
    obtain ⟨rest, top⟩ := next
    rw [top]
    exact fun same => nomatch same
  | processed requests _ =>
    rw [requests.atCode.not_reports]
    exact fun same => nomatch same

variable [Traced Obj]

theorem TakesBatch.awaiting {n : Nat} (takes : (x.run n).TakesBatch c) :
    (x.run (n + 1)).awaiting c =
      ((x.run n).world.rejections c).unhandled.map Rejection.inEpisode ++ (x.run n).awaiting c := by
  have batch := World.batch_of_valid takes.valid
  have reported : ((((x.run n).world.batch c).tasks c).map Item.task).filterMap
        (Item.report? c : Item Obj → Option Episode) =
      ((x.run n).world.rejections c).unhandled.map Rejection.inEpisode := by
    rw [reports_of_tasks, eventsOf_tasks, batch, Rejections.reports_of_pending]
  cases takes with
  | flushed next _ =>
    obtain ⟨rest, top⟩ := next
    obtain ⟨_, stack, _⟩ := (x.run_rewrites n).of_task top fun k same => nomatch same
    have first : (x.run (n + 1)).stack =
        (((x.run n).world.batch c).tasks c).map .task ++ rest := stack
    rw [Execution.awaiting, first, List.filterMap_append, reported, Execution.awaiting, top]
    rfl
  | processed requests _ =>
    obtain ⟨at_bridge, below, _⟩ := requests.run_one
    obtain ⟨a, _, _, at_code, _⟩ := requests
    rw [← run_add] at at_bridge below
    rw [Execution.awaiting, stack_of_bridge at_bridge, List.filterMap_append, Execution.awaiting,
      stack_of_code at_code, below]
    exact congrArg (· ++ _) reported

theorem Rewrites.awaiting (rewrites : Rewrites x y) (takes_none : ¬ x.TakesBatch c) :
    x.awaiting c = (x.stack.head?.bind (Item.report? c)).toList ++ y.awaiting c := by
  have pushed : ∀ {first : List (Task Obj)} {rest : List (Item Obj)},
      y.stack = first.map .task ++ rest → eventsOf c first = [] →
      y.awaiting c = rest.filterMap (Item.report? c) := by
    intro first rest stack none_waits
    rw [Execution.awaiting, stack, List.filterMap_append, reports_of_tasks, none_waits]
    rfl
  have of_batch : ∀ c', ¬ (c' = c ∧ x.world.isValid c = true) →
      eventsOf c ((x.world.batch c').tasks c' : List (Task Obj)) = [] := by
    intro c' other
    by_cases same : c' = c
    · subst same
      rw [eventsOf_tasks, World.batch_of_not_valid fun valid => other ⟨rfl, valid⟩]
      rfl
    · exact eventsOf_tasks_other c same _
  cases rewrites with
  | idle no_task stack =>
    have silent : x.stack.head?.bind (Item.report? c) = none := by
      rcases here : x.stack with _ | ⟨t | k, rest⟩
      · rfl
      · exact absurd ⟨rest, here⟩ (no_task t)
      · rfl
    rw [silent, Execution.awaiting, Execution.awaiting, stack]
    rfl
  | performed performs stack =>
    obtain ⟨k, a, _, _, _, here, _⟩ := performs
    have at_code : x.AtCode k := ⟨_, stack_of_code here⟩
    rw [at_code.not_reports, Execution.awaiting, Execution.awaiting, stack]
    rfl
  | @began _ p _ requests stack =>
    have none_waits : eventsOf c (Procedure.start x.world p).first = [] := by
      by_cases other : p.OfTracking
      · cases p with
        | process c' =>
          apply of_batch
          rintro ⟨rfl, valid⟩
          exact takes_none (.processed requests valid)
        | _ => exact other.elim
      · exact eventsOf_start c other x.world
    rw [requests.atCode.not_reports, pushed stack none_waits]
    rfl
  | returned top stack =>
    rw [AtCode.not_reports ⟨_, top⟩, pushed stack (eventsOf_resume c ..), Execution.awaiting, top]
    rfl
  | halted top stack =>
    rw [AtCode.not_reports ⟨_, top⟩, Execution.awaiting, Execution.awaiting, stack, top]
    rfl
  | called top stack =>
    rw [Execution.awaiting, Execution.awaiting, stack, top, List.head?_cons, Option.bind_some]
    cases is : Item.report? c _ with
    | none => rw [List.filterMap_cons_none is]; rfl
    | some e => rw [List.filterMap_cons_some is]; rfl
  | @worked t p rest top no_call stack =>
    have no_event : Item.report? c (.task t) = none := by
      cases t with
      | call k => exact absurd rfl (no_call k)
      | _ => rfl
    have none_waits : eventsOf c
        (t.run ⟨E.types, E.alive x.state x.world.heap⟩ x.world p).first = [] := by
      by_cases other : t.OfTracking
      · cases t with
        | flush c' =>
          apply of_batch
          rintro ⟨rfl, valid⟩
          exact takes_none (.flushed ⟨_, top⟩ valid)
        | _ => exact other.elim
      · exact eventsOf_run c other no_call _ _ _
    rw [pushed stack none_waits, Execution.awaiting, top, List.head?_cons, Option.bind_some,
      no_event, List.filterMap_cons_none no_event]
    rfl

open Classical in
/-- At how many of the first `n` states of a run the property holds. -/
noncomputable def times (x : Execution E) (P : Execution E → Prop) (n : Nat) : Nat :=
  Nat.count (fun l => P (x.run l)) n

theorem eq_of_times_le_one {P : Execution E → Prop} {n k l : Nat} (once : x.times P n ≤ 1)
    (k_lt : k < n) (l_lt : l < n) (here : P (x.run k)) (there : P (x.run l)) : k = l := by
  classical
  by_contra different
  have two : ({k, l} : Finset Nat) ⊆ (Finset.range n).filter fun m => P (x.run m) := by
    intro m mem
    rcases Finset.mem_insert.mp mem with rfl | last
    · exact Finset.mem_filter.mpr ⟨Finset.mem_range.mpr k_lt, here⟩
    · rw [Finset.mem_singleton.mp last]
      exact Finset.mem_filter.mpr ⟨Finset.mem_range.mpr l_lt, there⟩
  have card := Finset.card_le_card two
  rw [Finset.card_pair different, ← Nat.count_eq_card_filter_range] at card
  have count : x.times P n = Nat.count (fun m => P (x.run m)) n := by
    rw [times]
  omega

theorem times_le_one {P : Execution E → Prop} {n k : Nat}
    (only : ∀ l < n, P (x.run l) → l = k) : x.times P n ≤ 1 := by
  classical
  rw [times, Nat.count_eq_card_filter_range]
  apply Finset.card_le_one.mpr
  intro l l_mem m m_mem
  obtain ⟨l_lt, here⟩ := Finset.mem_filter.mp l_mem
  obtain ⟨m_lt, there⟩ := Finset.mem_filter.mp m_mem
  rw [only l (Finset.mem_range.mp l_lt) here, only m (Finset.mem_range.mp m_lt) there]

theorem rejections_sound (blank : x.Blank) (c : ContextId) (n : Nat) :
    ((x.run n).world.rejections c).Sound := by
  induction n with
  | zero =>
    rw [run_zero, blank.rejections]
    exact ⟨List.nodup_nil, fun q mem => nomatch mem⟩
  | succ n ih => exact (x.run_tracks c n).sound ih

open Classical in
/-- A report leaves those that wait, and a batch that is taken while the episode is open adds
one. -/
theorem count_awaiting_succ {n : Nat} (sound : ((x.run n).world.rejections c).Sound) :
    ((x.run (n + 1)).awaiting c).count e +
        (if (x.run n).Reports c .unhandledRejection e then 1 else 0) =
      ((x.run n).awaiting c).count e + if (x.run n).Takes c e then 1 else 0 := by
  by_cases takes : (x.run n).TakesBatch c
  · rw [takes.awaiting, List.count_append, if_neg takes.not_reports]
    by_cases open_now : (x.run n).Tracked c e
    · have mem : e ∈ ((x.run n).world.rejections c).unhandled.map Rejection.inEpisode :=
        List.mem_map.mpr open_now
      rw [if_pos ⟨takes, open_now⟩, List.count_eq_one_of_mem sound.nodup_episodes mem]
      omega
    · have absent : e ∉ ((x.run n).world.rejections c).unhandled.map Rejection.inEpisode :=
        fun mem => open_now (List.mem_map.mp mem)
      rw [if_neg fun both => open_now both.2, List.count_eq_zero_of_not_mem absent]
      omega
  · have none_taken : ¬ (x.run n).Takes c e := fun both => takes both.1
    rw [(x.run_rewrites n).awaiting takes, if_neg none_taken, reports_iff, List.count_append]
    rcases (x.run n).stack.head?.bind (Item.report? c) with _ | e'
    · simp
    · by_cases same : e' = e
      · simp [same]
        omega
      · simp [same]

/-- What was taken and what waited is reported, or it waits. -/
theorem reports_add_awaiting (sound : ∀ n, ((x.run n).world.rejections c).Sound) (n : Nat) :
    x.times (·.Reports c .unhandledRejection e) n + ((x.run n).awaiting c).count e =
      x.times (·.Takes c e) n + (x.awaiting c).count e := by
  induction n with
  | zero => simp [times]
  | succ n ih =>
    have balance := count_awaiting_succ (e := e) (sound n)
    simp only [times, Nat.count_succ] at ih ⊢
    omega

end Execution

end HostBridge
