import HostBridge.Proofs.Execution.Plan
import HostBridge.Proofs.Rejections.Episodes
/-!
# The order of rejection events

A handler is reported after the rejection that it answers, and an episode that a handler has ended
is not reported any more: so it is in every run in which no handler overtakes an event, by ending an
episode while an event of it still waits. Where one does, the event comes too late.
-/

namespace HostBridge.Execution

variable {Obj τ : Type} [Facility τ] {E : Embedder Obj τ} [Traced Obj]

def Before (x : Execution E) (n : Nat) (P : Execution E → Prop) : Prop := ∃ m < n, P (x.run m)

/-- The next step ends an episode while an event of it still waits. -/
def Overtakes (x : Execution E) (c : ContextId) : Prop :=
  ∃ e, x.Ends c e ∧ x.Waits c .unhandledRejection e

structure Consistent (x : Execution E) (c : ContextId) (n : Nat) : Prop where
  in_order : ∀ m < n, ∀ e, (x.run m).Reports c .rejectionHandled e →
    x.Before m (·.Ends c e) ∧
      ∃ l < m, (x.run l).Reports c .unhandledRejection e ∧ x.Before l (·.Opens c e)
  silent : ∀ m < n, ∀ e, x.Before m (·.Ends c e) → ¬ (x.run m).Reports c .unhandledRejection e

variable {x : Execution E} {c : ContextId} {n : Nat} {e : Episode}

theorem Ends.settles (ends : (x.run n).Ends c e) (sound : ((x.run n).world.rejections c).Sound)
    (silent : ¬ (x.run n).Waits c .unhandledRejection e) : (x.run (n + 1)).Settled c e := by
  obtain ⟨reason, performs, r, found, is⟩ := ends
  have tracked : (x.run (n + 1)).world.rejections c =
      ((x.run n).world.rejections c).trackHandled e.promise reason := by
    rw [performs.run_succ]
    rcases Command.trackHandled_cases (x.run n).world c e.promise reason c with
      ⟨_, absent⟩ | ⟨_, _, _, tracked⟩
    · rw [absent rfl] at found
      exact nomatch found
    · exact tracked
  constructor
  · have number : r.episode = e.number := congrArg Episode.number is
    rw [tracked, Rejections.trackHandled_episodes found, ← number]
    exact sound.numbered r (Rejections.mem_of_find? found)
  · intro still
    obtain ⟨q, mem, same⟩ := still
    rw [tracked] at mem
    exact sound.not_mem_trackHandled found mem (same.trans is.symm)
  · intro waits
    obtain ⟨q, mem, same⟩ := waits
    rw [performs.waiting_run_succ] at mem
    exact silent ⟨q, mem, same⟩

theorem Before.succ {P : Execution E → Prop} (before : x.Before n P) : x.Before (n + 1) P := by
  obtain ⟨m, lt, here⟩ := before
  exact ⟨m, Nat.lt_succ_of_lt lt, here⟩

theorem Before.last {P : Execution E → Prop} (here : P (x.run n)) : x.Before (n + 1) P :=
  ⟨n, Nat.lt_succ_self n, here⟩

theorem not_before_succ {P : Execution E → Prop} (never : ¬ x.Before (n + 1) P) :
    ¬ x.Before n P ∧ ¬ P (x.run n) :=
  ⟨fun before => never before.succ, fun here => never (.last here)⟩

structure Told (x : Execution E) (c : ContextId) (n : Nat) : Prop where
  sound : ((x.run n).world.rejections c).Sound
  opened : ∀ e, (x.run n).Tracked c e ∨ (x.run n).Waits c .unhandledRejection e →
    x.Before n (·.Opens c e)
  reported : ∀ r ∈ ((x.run n).world.rejections c).unhandled, r.reported = true →
    (x.run n).Waits c .unhandledRejection r.inEpisode ∨
      x.Before n (·.Reports c .unhandledRejection r.inEpisode)
  answered : ∀ e, (x.run n).Answered c e ∨ (x.run n).Waits c .rejectionHandled e →
    x.Before n (·.Reports c .unhandledRejection e) ∧ x.Before n (·.Ends c e)
  settled : ∀ e, x.Before n (·.Ends c e) → (x.run n).Settled c e

structure Blank (x : Execution E) : Prop where
  outside : x.frames = []
  no_context : x.world.contexts = []

omit [Traced Obj] in
theorem Blank.waiting (blank : x.Blank) (c : ContextId) : x.waiting c = [] := by
  rw [Execution.waiting, blank.outside]
  rfl

omit [Traced Obj] in
theorem Blank.rejections (blank : x.Blank) (c : ContextId) : x.world.rejections c = {} := by
  rw [World.rejections, World.context?, blank.no_context]
  rfl

omit [Traced Obj] in
theorem Blank.not_waits (blank : x.Blank) (kind : EventKind) : ¬ x.Waits c kind e := by
  intro waits
  obtain ⟨r, mem, _⟩ := waits
  rw [blank.waiting] at mem
  exact nomatch mem

theorem told_zero (blank : x.Blank) (c : ContextId) : x.Told c 0 := by
  have rejections : (x.run 0).world.rejections c = {} := blank.rejections c
  constructor
  · rw [rejections]
    exact ⟨List.nodup_nil, fun q mem => nomatch mem⟩
  · intro e open_or_waiting
    rcases open_or_waiting with ⟨r, mem, _⟩ | waits
    · rw [rejections] at mem
      exact nomatch mem
    · exact absurd waits (blank.not_waits _)
  · intro r mem _
    rw [rejections] at mem
    exact nomatch mem
  · intro e answered_or_waiting
    rcases answered_or_waiting with ⟨r, mem, _⟩ | waits
    · rw [rejections] at mem
      exact nomatch mem
    · exact absurd waits (blank.not_waits _)
  · intro e ended
    obtain ⟨m, lt, _⟩ := ended
    exact absurd lt (Nat.not_lt_zero m)

theorem Told.succ (told : x.Told c n) (behind : ¬ (x.run n).Overtakes c) : x.Told c (n + 1) := by
  have tracks := x.run_tracks c n
  constructor
  · exact tracks.sound told.sound
  · intro e open_or_waiting
    have tracked : (x.run (n + 1)).Tracked c e → x.Before (n + 1) (·.Opens c e) := by
      intro tracked
      obtain ⟨r, mem, rfl⟩ := tracked
      rcases tracks.mem_unhandled mem with old | ⟨opens, _, _⟩ | ⟨old, _⟩
      · exact (told.opened _ (Or.inl ⟨r, old, rfl⟩)).succ
      · exact .last opens
      · exact (told.opened _ (Or.inl old)).succ
    rcases open_or_waiting with still | waits
    · exact tracked still
    · rcases tracks.waits waits with old | ⟨_, old⟩ | ⟨other, _⟩
      · exact (told.opened e (Or.inr old)).succ
      · exact (told.opened e (Or.inl old)).succ
      · exact nomatch other
  · intro r mem is_reported
    rcases tracks.mem_unhandled mem with old | ⟨_, unreported, _⟩ | ⟨_, waits⟩
    · rcases told.reported r old is_reported with waits | before
      · rcases tracks.waits_or_reports waits with later | reports
        · exact Or.inl later
        · exact Or.inr (.last reports)
      · exact Or.inr before.succ
    · rw [unreported] at is_reported
      exact nomatch is_reported
    · exact Or.inl waits
  · intro e answered_or_waiting
    have kept : (x.run n).Answered c e ∨ (x.run n).Waits c .rejectionHandled e →
        x.Before (n + 1) (·.Reports c .unhandledRejection e) ∧ x.Before (n + 1) (·.Ends c e) := by
      intro old
      obtain ⟨reports, ends⟩ := told.answered e old
      exact ⟨reports.succ, ends.succ⟩
    rcases answered_or_waiting with answered | waits
    · rcases tracks.answered answered with old | ⟨ends, r, mem, rfl, is_reported⟩
      · exact kept (Or.inl old)
      · refine ⟨?_, .last ends⟩
        rcases told.reported r mem is_reported with waits | before
        · exact absurd ⟨_, ends, waits⟩ behind
        · exact before.succ
    · rcases tracks.waits waits with old | ⟨other, _⟩ | ⟨_, old⟩
      · exact kept (Or.inr old)
      · exact nomatch other
      · exact kept (Or.inl old)
  · intro e ended
    obtain ⟨m, lt, ends⟩ := ended
    rcases Nat.lt_succ_iff_lt_or_eq.mp lt with earlier | rfl
    · exact (told.settled e ⟨m, earlier, ends⟩).tracks tracks
    · exact ends.settles told.sound fun waits => behind ⟨e, ends, waits⟩

theorem told_run (blank : x.Blank) (behind : ¬ x.Before n (·.Overtakes c)) : x.Told c n := by
  induction n with
  | zero => exact told_zero blank c
  | succ n ih =>
    obtain ⟨before, last⟩ := not_before_succ behind
    exact (ih before).succ last

theorem not_before_of_le {P : Execution E → Prop} {m : Nat} (never : ¬ x.Before n P) (le : m ≤ n) :
    ¬ x.Before m P := by
  intro before
  obtain ⟨l, lt, here⟩ := before
  exact never ⟨l, Nat.lt_of_lt_of_le lt le, here⟩

theorem consistent_run (blank : x.Blank) (behind : ¬ x.Before n (·.Overtakes c)) :
    x.Consistent c n := by
  have told : ∀ m ≤ n, x.Told c m := fun m le => told_run blank (not_before_of_le behind le)
  constructor
  · intro m lt e reports
    obtain ⟨before, ends⟩ := (told m (Nat.le_of_lt lt)).answered e (Or.inr reports.waits)
    refine ⟨ends, ?_⟩
    obtain ⟨l, earlier, first⟩ := before
    have le : l ≤ n := Nat.le_of_lt (Nat.lt_trans earlier lt)
    exact ⟨l, earlier, first, (told l le).opened e (Or.inr first.waits)⟩
  · intro m lt e ended reports
    exact ((told m (Nat.le_of_lt lt)).settled e ended).silent reports.waits

theorem reports_of_waits {kind : EventKind} {m : Nat} (waits : (x.run m).Waits c kind e)
    (le : m ≤ n) : (x.run n).Waits c kind e ∨
      ∃ l, m ≤ l ∧ l < n ∧ (x.run l).Reports c kind e := by
  induction le with
  | refl => exact Or.inl waits
  | @step n le ih =>
    rcases ih with still | ⟨l, after, before, reports⟩
    · rcases (x.run_tracks c n).waits_or_reports still with later | reports
      · exact Or.inl later
      · exact Or.inr ⟨n, le, Nat.lt_succ_self n, reports⟩
    · exact Or.inr ⟨l, after, Nat.lt_succ_of_lt before, reports⟩

omit [Traced Obj] in
theorem Ends.not_reports {kind : EventKind} (ends : x.Ends c e) : ¬ x.Reports c kind e := by
  intro reports
  obtain ⟨_, performs, _⟩ := ends
  obtain ⟨k, a, at_code, _⟩ := performs.at_code
  obtain ⟨r, dispatches, _⟩ := reports
  rw [dispatch?, at_code] at dispatches
  cases dispatches

/-- An event that was overtaken is dispatched all the same, too late. -/
theorem inconsistent_of_overtakes {m : Nat} (overtakes : (x.run m).Overtakes c) (lt : m < n)
    (done : (x.run n).waiting c = []) : ¬ x.Consistent c n := by
  intro consistent
  obtain ⟨e, ends, waits⟩ := overtakes
  rcases reports_of_waits waits (Nat.le_of_lt lt) with ⟨r, mem, _⟩ | ⟨l, after, before, reports⟩
  · rw [done] at mem
    exact nomatch mem
  · rcases Nat.lt_or_eq_of_le after with later | rfl
    · exact consistent.silent l before e ⟨m, later, ends⟩ reports
    · exact ends.not_reports reports

/-- The events agree with the episodes as long as no handler overtakes an event, and when nothing
waits any more they agree in that case only. -/
theorem consistent_iff_none_overtakes (blank : x.Blank) (c : ContextId) (n : Nat) :
    (¬ x.Before n (·.Overtakes c) → x.Consistent c n) ∧
      ((x.run n).waiting c = [] → (x.Consistent c n ↔ ¬ x.Before n (·.Overtakes c))) := by
  have consistent : ¬ x.Before n (·.Overtakes c) → x.Consistent c n := consistent_run blank
  refine ⟨consistent, fun done => ⟨?_, consistent⟩⟩
  intro agrees before
  obtain ⟨m, lt, overtakes⟩ := before
  exact inconsistent_of_overtakes overtakes lt done agrees

def plansHandler {body : Call Obj → List (Order Obj τ)} (x : Execution (plan body)) : Bool :=
  match x.focus with
  | .code _ (orders : List (Order Obj τ)) =>
    match orders with
    | .command (.trackHandled ..) :: _ => true
    | _ => false
  | _ => false

omit [Traced Obj] in
theorem plan_ends {body : Call Obj → List (Order Obj τ)} {x : Execution (plan body)}
    (ends : x.Ends c e) : x.plansHandler = true := by
  obtain ⟨reason, performs, _⟩ := ends
  obtain ⟨k, rest, at_code⟩ := plan_performed performs
  rw [plansHandler, at_code]

def answeredLate :
    Execution (plan fun _ : Call (List Handle) => ([] : List (Order (List Handle) Manual))) :=
  planned {} _ [.command (.createContext none), .command (.trackUnhandled ⟨1⟩ ⟨0, 0⟩ .null),
    .procedure (.drain ⟨1⟩), .command (.trackHandled ⟨1⟩ ⟨0, 0⟩ .null), .procedure (.drain ⟨1⟩)]

theorem late_handler_is_reported :
    answeredLate.Consistent ⟨1⟩ 22 ∧
      (answeredLate.run 18).Reports ⟨1⟩ .rejectionHandled ⟨⟨0, 0⟩, 0⟩ := by
  have calm : ∀ m < 22, (answeredLate.run m).plansHandler = true →
      (answeredLate.run m).waiting ⟨1⟩ = [] := by decide +kernel
  have behind : ¬ answeredLate.Before 22 (·.Overtakes ⟨1⟩) := by
    intro before
    obtain ⟨m, lt, e, ends, r, mem, _⟩ := before
    rw [calm m lt (plan_ends ends)] at mem
    exact nomatch mem
  refine ⟨(consistent_iff_none_overtakes ⟨rfl, rfl⟩ ⟨1⟩ 22).1 behind, ?_⟩
  exact ⟨_, rfl, rfl⟩

/-- The handler of one event handles the promise of the next event of the batch. -/
def handleNext : Call (List Handle) → List (Order (List Handle) Manual)
  | .event c .unhandledRejection _ => [.command (.trackHandled c ⟨1, 0⟩ .null)]
  | _ => []

def overtaken : Execution (plan handleNext) :=
  planned {} _ [.command (.createContext none), .command (.allocate []), .command (.allocate []),
    .command (.trackUnhandled ⟨1⟩ ⟨0, 0⟩ .null), .command (.trackUnhandled ⟨1⟩ ⟨1, 0⟩ .null),
    .procedure (.drain ⟨1⟩)]

theorem overtaken_event_comes_too_late : overtaken.Blank ∧ ¬ overtaken.Consistent ⟨1⟩ 15 := by
  refine ⟨⟨rfl, rfl⟩, ?_⟩
  intro consistent
  have ends : (overtaken.run 12).Ends ⟨1⟩ ⟨⟨1, 0⟩, 1⟩ :=
    ⟨.null, plan_performs rfl, _, rfl, rfl⟩
  have reports : (overtaken.run 14).Reports ⟨1⟩ .unhandledRejection ⟨⟨1, 0⟩, 1⟩ :=
    ⟨_, rfl, rfl⟩
  exact consistent.silent 14 (by decide) _ ⟨12, by decide, ends⟩ reports

end HostBridge.Execution
