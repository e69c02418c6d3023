import HostBridge.Proofs.Rejections.Machine
import Mathlib.Data.List.Induction
/-!
# Messages in their order

A tracker emits in any sequence of operations what the machines of its promises emit. The messages of
a batch come in the order in which their episodes have been opened and their handlers been queued.
-/

namespace HostBridge.Rejections

variable {r : Rejections} {p q : Handle} {reason : Value}

def after (policy : RejectionPolicy) (history : List Op) : Rejections :=
  history.foldl apply { policy }

def Machine.after (policy : RejectionPolicy) (p : Handle) (history : List Op) : Machine :=
  (history.filterMap (Op.letter? p)).foldl (Machine.step policy) {}

/-- The `i`th operation has opened the episode of the promise that is open after the history. -/
structure OpenedAt (policy : RejectionPolicy) (history : List Op) (p : Handle) (i : Nat) :
    Prop where
  opens : ∃ reason, history[i]? = some (.trackUnhandled p reason)
  anew : (Machine.after policy p (history.take i)).episode = none
  lasting : ∀ j, i < j → j ≤ history.length →
    (Machine.after policy p (history.take j)).episode ≠ none

structure QueuedAt (policy : RejectionPolicy) (history : List Op) (p : Handle) (reason : Value)
    (i : Nat) : Prop where
  handles : history[i]? = some (.trackHandled p reason)
  reported : ∃ first, (Machine.after policy p (history.take i)).episode = some (first, true)
  waiting : ∀ j, i < j → history[j]? ≠ some .takePending ∧ history[j]? ≠ some .clear

variable {policy : RejectionPolicy} {history : List Op} {op : Op} {i : Nat}

theorem after_concat : after policy (history ++ [op]) = (after policy history).apply op := by
  rw [after, List.foldl_append]
  rfl

theorem after_policy (policy : RejectionPolicy) (history : List Op) :
    (after policy history).policy = policy := by
  induction history using List.reverseRecOn with
  | nil => rfl
  | append_singleton history op ih => rw [after_concat, policy_apply, ih]

theorem after_sound (policy : RejectionPolicy) (history : List Op) :
    (after policy history).Sound := by
  induction history using List.reverseRecOn with
  | nil => exact ⟨List.nodup_nil, fun _ mem => nomatch mem⟩
  | append_singleton history op ih =>
    rw [after_concat]
    exact ih.apply op

theorem Machine.after_concat : Machine.after policy p (history ++ [op]) =
    (op.letter? p).elim (Machine.after policy p history)
      ((Machine.after policy p history).step policy) := by
  rw [Machine.after, Machine.after, List.filterMap_append, List.foldl_append]
  cases letter : op.letter? p <;> simp [letter]

theorem machine_after (policy : RejectionPolicy) (history : List Op) (p : Handle) :
    (after policy history).machine p = Machine.after policy p history := by
  induction history using List.reverseRecOn with
  | nil => rfl
  | append_singleton history op ih =>
    rw [after_concat, machine_apply (after_sound policy history), after_policy, ih,
      Machine.after_concat]

theorem episode_eq_none_iff : (Machine.after policy p history).episode = none ↔
    ∀ q ∈ (after policy history).unhandled, q.promise ≠ p := by
  rw [← machine_after, machine, Option.map_eq_none_iff, find?, List.find?_eq_none]
  simp only [decide_eq_true_eq, ne_eq]

theorem openedAt_concat (opened : OpenedAt policy history p i)
    (still : (Machine.after policy p (history ++ [op])).episode ≠ none) :
    OpenedAt policy (history ++ [op]) p i := by
  obtain ⟨⟨reason, opens⟩, anew, lasting⟩ := opened
  obtain ⟨lt, _⟩ := List.getElem?_eq_some_iff.mp opens
  constructor
  · exact ⟨reason, by rw [List.getElem?_append_left lt, opens]⟩
  · rwa [List.take_append_of_le_length (Nat.le_of_lt lt)]
  · intro j later le
    rw [List.length_append, List.length_singleton] at le
    rcases Nat.lt_or_eq_of_le le with lt | rfl
    · have before : j ≤ history.length := Nat.le_of_lt_succ lt
      rw [List.take_append_of_le_length before]
      exact lasting j later before
    · rwa [← List.length_singleton (a := op), ← List.length_append, List.take_length]

theorem openedAt_length (untracked : (Machine.after policy p history).episode = none)
    (reason : Value) : OpenedAt policy (history ++ [.trackUnhandled p reason]) p history.length := by
  constructor
  · exact ⟨reason, List.getElem?_concat_length⟩
  · rwa [List.take_left]
  · intro j later le
    rw [List.length_append, List.length_singleton] at le
    have last : j = (history ++ [Op.trackUnhandled p reason]).length := by
      rw [List.length_append, List.length_singleton]
      omega
    rw [last, List.take_length, Machine.after_concat]
    simp [Op.letter?, Machine.step, untracked]

theorem queuedAt_concat {reason : Value} (queued : QueuedAt policy history p reason i)
    (kept : op ≠ .takePending ∧ op ≠ .clear) : QueuedAt policy (history ++ [op]) p reason i := by
  obtain ⟨handles, reported, waiting⟩ := queued
  obtain ⟨lt, _⟩ := List.getElem?_eq_some_iff.mp handles
  constructor
  · rw [List.getElem?_append_left lt, handles]
  · rwa [List.take_append_of_le_length (Nat.le_of_lt lt)]
  · intro j later
    by_cases before : j < history.length
    · rw [List.getElem?_append_left before]
      exact waiting j later
    · by_cases last : j = history.length
      · rw [last, List.getElem?_concat_length]
        simpa using kept
      · rw [List.getElem?_eq_none (by rw [List.length_append, List.length_singleton]; omega)]
        simp

theorem queuedAt_length {first reason : Value}
    (reported : (Machine.after policy p history).episode = some (first, true)) :
    QueuedAt policy (history ++ [.trackHandled p reason]) p reason history.length := by
  constructor
  · exact List.getElem?_concat_length
  · rw [List.take_left]
    exact ⟨first, reported⟩
  · intro j later
    rw [List.getElem?_eq_none (by rw [List.length_append, List.length_singleton]; omega)]
    simp

theorem promises_apply (r : Rejections) (op : Op) :
    ((r.apply op).unhandled.map Rejection.promise).Sublist (r.unhandled.map Rejection.promise) ∨
      ∃ p reason, op = .trackUnhandled p reason ∧ p ∉ r.unhandled.map Rejection.promise ∧
        (r.apply op).unhandled.map Rejection.promise = r.unhandled.map Rejection.promise ++ [p] := by
  cases op with
  | trackUnhandled p reason =>
    rw [apply, trackUnhandled]
    split
    · exact Or.inl (List.Sublist.refl _)
    · rename_i untracked
      refine Or.inr ⟨p, reason, rfl, ?_, by simp⟩
      intro mem
      obtain ⟨q, here, same⟩ := List.mem_map.mp mem
      exact untracked (List.any_eq_true.mpr ⟨q, here, by simpa using same⟩)
  | trackHandled p reason =>
    left
    rw [apply]
    cases found : r.find? p with
    | none =>
      simp only [trackHandled_of_none found, List.Sublist.refl]
    | some ended =>
      rw [trackHandled_unhandled found]
      exact List.eraseP_sublist.map _
  | takePending =>
    left
    rw [apply, takePending, pending]
    cases r.policy with
    | everyDrain =>
      simp only [List.map_map]
      exact List.Sublist.refl _
    | once => exact List.nil_sublist _
  | clear => exact Or.inl (List.nil_sublist _)

theorem handled_apply (r : Rejections) (op : Op) :
    (r.apply op).handled = r.handled ∧ op ≠ .takePending ∧ op ≠ .clear ∨
      (r.apply op).handled = [] ∨
      ∃ p reason ended, op = .trackHandled p reason ∧ r.find? p = some ended ∧ ended.reported = true ∧
        (r.apply op).handled = r.handled ++ [{ ended with reason }] := by
  cases op with
  | trackUnhandled p reason =>
    rw [apply, trackUnhandled]
    refine Or.inl ⟨?_, by simp⟩
    split <;> rfl
  | trackHandled p reason =>
    rw [apply]
    cases found : r.find? p with
    | none =>
      rw [trackHandled_of_none found]
      exact Or.inl ⟨rfl, by simp⟩
    | some ended =>
      rw [trackHandled_handled found]
      split
      · rename_i reported
        exact Or.inr (Or.inr ⟨p, reason, ended, rfl, found, reported, rfl⟩)
      · exact Or.inl ⟨rfl, by simp⟩
  | takePending => exact Or.inr (Or.inl rfl)
  | clear => exact Or.inr (Or.inl rfl)

theorem episode_ne_none_iff : (Machine.after policy p history).episode ≠ none ↔
    p ∈ (after policy history).unhandled.map Rejection.promise := by
  rw [ne_eq, episode_eq_none_iff]
  simp

theorem exists_openedAt (mem : p ∈ (after policy history).unhandled.map Rejection.promise) :
    ∃ i, OpenedAt policy history p i := by
  induction history using List.reverseRecOn with
  | nil => cases mem
  | append_singleton history op ih =>
    have still := episode_ne_none_iff.mpr mem
    rw [after_concat] at mem
    rcases promises_apply (after policy history) op with fewer | ⟨q, reason, rfl, absent, added⟩
    · obtain ⟨i, opened⟩ := ih (fewer.subset mem)
      exact ⟨i, openedAt_concat opened still⟩
    · rw [added] at mem
      rcases List.mem_append.mp mem with old | new
      · obtain ⟨i, opened⟩ := ih old
        exact ⟨i, openedAt_concat opened still⟩
      · rw [List.mem_singleton.mp new]
        exact ⟨history.length, openedAt_length (by simpa using mt episode_ne_none_iff.mp absent) reason⟩

/-- Open episodes come in the order in which they have been opened. -/
theorem unhandled_ordered (policy : RejectionPolicy) (history : List Op) :
    ((after policy history).unhandled.map Rejection.promise).Pairwise fun p q => ∃ i j, i < j ∧
      OpenedAt policy history p i ∧ OpenedAt policy history q j := by
  induction history using List.reverseRecOn with
  | nil => exact List.Pairwise.nil
  | append_singleton history op ih =>
    have still : ∀ p ∈ ((after policy history).apply op).unhandled.map Rejection.promise,
        (Machine.after policy p (history ++ [op])).episode ≠ none := by
      intro p mem
      rw [← after_concat] at mem
      exact episode_ne_none_iff.mpr mem
    rw [after_concat]
    rcases promises_apply (after policy history) op with fewer | ⟨q, reason, rfl, absent, added⟩
    · refine (ih.sublist fewer).imp_of_mem ?_
      rintro a b mem_a mem_b ⟨i, j, lt, first, second⟩
      exact ⟨i, j, lt, openedAt_concat first (still a mem_a), openedAt_concat second (still b mem_b)⟩
    · -- An episode that the last operation opens stands last.
      rw [added] at still ⊢
      refine List.pairwise_append.mpr ⟨?_, List.pairwise_singleton _ _, ?_⟩
      · refine ih.imp_of_mem ?_
        rintro a b mem_a mem_b ⟨i, j, lt, first, second⟩
        exact ⟨i, j, lt, openedAt_concat first (still a (List.mem_append_left _ mem_a)),
          openedAt_concat second (still b (List.mem_append_left _ mem_b))⟩
      · intro a mem_a b new
        obtain ⟨i, opened⟩ := exists_openedAt mem_a
        obtain ⟨_, opens⟩ := opened.opens
        rw [List.mem_singleton.mp new]
        exact ⟨i, history.length, (List.getElem?_eq_some_iff.mp opens).1,
          openedAt_concat opened (still a (List.mem_append_left _ mem_a)),
          openedAt_length (by simpa using mt episode_ne_none_iff.mp absent) reason⟩

theorem queuedAt_of_found {ended : Rejection} (found : (after policy history).find? p = some ended)
    (reported : ended.reported = true) (reason : Value) :
    QueuedAt policy (history ++ [.trackHandled p reason]) p reason history.length := by
  have there : (Machine.after policy p history).episode = some (ended.reason, true) := by
    rw [← machine_after, machine, found, ← reported]
    rfl
  exact queuedAt_length there

theorem exists_queuedAt {q : Rejection} (mem : q ∈ (after policy history).handled) :
    ∃ i, QueuedAt policy history q.promise q.reason i := by
  induction history using List.reverseRecOn with
  | nil => cases mem
  | append_singleton history op ih =>
    rw [after_concat] at mem
    rcases handled_apply (after policy history) op with
      ⟨same, kept⟩ | none_left | ⟨p, reason, ended, rfl, found, reported, added⟩
    · obtain ⟨i, queued⟩ := ih (same ▸ mem)
      exact ⟨i, queuedAt_concat queued kept⟩
    · rw [none_left] at mem
      cases mem
    · rw [added] at mem
      rcases List.mem_append.mp mem with old | new
      · obtain ⟨i, queued⟩ := ih old
        exact ⟨i, queuedAt_concat queued (by simp)⟩
      · rw [List.mem_singleton.mp new]
        have named := promise_of_find? found
        simp only [named]
        exact ⟨history.length, queuedAt_of_found found reported reason⟩

theorem handled_ordered (policy : RejectionPolicy) (history : List Op) :
    (after policy history).handled.Pairwise fun a b => ∃ i j, i < j ∧
      QueuedAt policy history a.promise a.reason i ∧
      QueuedAt policy history b.promise b.reason j := by
  induction history using List.reverseRecOn with
  | nil => exact List.Pairwise.nil
  | append_singleton history op ih =>
    rw [after_concat]
    rcases handled_apply (after policy history) op with
      ⟨same, kept⟩ | none_left | ⟨p, reason, ended, rfl, found, reported, added⟩
    · rw [same]
      refine ih.imp ?_
      rintro a b ⟨i, j, lt, first, second⟩
      exact ⟨i, j, lt, queuedAt_concat first kept, queuedAt_concat second kept⟩
    · rw [none_left]
      exact List.Pairwise.nil
    · rw [added]
      refine List.pairwise_append.mpr ⟨?_, List.pairwise_singleton _ _, ?_⟩
      · refine ih.imp ?_
        rintro a b ⟨i, j, lt, first, second⟩
        exact ⟨i, j, lt, queuedAt_concat first (by simp), queuedAt_concat second (by simp)⟩
      · intro a mem_a b new
        obtain ⟨i, queued⟩ := exists_queuedAt mem_a
        have named := promise_of_find? found
        rw [List.mem_singleton.mp new]
        simp only [named]
        exact ⟨i, history.length, (List.getElem?_eq_some_iff.mp queued.handles).1,
          queuedAt_concat queued (by simp), queuedAt_of_found found reported reason⟩

structure Unreported (r : Rejections) : Prop where
  once : r.policy = .once
  unhandled : ∀ q ∈ r.unhandled, q.reported = false
  handled : r.handled = []

theorem unreported_empty : Unreported { policy := .once } :=
  ⟨rfl, fun _ mem => (nomatch mem), rfl⟩

theorem Unreported.apply (unreported : r.Unreported) (op : Op) : (r.apply op).Unreported := by
  obtain ⟨once, unhandled, handled⟩ := unreported
  have policy := (policy_apply r op).trans once
  cases op with
  | trackUnhandled p reason =>
    cases untracked : r.isUnhandled p with
    | true =>
      rw [Rejections.apply, trackUnhandled, if_pos untracked]
      exact ⟨once, unhandled, handled⟩
    | false =>
      refine ⟨policy, ?_, (trackUnhandled_handled untracked).trans handled⟩
      intro q mem
      rcases mem_trackUnhandled untracked mem with old | rfl
      · exact unhandled q old
      · rfl
  | trackHandled p reason =>
    cases found : r.find? p with
    | none =>
      rw [Rejections.apply, trackHandled_of_none found]
      exact ⟨once, unhandled, handled⟩
    | some ended =>
      have silent := unhandled ended (mem_of_find? found)
      refine ⟨policy, ?_, ?_⟩
      · intro q mem
        exact unhandled q (mem_trackHandled_unhandled found mem)
      · rw [Rejections.apply, trackHandled_handled found, silent]
        exact handled
  | takePending =>
    refine ⟨policy, ?_, rfl⟩
    rw [Rejections.apply, takePending, once]
    intro q mem
    cases mem
  | clear => exact ⟨policy, by simp [Rejections.apply, Rejections.clear], rfl⟩

theorem Unreported.batches (unreported : r.Unreported) (ops : List Op) :
    ∀ b ∈ r.batches ops, b.handled = [] := by
  induction ops generalizing r with
  | nil =>
    intro b mem
    cases mem
  | cons op ops ih =>
    intro b mem
    rcases List.mem_append.mp mem with now | later
    · cases op with
      | takePending =>
        rw [List.mem_singleton.mp now]
        exact unreported.handled
      | trackUnhandled | trackHandled | clear => cases now
    · exact ih (unreported.apply op) b later

structure FollowsMachines (policy : RejectionPolicy) (ops : List Op) : Prop where
  alone : ∀ p, (batches { policy } ops).map (Batch.about p) =
    Machine.emissions policy {} (ops.filterMap (Op.letter? p))
  unhandled_ordered : ∀ before behind, ops = before ++ .takePending :: behind →
    (after policy before).pending.unhandled.Pairwise fun a b => ∃ i j, i < j ∧
      OpenedAt policy before a.promise i ∧ OpenedAt policy before b.promise j
  handled_ordered : ∀ before behind, ops = before ++ .takePending :: behind →
    (after policy before).pending.handled.Pairwise fun a b => ∃ i j, i < j ∧
      QueuedAt policy before a.promise a.reason i ∧ QueuedAt policy before b.promise b.reason j
  once : policy = .once → ∀ b ∈ batches { policy } ops, b.handled = []

/-- A tracker emits in every sequence of operations what the machines of its promises emit, in the
order of their episodes and handlers. -/
theorem tracker_follows_machines (policy : RejectionPolicy) (ops : List Op) :
    FollowsMachines policy ops := by
  constructor
  · intro p
    exact batches_about (after_sound policy []) ops p
  · intro before behind _
    rw [pending]
    refine List.pairwise_map.mpr ?_
    exact List.pairwise_map.mp (unhandled_ordered policy before)
  · intro before behind _
    exact handled_ordered policy before
  · rintro rfl
    exact unreported_empty.batches ops

end HostBridge.Rejections
