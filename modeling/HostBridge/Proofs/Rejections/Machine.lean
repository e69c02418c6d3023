import HostBridge.Proofs.Rejections.Episodes
/-!
# Each promise by itself

A tracker reports of a promise what a machine for this promise alone would, which hears of the
operations that name the promise and of the takes and clears.
-/

namespace HostBridge.Rejections

inductive Letter
  | rejected (reason : Value)
  | answered (reason : Value)
  | taken
  | cleared

def Op.letter? (p : Handle) : Op → Option Letter
  | .trackUnhandled q reason => if q = p then some (.rejected reason) else none
  | .trackHandled q reason => if q = p then some (.answered reason) else none
  | .takePending => some .taken
  | .clear => some .cleared

structure Emission where
  unhandled : List Value
  handled : List Value

structure Machine where
  episode : Option (Value × Bool) := none
  queued : List Value := []

namespace Machine

def step (policy : RejectionPolicy) (m : Machine) : Letter → Machine
  | .rejected reason => if m.episode.isSome then m else { m with episode := some (reason, false) }
  | .answered reason =>
    match m.episode with
    | none => m
    | some (_, reported) => ⟨none, if reported then m.queued ++ [reason] else m.queued⟩
  | .taken =>
    match policy with
    | .everyDrain => ⟨m.episode.map fun (reason, _) => (reason, true), []⟩
    | .once => ⟨none, []⟩
  | .cleared => ⟨none, []⟩

def emission (m : Machine) : Emission := ⟨(m.episode.map Prod.fst).toList, m.queued⟩

theorem step_answered_of_none {policy : RejectionPolicy} {m : Machine} (closed : m.episode = none)
    (reason : Value) : m.step policy (.answered reason) = m := by
  rw [step, closed]

theorem step_answered {policy : RejectionPolicy} {m : Machine} {first : Value} {reported : Bool}
    (there : m.episode = some (first, reported)) (reason : Value) :
    m.step policy (.answered reason) =
      ⟨none, if reported then m.queued ++ [reason] else m.queued⟩ := by
  rw [step, there]

def emissions (policy : RejectionPolicy) : Machine → List Letter → List Emission
  | _, [] => []
  | m, letter :: letters =>
    (match letter with
      | .taken => [m.emission]
      | _ => []) ++ emissions policy (m.step policy letter) letters

end Machine

def batches : Rejections → List Op → List Batch
  | _, [] => []
  | r, op :: ops =>
    (match op with
      | .takePending => [r.pending]
      | _ => []) ++ batches (r.apply op) ops

def Batch.about (p : Handle) (b : Batch) : Emission where
  unhandled := (b.unhandled.filter (·.promise = p)).map Rejection.reason
  handled := (b.handled.filter (·.promise = p)).map Rejection.reason

/-- The machine of a promise in the state in which the tracker has the promise. -/
def machine (r : Rejections) (p : Handle) : Machine where
  episode := (r.find? p).map fun q => (q.reason, q.reported)
  queued := (r.handled.filter (·.promise = p)).map Rejection.reason

variable {r : Rejections} {p q : Handle} {reason : Value}

theorem isUnhandled_eq : r.isUnhandled p = (r.find? p).isSome := List.isSome_find?.symm

theorem Sound.apply (sound : r.Sound) (op : Op) : (r.apply op).Sound := by
  cases op with
  | trackUnhandled p reason =>
    cases untracked : r.isUnhandled p with
    | false => exact sound.trackUnhandled untracked
    | true => rwa [Rejections.apply, Rejections.trackUnhandled, if_pos untracked]
  | trackHandled p reason =>
    cases found : r.find? p with
    | none => rwa [Rejections.apply, Rejections.trackHandled, found]
    | some q => exact sound.trackHandled found
  | takePending => exact sound.takePending
  | clear => exact sound.quiet (.clear r)

theorem policy_apply (r : Rejections) (op : Op) : (r.apply op).policy = r.policy := by
  cases op with
  | trackUnhandled p reason =>
    simp only [apply, trackUnhandled]
    split <;> rfl
  | trackHandled p reason =>
    simp only [apply, trackHandled]
    split <;> rfl
  | takePending => rfl
  | clear => rfl

theorem machine_trackUnhandled : (r.trackUnhandled q reason).machine p =
    if q = p then (r.machine p).step r.policy (.rejected reason) else r.machine p := by
  cases untracked : r.isUnhandled q with
  | true =>
    rw [trackUnhandled, if_pos untracked]
    split
    · rename_i same
      rw [isUnhandled_eq, same] at untracked
      rw [Machine.step, if_pos (by simpa [machine] using untracked)]
    · rfl
  | false =>
    have opened : (r.trackUnhandled q reason).find? p = (r.find? p).or
        (if q = p then some { promise := q, reason, episode := r.episodes } else none) := by
      rw [trackUnhandled, if_neg (by simp [untracked]), find?, List.find?_append,
        List.find?_singleton]
      simp only [decide_eq_true_eq, find?]
    rw [machine, opened, trackUnhandled_handled untracked]
    split
    · rename_i same
      rw [isUnhandled_eq, same, Option.isSome_eq_false_iff, Option.isNone_iff_eq_none] at untracked
      rw [Machine.step, machine, untracked]
      rfl
    · rw [Option.or_none]
      rfl

theorem trackHandled_of_none (absent : r.find? q = none) : r.trackHandled q reason = r := by
  rw [trackHandled, absent]

theorem trackHandled_handled {ended : Rejection} (found : r.find? q = some ended) :
    (r.trackHandled q reason).handled =
      if ended.reported then r.handled ++ [{ ended with reason }] else r.handled := by
  rw [trackHandled, found]

theorem machine_trackHandled (sound : r.Sound) : (r.trackHandled q reason).machine p =
    if q = p then (r.machine p).step r.policy (.answered reason) else r.machine p := by
  cases found : r.find? q with
  | none =>
    rw [trackHandled_of_none found]
    split
    · rename_i same
      have closed : (r.machine p).episode = none := by rw [machine, ← same, found]; rfl
      rw [Machine.step_answered_of_none closed]
    · rfl
  | some ended =>
    have erased : (r.trackHandled q reason).find? p = if p = q then none else r.find? p := by
      rw [find?, trackHandled_unhandled found]
      exact Keyed.find?_eraseP sound.distinct q p
    have named := promise_of_find? found
    split
    · rename_i same
      have there : (r.machine p).episode = some (ended.reason, ended.reported) := by
        rw [machine, ← same, found]
        rfl
      rw [Machine.step_answered there, machine, erased, if_pos same.symm, trackHandled_handled found]
      cases ended.reported <;> simp [machine, named, same]
    · rename_i other
      rw [machine, erased, if_neg (Ne.symm other), trackHandled_handled found]
      cases ended.reported <;> simp [machine, named, other]

theorem machine_takePending : r.takePending.machine p = (r.machine p).step r.policy .taken := by
  unfold Machine.step machine takePending find? pending
  cases r.policy with
  | everyDrain => simp [List.find?_map, Function.comp_def]
  | once => simp

/-- The machine of a promise follows the tracker. -/
theorem machine_apply (sound : r.Sound) (op : Op) (p : Handle) : (r.apply op).machine p =
    (op.letter? p).elim (r.machine p) ((r.machine p).step r.policy) := by
  cases op with
  | trackUnhandled q reason =>
    rw [apply, machine_trackUnhandled, Op.letter?]
    split <;> rfl
  | trackHandled q reason =>
    rw [apply, machine_trackHandled sound, Op.letter?]
    split <;> rfl
  | takePending => exact machine_takePending
  | clear => rfl

/-- A batch has of a promise what its machine emits. -/
theorem pending_about (sound : r.Sound) (p : Handle) :
    r.pending.about p = (r.machine p).emission := by
  have unhandled : (r.pending.unhandled.filter (·.promise = p)).map Rejection.reason =
      ((r.machine p).episode.map Prod.fst).toList := by
    rw [pending, List.filter_map, List.map_map]
    simp only [Function.comp_def]
    rw [Keyed.filter_eq sound.distinct, machine, find?]
    cases r.unhandled.find? (·.promise = p) <;> rfl
  rw [Batch.about, unhandled]
  rfl

theorem batches_about {r : Rejections} (sound : r.Sound) (ops : List Op) (p : Handle) :
    (batches r ops).map (Batch.about p) =
      (r.machine p).emissions r.policy (ops.filterMap (Op.letter? p)) := by
  induction ops generalizing r with
  | nil => rfl
  | cons op ops ih =>
    have later := ih (sound.apply op)
    rw [machine_apply sound, policy_apply] at later
    cases op with
    | takePending =>
      calc (batches r (.takePending :: ops)).map (Batch.about p)
        _ = r.pending.about p :: (batches r.takePending ops).map (Batch.about p) := rfl
        _ = (r.machine p).emission ::
            ((r.machine p).step r.policy .taken).emissions r.policy
              (ops.filterMap (Op.letter? p)) := by
          rw [pending_about sound]
          exact congrArg _ later
    | trackUnhandled q reason | trackHandled q reason =>
      refine later.trans ?_
      simp only [List.filterMap_cons, Op.letter?]
      split <;> rfl
    | clear => exact later

end HostBridge.Rejections
