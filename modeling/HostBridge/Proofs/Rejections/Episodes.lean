import HostBridge.Proofs.Keyed
import HostBridge.Proofs.Rejections.Batches
/-!
# Episodes

What a step does to an episode: to the rejections that are tracked in it, to the events that wait
for it, and to an episode that is settled.
-/

namespace HostBridge

structure Rejections.Sound (r : Rejections) : Prop where
  distinct : (r.unhandled.map Rejection.promise).Nodup
  numbered : ∀ q ∈ r.unhandled, q.episode < r.episodes

namespace Rejections

variable {r : Rejections} {p : Handle} {reason : Value} {q : Rejection}

theorem mem_trackUnhandled (untracked : r.isUnhandled p = false)
    (mem : q ∈ (r.trackUnhandled p reason).unhandled) :
    q ∈ r.unhandled ∨ q = { promise := p, reason, episode := r.episodes } := by
  rw [trackUnhandled, if_neg (by simp [untracked])] at mem
  rcases List.mem_append.mp mem with old | new
  · exact Or.inl old
  · exact Or.inr (List.mem_singleton.mp new)

theorem trackUnhandled_handled (untracked : r.isUnhandled p = false) :
    (r.trackUnhandled p reason).handled = r.handled := by
  rw [trackUnhandled, if_neg (by simp [untracked])]

theorem trackUnhandled_episodes (untracked : r.isUnhandled p = false) :
    (r.trackUnhandled p reason).episodes = r.episodes + 1 := by
  rw [trackUnhandled, if_neg (by simp [untracked])]

variable {found : Rejection}

theorem trackHandled_unhandled (here : r.find? p = some found) :
    (r.trackHandled p reason).unhandled = r.unhandled.eraseP (·.promise = p) := by
  rw [trackHandled, here]

theorem trackHandled_episodes (here : r.find? p = some found) :
    (r.trackHandled p reason).episodes = r.episodes := by
  rw [trackHandled, here]

theorem mem_trackHandled_unhandled (here : r.find? p = some found)
    (mem : q ∈ (r.trackHandled p reason).unhandled) : q ∈ r.unhandled := by
  rw [trackHandled_unhandled here] at mem
  exact List.mem_of_mem_eraseP mem

theorem mem_trackHandled_handled (here : r.find? p = some found)
    (mem : q ∈ (r.trackHandled p reason).handled) :
    q ∈ r.handled ∨ q.inEpisode = found.inEpisode ∧ found.reported = true := by
  rw [trackHandled, here] at mem
  simp only at mem
  split at mem
  · rename_i reported
    rcases List.mem_append.mp mem with old | new
    · exact Or.inl old
    · rw [List.mem_singleton.mp new]
      exact Or.inr ⟨rfl, reported⟩
  · exact Or.inl mem

theorem mem_pending (mem : q ∈ r.pending.unhandled) :
    ∃ q' ∈ r.unhandled, q'.inEpisode = q.inEpisode := by
  obtain ⟨q', old, rfl⟩ := List.mem_map.mp mem
  exact ⟨q', old, rfl⟩

theorem mem_takePending (mem : q ∈ r.takePending.unhandled) : q ∈ r.pending.unhandled := by
  rw [takePending] at mem
  simp only at mem
  split at mem
  · exact mem
  · exact nomatch mem

theorem Sound.quiet {r' : Rejections} (sound : r.Sound) (quiet : r.Quiet r') : r'.Sound := by
  rcases quiet.unhandled with same | empty
  · constructor
    · rw [same]
      exact sound.distinct
    · rw [same, quiet.episodes]
      exact sound.numbered
  · constructor
    · rw [empty]
      exact List.nodup_nil
    · rw [empty]
      intro q mem
      exact nomatch mem

theorem Sound.trackUnhandled (sound : r.Sound) (untracked : r.isUnhandled p = false) :
    (r.trackUnhandled p reason).Sound := by
  constructor
  · have fresh : ∀ q ∈ r.unhandled, q.promise ≠ p := by
      intro q here same
      have tracked : r.isUnhandled p = true := List.any_eq_true.mpr ⟨q, here, by simp [same]⟩
      rw [untracked] at tracked
      exact nomatch tracked
    rw [Rejections.trackUnhandled, if_neg (by simp [untracked])]
    exact Keyed.nodup_snoc sound.distinct fresh
  · intro q mem
    rw [trackUnhandled_episodes untracked]
    rcases mem_trackUnhandled untracked mem with old | rfl
    · exact Nat.lt_succ_of_lt (sound.numbered q old)
    · exact Nat.lt_succ_self _

theorem Sound.trackHandled (sound : r.Sound) (here : r.find? p = some found) :
    (r.trackHandled p reason).Sound := by
  constructor
  · rw [trackHandled_unhandled here]
    exact sound.distinct.sublist (List.eraseP_sublist.map Rejection.promise)
  · intro q mem
    rw [trackHandled_episodes here]
    exact sound.numbered q (mem_trackHandled_unhandled here mem)

theorem Sound.takePending (sound : r.Sound) : r.takePending.Sound := by
  constructor
  · rw [Rejections.takePending]
    simp only
    split
    · rw [pending, List.map_map]
      exact sound.distinct
    · exact List.nodup_nil
  · intro q mem
    obtain ⟨q', old, same⟩ := mem_pending (mem_takePending mem)
    have number : q'.episode = q.episode := congrArg Episode.number same
    rw [← number]
    exact sound.numbered q' old

theorem Sound.not_mem_trackHandled (sound : r.Sound) (here : r.find? p = some found)
    (mem : q ∈ (r.trackHandled p reason).unhandled) : q.inEpisode ≠ found.inEpisode := by
  intro same
  have promise : q.promise = p := (congrArg Episode.promise same).trans (promise_of_find? here)
  rw [trackHandled_unhandled here] at mem
  exact Keyed.key_ne_of_mem_eraseP sound.distinct mem promise

end Rejections

namespace Execution

variable {Obj τ : Type} [Facility τ] {E : Embedder Obj τ}

def Reports (x : Execution E) (c : ContextId) (kind : EventKind) (e : Episode) : Prop :=
  ∃ r, x.dispatch? c = some (kind, r) ∧ r.inEpisode = e

def Waits (x : Execution E) (c : ContextId) (kind : EventKind) (e : Episode) : Prop :=
  ∃ r, (kind, r) ∈ x.waiting c ∧ r.inEpisode = e

def Tracked (x : Execution E) (c : ContextId) (e : Episode) : Prop :=
  ∃ r ∈ (x.world.rejections c).unhandled, r.inEpisode = e

/-- A handler that came after the report of the episode is to be reported. -/
def Answered (x : Execution E) (c : ContextId) (e : Episode) : Prop :=
  ∃ r ∈ (x.world.rejections c).handled, r.inEpisode = e

variable {x y : Execution E} {c : ContextId} {e : Episode} {kind : EventKind}

theorem Reports.waits (reports : x.Reports c kind e) : x.Waits c kind e := by
  obtain ⟨r, dispatches, is⟩ := reports
  obtain ⟨rest, waiting⟩ := waiting_of_dispatch? dispatches
  refine ⟨r, ?_, is⟩
  rw [waiting]
  exact List.mem_cons_self

theorem Tracks.waits_or_reports (tracks : Tracks c x y) (waits : x.Waits c kind e) :
    y.Waits c kind e ∨ x.Reports c kind e := by
  obtain ⟨r, mem, is⟩ := waits
  cases tracks with
  | quiet _ waiting | opened _ _ _ waiting | ended _ _ _ waiting =>
    exact Or.inl ⟨r, waiting ▸ mem, is⟩
  | taken _ waiting =>
    refine Or.inl ⟨r, ?_, is⟩
    rw [waiting]
    exact List.mem_append_right _ mem
  | dispatched dispatches _ waiting =>
    rw [waiting] at mem
    rcases List.mem_cons.mp mem with first | later
    · exact Or.inr ⟨r, first ▸ dispatches, is⟩
    · exact Or.inl ⟨r, later, is⟩

theorem Tracks.sound (tracks : Tracks c x y) (sound : (x.world.rejections c).Sound) :
    (y.world.rejections c).Sound := by
  cases tracks with
  | quiet quiet _ => exact sound.quiet quiet
  | opened _ untracked rejections _ => exact rejections ▸ sound.trackUnhandled untracked
  | ended _ found rejections _ => exact rejections ▸ sound.trackHandled found
  | taken rejections _ => exact rejections ▸ sound.takePending
  | dispatched _ rejections _ => exact rejections ▸ sound

theorem Tracks.mem_unhandled (tracks : Tracks c x y) {r : Rejection}
    (mem : r ∈ (y.world.rejections c).unhandled) :
    r ∈ (x.world.rejections c).unhandled ∨
      x.Opens c r.inEpisode ∧ r.reported = false ∧
        r.episode = (x.world.rejections c).episodes ∨
      x.Tracked c r.inEpisode ∧ y.Waits c .unhandledRejection r.inEpisode := by
  cases tracks with
  | quiet quiet _ =>
    rcases quiet.unhandled with same | empty
    · exact Or.inl (same ▸ mem)
    · rw [empty] at mem
      exact nomatch mem
  | opened opens untracked rejections _ =>
    rw [rejections] at mem
    rcases Rejections.mem_trackUnhandled untracked mem with old | rfl
    · exact Or.inl old
    · exact Or.inr (Or.inl ⟨opens, rfl, rfl⟩)
  | ended _ found rejections _ =>
    rw [rejections] at mem
    exact Or.inl (Rejections.mem_trackHandled_unhandled found mem)
  | taken rejections waiting =>
    rw [rejections] at mem
    have pending := Rejections.mem_takePending mem
    refine Or.inr (Or.inr ⟨Rejections.mem_pending pending, r, ?_, rfl⟩)
    rw [waiting]
    apply List.mem_append_left
    exact Rejections.Batch.mem_events.mpr (Or.inl ⟨rfl, pending⟩)
  | dispatched _ rejections _ => exact Or.inl (rejections ▸ mem)

theorem Tracks.answered (tracks : Tracks c x y) (answered : y.Answered c e) :
    x.Answered c e ∨
      x.Ends c e ∧ ∃ r ∈ (x.world.rejections c).unhandled, r.inEpisode = e ∧ r.reported = true := by
  obtain ⟨r, mem, is⟩ := answered
  cases tracks with
  | quiet quiet _ =>
    rcases quiet.handled with same | empty
    · exact Or.inl ⟨r, same ▸ mem, is⟩
    · rw [empty] at mem
      exact nomatch mem
  | opened _ untracked rejections _ =>
    rw [rejections, Rejections.trackUnhandled_handled untracked] at mem
    exact Or.inl ⟨r, mem, is⟩
  | ended ends found rejections _ =>
    rw [rejections] at mem
    rcases Rejections.mem_trackHandled_handled found mem with old | ⟨same, reported⟩
    · exact Or.inl ⟨r, old, is⟩
    · rw [← is, same]
      exact Or.inr ⟨ends, _, Rejections.mem_of_find? found, rfl, reported⟩
  | taken rejections _ =>
    rw [rejections] at mem
    exact nomatch mem
  | dispatched _ rejections _ => exact Or.inl ⟨r, rejections ▸ mem, is⟩

/-- Where the events that wait after a step come from. -/
theorem Tracks.waits (tracks : Tracks c x y) (waits : y.Waits c kind e) :
    x.Waits c kind e ∨ kind = .unhandledRejection ∧ x.Tracked c e ∨
      kind = .rejectionHandled ∧ x.Answered c e := by
  obtain ⟨r, mem, is⟩ := waits
  cases tracks with
  | quiet _ waiting | opened _ _ _ waiting | ended _ _ _ waiting =>
    exact Or.inl ⟨r, waiting ▸ mem, is⟩
  | taken _ waiting =>
    rw [waiting] at mem
    rcases List.mem_append.mp mem with batch | old
    · rcases Rejections.Batch.mem_events.mp batch with ⟨of, here⟩ | ⟨of, here⟩
      · obtain ⟨q, tracked, same⟩ := Rejections.mem_pending here
        exact Or.inr (Or.inl ⟨of, q, tracked, same.trans is⟩)
      · exact Or.inr (Or.inr ⟨of, r, here, is⟩)
    · exact Or.inl ⟨r, old, is⟩
  | dispatched _ _ waiting =>
    refine Or.inl ⟨r, ?_, is⟩
    rw [waiting]
    exact List.mem_cons_of_mem _ mem

theorem Tracks.episodes_le (tracks : Tracks c x y) :
    (x.world.rejections c).episodes ≤ (y.world.rejections c).episodes := by
  cases tracks with
  | quiet quiet _ => exact Nat.le_of_eq quiet.episodes.symm
  | opened _ untracked rejections _ =>
    rw [rejections, Rejections.trackUnhandled_episodes untracked]
    exact Nat.le_succ _
  | ended _ found rejections _ =>
    exact Nat.le_of_eq (by rw [rejections, Rejections.trackHandled_episodes found])
  | taken rejections _ =>
    have same : (y.world.rejections c).episodes = (x.world.rejections c).takePending.episodes :=
      congrArg Rejections.episodes rejections
    exact Nat.le_of_eq same.symm
  | dispatched _ rejections _ => exact Nat.le_of_eq (congrArg Rejections.episodes rejections.symm)

/-- The episode has been opened, and no more is heard of it being unhandled. -/
structure Settled (x : Execution E) (c : ContextId) (e : Episode) : Prop where
  opened : e.number < (x.world.rejections c).episodes
  untracked : ¬ x.Tracked c e
  silent : ¬ x.Waits c .unhandledRejection e

theorem Settled.tracks (settled : x.Settled c e) (tracks : Tracks c x y) :
    y.Settled c e := by
  constructor
  · exact Nat.lt_of_lt_of_le settled.opened tracks.episodes_le
  · intro tracked
    obtain ⟨r, mem, is⟩ := tracked
    rcases tracks.mem_unhandled mem with old | ⟨_, _, new⟩ | ⟨tracked, _⟩
    · exact settled.untracked ⟨r, old, is⟩
    · have number : e.number = r.episode := (congrArg Episode.number is).symm
      have lt := settled.opened
      omega
    · exact settled.untracked (is ▸ tracked)
  · intro waits
    rcases tracks.waits waits with old | ⟨_, tracked⟩ | ⟨other, _⟩
    · exact settled.silent old
    · exact settled.untracked tracked
    · exact nomatch other

end Execution

end HostBridge
