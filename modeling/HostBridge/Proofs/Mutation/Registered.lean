import HostBridge.Proofs.Mutation.Gathering
import HostBridge.Proofs.Mutation.Histories
/-!
# What is registered on a node

The registrations of a node as a map from observers, told by the history of its operations: an
observer is there once, at the place where it was enrolled, with what it was last observed with and
with nothing of what it was observed with before.
-/

namespace HostBridge.Mutation

open Registrations (Op)

def Registered (history : List Op) (o : Nat) : Prop :=
  ∃ (i : Nat) (options : Options) (filter : List String),
    history[i]? = some (.observe o options filter) ∧
      ∀ (j : Nat), i < j → history[j]? ≠ some (.unobserve o)

def Record.Names (q : Record) (h : Handle) : Prop :=
  h = q.target ∨ h ∈ q.added ∨ h ∈ q.removed ∨ q.previous = some h ∨ q.next = some h

structure Refines (history : List Op) : Prop where
  distinct : ((built history).list.map Registration.observer).Nodup
  registered : ∀ o, (∃ r ∈ (built history).list, r.observer = o) ↔ Registered history o
  latest : ∀ r, r ∈ (built history).list ↔ Stands history r
  filtered : ∀ r ∈ (built history).list, r.filter ≠ [] → r.options.contains .attributeFilter
  ordered : (built history).list.Pairwise fun a b =>
    ∃ i j, i < j ∧ EnrolledAt history a.observer i ∧ EnrolledAt history b.observer j
  enrolled_once : ∀ o i j, EnrolledAt history o i → EnrolledAt history o j → i = j
  unobserve : ∀ o, (((built history).unobserve o).list.length ≠ (built history).list.length ↔
      Registered history o) ∧
    List.Sublist ((built history).unobserve o).list (built history).list ∧
    ∀ r, r ∈ ((built history).unobserve o).list ↔ r ∈ (built history).list ∧ r.observer ≠ o
  traced : ∀ (all : Observers) h, h ∈ (built history).handles all ↔
    ∃ o x, Registered history o ∧ all.get? o = some x ∧
      (x.callback.object? = some h ∨ ∃ q ∈ x.pending, q.Names h)

variable {history : List Op} {r : Registration} {o i j : Nat} {h : Handle}

theorem registered_of_mem (mem : r ∈ (built history).list) : Registered history r.observer := by
  obtain ⟨i, options, at_i, _, last⟩ := mem_built.mp mem
  exact ⟨i, options, r.filter, at_i, fun j after at_j => last j _ after at_j rfl⟩

theorem mem_of_registered (registered : Registered history o) :
    ∃ r ∈ (built history).list, r.observer = o := by
  obtain ⟨i, options, filter, at_i, kept⟩ := registered
  by_contra none
  have absent : ∀ r ∈ (built history).list, r.observer ≠ o := fun r mem named => none ⟨r, mem, named⟩
  obtain ⟨k, after, at_k⟩ := unobserved_of_absent absent ⟨options, filter, at_i⟩
  exact kept k after at_k

theorem registered_iff : (∃ r ∈ (built history).list, r.observer = o) ↔ Registered history o :=
  ⟨fun ⟨_, mem, named⟩ => named ▸ registered_of_mem mem, mem_of_registered⟩

/-- Of two enrolments the later one would have to come after a letting go, which the earlier one
excludes. -/
theorem enrolledAt_le (first : EnrolledAt history o i) (second : EnrolledAt history o j) : j ≤ i := by
  by_contra later
  obtain ⟨k, after, _, at_k⟩ := second.anew i (Nat.lt_of_not_le later) first.observes
  exact first.kept k after at_k

theorem nodup_observers (history : List Op) :
    ((built history).list.map Registration.observer).Nodup := by
  refine List.pairwise_map.mpr ((built_ordered history).imp ?_)
  rintro a b ⟨i, j, before, first, second⟩ same
  rw [same] at first
  exact absurd (enrolledAt_le first second) (Nat.not_le.mpr before)

theorem Options.contains_union (a : Options) {p : Options} {k : Nat} (single : p.bits.toNat = 2 ^ k)
    (some : p.intersects p) : (a.union p).contains p := by
  rw [contains_eq_intersects _ p single, intersects_union, some, Bool.or_true]

theorem filtered_of_stands (stands : Stands history r) (some : r.filter ≠ []) :
    r.options.contains .attributeFilter := by
  obtain ⟨_, options, _, holds, _⟩ := stands
  rw [holds, if_neg some]
  exact Options.contains_union options (k := 6) rfl rfl

theorem mem_handles_record (q : Record) : h ∈ handles q ↔ q.Names h := by
  show h ∈ q.target :: q.added ++ q.removed ++ q.previous.toList ++ q.next.toList ↔ _
  simp only [List.mem_append, List.mem_cons, Option.mem_toList, Record.Names, or_assoc]

theorem mem_handles_observer (x : Observer) :
    h ∈ handles x ↔ x.callback.object? = some h ∨ ∃ q ∈ x.pending, q.Names h := by
  show h ∈ handles x.callback ++ handles x.pending ↔ _
  have callback : h ∈ handles x.callback ↔ x.callback.object? = some h := Option.mem_toList
  have pending : h ∈ handles x.pending ↔ ∃ q ∈ x.pending, h ∈ handles q := List.mem_flatMap
  simp only [List.mem_append, callback, pending, mem_handles_record]

theorem mem_handlesOf (all : Observers) :
    h ∈ all.handlesOf o ↔ ∃ x, all.get? o = some x ∧ h ∈ handles x := by
  rw [Observers.handlesOf]
  cases all.get? o with
  | none => simp
  | some x => simp

/-- The registrations of a node are those that its history leaves. -/
theorem registrations_refine_history (history : List Op) : Refines history := by
  constructor
  · exact nodup_observers history
  · exact fun o => registered_iff
  · exact fun r => mem_built
  · exact fun r mem => filtered_of_stands (mem_built.mp mem)
  · exact built_ordered history
  · intro o i j first second
    exact Nat.le_antisymm (enrolledAt_le second first) (enrolledAt_le first second)
  · intro o
    refine ⟨?_, List.filter_sublist, fun r => mem_unobserve⟩
    rw [← registered_iff, Registrations.unobserve, ne_eq, List.length_filter_eq_length_iff]
    simp
  · intro all h
    rw [Registrations.handles, List.mem_flatMap]
    simp only [← registered_iff, mem_handlesOf, mem_handles_observer]
    constructor
    · rintro ⟨r, mem, x, there, names⟩
      exact ⟨r.observer, x, ⟨r, mem, rfl⟩, there, names⟩
    · rintro ⟨_, x, ⟨r, mem, rfl⟩, there, names⟩
      exact ⟨r, mem, x, there, names⟩

end HostBridge.Mutation
