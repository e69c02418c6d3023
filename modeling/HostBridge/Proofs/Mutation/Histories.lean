import HostBridge.Mutation.Registry
import Mathlib.Data.List.Induction
import Mathlib.Data.List.Nodup
/-!
# Histories of registrations

The registrations of a node by the operations that made them. An observer is registered with what it
was last observed with, unless it has been let go since; its place among the registrations is that of
the observation that enrolled it, which a later one does not change.
-/

namespace HostBridge.Mutation

open Registrations (Op)

def built (history : List Op) : Registrations := history.foldl Registrations.apply {}

def Registrations.Op.observer : Op → Nat
  | .observe o _ _ => o
  | .unobserve o => o

/-- The last operation that names the observer observes with what the registration holds. -/
def Stands (history : List Op) (r : Registration) : Prop :=
  ∃ (i : Nat) (options : Options), history[i]? = some (.observe r.observer options r.filter) ∧
    r.options = (if r.filter = [] then options else options.union .attributeFilter) ∧
    ∀ (j : Nat) (op : Op), i < j → history[j]? = some op → op.observer ≠ r.observer

/-- The `i`th operation takes in the observer, which was not registered then and has not been let go
since. -/
structure EnrolledAt (history : List Op) (o i : Nat) : Prop where
  observes : ∃ options filter, history[i]? = some (.observe o options filter)
  kept : ∀ j, i < j → history[j]? ≠ some (.unobserve o)
  anew : ∀ j < i, (∃ options filter, history[j]? = some (.observe o options filter)) →
    ∃ k, j < k ∧ k < i ∧ history[k]? = some (.unobserve o)

variable {history : List Op} {op : Op} {r : Registration} {o i : Nat}

theorem built_concat (history : List Op) (op : Op) :
    built (history ++ [op]) = (built history).apply op := by
  rw [built, List.foldl_append]
  rfl

theorem getElem?_concat_of_some {i : Nat} {a : Op} (at_i : history[i]? = some a) :
    (history ++ [op])[i]? = some a := by
  obtain ⟨lt, _⟩ := List.getElem?_eq_some_iff.mp at_i
  rw [List.getElem?_append_left lt, at_i]

theorem getElem?_concat_cases {i : Nat} {a : Op} (at_i : (history ++ [op])[i]? = some a) :
    history[i]? = some a ∨ i = history.length ∧ a = op := by
  rcases Nat.lt_trichotomy i history.length with lt | rfl | gt
  · left
    rwa [List.getElem?_append_left lt] at at_i
  · right
    rw [List.getElem?_concat_length] at at_i
    exact ⟨rfl, (Option.some.inj at_i).symm⟩
  · rw [List.getElem?_eq_none (by rw [List.length_append]; exact gt)] at at_i
    cases at_i

theorem lt_length {i : Nat} {a : Op} (at_i : history[i]? = some a) : i < history.length :=
  (List.getElem?_eq_some_iff.mp at_i).1

theorem not_stands_nil : ¬ Stands [] r := by
  rintro ⟨i, options, at_i, _⟩
  cases at_i

theorem stands_concat_of_ne (other : op.observer ≠ r.observer) :
    Stands (history ++ [op]) r ↔ Stands history r := by
  constructor
  · rintro ⟨i, options, at_i, holds, last⟩
    rcases getElem?_concat_cases at_i with old | ⟨_, new⟩
    · exact ⟨i, options, old, holds, fun j a lt at_j => last j a lt (getElem?_concat_of_some at_j)⟩
    · rw [← new] at other
      exact absurd rfl other
  · rintro ⟨i, options, at_i, holds, last⟩
    refine ⟨i, options, getElem?_concat_of_some at_i, holds, ?_⟩
    intro j a lt at_j
    rcases getElem?_concat_cases at_j with old | ⟨_, rfl⟩
    · exact last j a lt old
    · exact other

theorem stands_concat_of_eq (own : op.observer = r.observer) :
    Stands (history ++ [op]) r ↔ ∃ options, op = .observe r.observer options r.filter ∧
      r.options = (if r.filter = [] then options else options.union .attributeFilter) := by
  constructor
  · rintro ⟨i, options, at_i, holds, last⟩
    rcases getElem?_concat_cases at_i with old | ⟨_, new⟩
    · exact absurd own (last _ op (lt_length old) List.getElem?_concat_length)
    · exact ⟨options, new.symm, holds⟩
  · rintro ⟨options, rfl, holds⟩
    refine ⟨history.length, options, List.getElem?_concat_length, holds, ?_⟩
    intro j a lt at_j
    have := lt_length at_j
    rw [List.length_append, List.length_singleton] at this
    omega

theorem optionsFor_eq (options : Options) (filter : List String) :
    Registrations.optionsFor options filter =
      if filter = [] then options else options.union .attributeFilter := by
  rw [Registrations.optionsFor]
  simp only [List.isEmpty_iff]

theorem mem_observe {rs : Registrations} {options : Options} {filter : List String} :
    r ∈ (rs.observe o options filter).list ↔
      r = ⟨o, Registrations.optionsFor options filter, filter⟩ ∨ r ∈ rs.list ∧ r.observer ≠ o := by
  unfold Registrations.observe
  by_cases there : rs.list.any (·.observer = o)
  · obtain ⟨x, mem, named⟩ := List.any_eq_true.mp there
    rw [if_pos there, List.mem_map]
    grind
  · have absent := List.any_eq_false.mp (Bool.eq_false_iff.mpr there)
    rw [if_neg there, List.mem_append, List.mem_singleton]
    grind

theorem mem_unobserve {rs : Registrations} :
    r ∈ (rs.unobserve o).list ↔ r ∈ rs.list ∧ r.observer ≠ o := by
  simp [Registrations.unobserve]

theorem mem_apply_of_ne {rs : Registrations} (other : op.observer ≠ r.observer) :
    r ∈ (rs.apply op).list ↔ r ∈ rs.list := by
  cases op with
  | observe o options filter =>
    rw [Registrations.apply, mem_observe]
    constructor
    · rintro (rfl | ⟨mem, _⟩)
      · exact absurd rfl other
      · exact mem
    · intro mem
      exact Or.inr ⟨mem, Ne.symm other⟩
  | unobserve o =>
    rw [Registrations.apply, mem_unobserve]
    exact and_iff_left (Ne.symm other)

theorem mem_apply_of_eq {rs : Registrations} (own : op.observer = r.observer) :
    r ∈ (rs.apply op).list ↔ ∃ options, op = .observe r.observer options r.filter ∧
      r.options = (if r.filter = [] then options else options.union .attributeFilter) := by
  obtain ⟨o, merged, filter⟩ := r
  cases op with
  | observe o' options filter' =>
    obtain rfl : o' = o := own
    simp only [Registrations.apply, mem_observe, optionsFor_eq, Registration.mk.injEq,
      Op.observe.injEq, true_and]
    grind
  | unobserve o' =>
    obtain rfl : o' = o := own
    simp [Registrations.apply, mem_unobserve]

/-- The registrations of a node are those that stand. -/
theorem mem_built : r ∈ (built history).list ↔ Stands history r := by
  induction history using List.reverseRecOn with
  | nil => exact iff_of_false List.not_mem_nil not_stands_nil
  | append_singleton history op ih =>
    rw [built_concat]
    by_cases own : op.observer = r.observer
    · rw [stands_concat_of_eq own, mem_apply_of_eq own]
    · rw [stands_concat_of_ne own, mem_apply_of_ne own, ih]

theorem enrolledAt_concat (enrolled : EnrolledAt history o i) (stays : op ≠ .unobserve o) :
    EnrolledAt (history ++ [op]) o i := by
  obtain ⟨⟨options, filter, observes⟩, kept, anew⟩ := enrolled
  have lt := lt_length observes
  constructor
  · exact ⟨options, filter, getElem?_concat_of_some observes⟩
  · intro j after at_j
    rcases getElem?_concat_cases at_j with old | ⟨_, new⟩
    · exact kept j after old
    · exact stays new.symm
  · rintro j before ⟨options', filter', at_j⟩
    rcases getElem?_concat_cases at_j with old | ⟨rfl, _⟩
    · obtain ⟨k, jk, ki, at_k⟩ := anew j before ⟨options', filter', old⟩
      exact ⟨k, jk, ki, getElem?_concat_of_some at_k⟩
    · omega

theorem mem_apply_observe (rs : Registrations) (o : Nat) (options : Options) (filter : List String) :
    ∃ r ∈ (rs.apply (.observe o options filter)).list, r.observer = o :=
  ⟨_, mem_observe.mpr (Or.inl rfl), rfl⟩

theorem unobserved_of_absent (absent : ∀ r ∈ (built history).list, r.observer ≠ o) {j : Nat}
    (observes : ∃ options filter, history[j]? = some (.observe o options filter)) :
    ∃ k, j < k ∧ history[k]? = some (.unobserve o) := by
  obtain ⟨options, filter, at_j⟩ := observes
  induction history using List.reverseRecOn with
  | nil => cases at_j
  | append_singleton history op ih =>
    rw [built_concat] at absent
    -- Either the last operation lets the observer go, or an earlier one has.
    by_cases goes : op = .unobserve o
    · rcases getElem?_concat_cases at_j with old | ⟨_, new⟩
      · exact ⟨history.length, lt_length old, by rw [List.getElem?_concat_length, goes]⟩
      · rw [goes] at new
        cases new
    · have not_observe : ∀ options filter, op ≠ .observe o options filter := by
        rintro options filter rfl
        obtain ⟨r, mem, named⟩ := mem_apply_observe (built history) o options filter
        exact absent r mem named
      have other : op.observer ≠ o := by
        cases op with
        | observe o' options filter =>
          rintro rfl
          exact not_observe options filter rfl
        | unobserve o' =>
          rintro rfl
          exact goes rfl
      rcases getElem?_concat_cases at_j with old | ⟨_, new⟩
      · have earlier : ∀ r ∈ (built history).list, r.observer ≠ o := by
          intro r mem named
          rw [← named] at other
          exact absent r ((mem_apply_of_ne other).mpr mem) named
        obtain ⟨k, after, at_k⟩ := ih earlier old
        exact ⟨k, after, getElem?_concat_of_some at_k⟩
      · exact absurd new.symm (not_observe options filter)

theorem enrolledAt_of_absent (absent : ∀ r ∈ (built history).list, r.observer ≠ o)
    (options : Options) (filter : List String) :
    EnrolledAt (history ++ [.observe o options filter]) o history.length := by
  constructor
  · exact ⟨options, filter, List.getElem?_concat_length⟩
  · intro j after at_j
    have := lt_length at_j
    rw [List.length_append, List.length_singleton] at this
    omega
  · rintro j before ⟨options', filter', at_j⟩
    rw [List.getElem?_append_left before] at at_j
    obtain ⟨k, after, at_k⟩ := unobserved_of_absent absent ⟨options', filter', at_j⟩
    exact ⟨k, after, lt_length at_k, getElem?_concat_of_some at_k⟩

theorem exists_enrolledAt (mem : r ∈ (built history).list) : ∃ i, EnrolledAt history r.observer i := by
  induction history using List.reverseRecOn generalizing r with
  | nil => cases mem
  | append_singleton history op ih =>
    rw [built_concat] at mem
    by_cases there : ∃ r' ∈ (built history).list, r'.observer = r.observer
    · obtain ⟨r', mem', named⟩ := there
      obtain ⟨i, enrolled⟩ := ih mem'
      rw [named] at enrolled
      refine ⟨i, enrolledAt_concat enrolled ?_⟩
      rintro rfl
      exact (mem_unobserve.mp mem).2 rfl
    · have absent : ∀ r' ∈ (built history).list, r'.observer ≠ r.observer :=
        fun r' mem' named => there ⟨r', mem', named⟩
      by_cases own : op.observer = r.observer
      · obtain ⟨options, rfl, _⟩ := (mem_apply_of_eq own).mp mem
        exact ⟨history.length, enrolledAt_of_absent absent options r.filter⟩
      · exact absurd rfl (absent r ((mem_apply_of_ne own).mp mem))

/-- The registrations of a node come in the order in which their observers have been enrolled. -/
theorem built_ordered (history : List Op) : (built history).list.Pairwise fun a b =>
    ∃ i j, i < j ∧ EnrolledAt history a.observer i ∧ EnrolledAt history b.observer j := by
  induction history using List.reverseRecOn with
  | nil => exact List.Pairwise.nil
  | append_singleton history op ih =>
    rw [built_concat]
    cases op with
    | observe o options filter =>
      have stays : ∀ {a b : Registration}, (∃ i j, i < j ∧ EnrolledAt history a.observer i ∧
          EnrolledAt history b.observer j) → ∃ i j, i < j ∧
            EnrolledAt (history ++ [.observe o options filter]) a.observer i ∧
            EnrolledAt (history ++ [.observe o options filter]) b.observer j := by
        rintro a b ⟨i, j, lt, first, second⟩
        exact ⟨i, j, lt, enrolledAt_concat first (by simp), enrolledAt_concat second (by simp)⟩
      rw [Registrations.apply, Registrations.observe]
      by_cases there : (built history).list.any (·.observer = o)
      · rw [if_pos there]
        refine List.pairwise_map.mpr (ih.imp ?_)
        intro a b before
        have same : ∀ x : Registration,
            (if x.observer = o then ⟨o, Registrations.optionsFor options filter, filter⟩
              else x).observer = x.observer := by
          intro x
          split
          · rename_i named
            exact named.symm
          · rfl
        rw [same, same]
        exact stays before
      · -- A new observer is enrolled last, and stands last.
        rw [if_neg there]
        have absent : ∀ r ∈ (built history).list, r.observer ≠ o := by
          simpa using there
        refine List.pairwise_append.mpr ⟨ih.imp stays, List.pairwise_singleton _ _, ?_⟩
        intro a mem b new
        obtain ⟨i, enrolled⟩ := exists_enrolledAt mem
        obtain ⟨_, _, observes⟩ := enrolled.observes
        rw [List.mem_singleton.mp new]
        exact ⟨i, history.length, lt_length observes, enrolledAt_concat enrolled (by simp),
          enrolledAt_of_absent absent options filter⟩
    | unobserve o =>
      refine (ih.filter _).imp_of_mem ?_
      rintro a b mem_a mem_b ⟨i, j, lt, first, second⟩
      have kept : ∀ {r}, r ∈ (built history).list.filter (·.observer ≠ o) →
          (Op.unobserve o) ≠ .unobserve r.observer := by
        intro r mem same
        have other := (List.mem_filter.mp mem).2
        simp [Op.unobserve.inj same] at other
      exact ⟨i, j, lt, enrolledAt_concat first (kept mem_a), enrolledAt_concat second (kept mem_b)⟩

end HostBridge.Mutation
