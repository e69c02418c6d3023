import HostBridge.Mutation.Registry
import Mathlib.Data.List.Induction
import Mathlib.Data.Nat.Bitwise
/-!
# Gathered interests

The interests gathered from a list of registrations: every observer of the list is there once, at the
place of its first registration, with the options of all of its registrations together.
-/

namespace HostBridge.Mutation

theorem Options.intersects_union (a b p : Options) :
    (a.union b).intersects p = (a.intersects p || b.intersects p) := by
  have distrib : (a.bits ||| b.bits) &&& p.bits = (a.bits &&& p.bits) ||| (b.bits &&& p.bits) := by
    rw [← UInt8.toNat_inj]
    simp only [UInt8.toNat_and, UInt8.toNat_or, Nat.and_or_distrib_right]
  rw [Bool.eq_iff_iff]
  simp only [Options.intersects, Options.union, distrib, bne_iff_ne, Bool.or_eq_true, ne_eq,
    UInt8.or_eq_zero_iff]
  exact not_and_or

theorem Options.contains_eq_intersects (o p : Options) {k : Nat} (single : p.bits.toNat = 2 ^ k) :
    o.contains p = o.intersects p := by
  rw [Bool.eq_iff_iff]
  simp only [Options.contains, Options.intersects, beq_iff_eq, bne_iff_ne, ne_eq, ← UInt8.toNat_inj,
    UInt8.toNat_and, single, Nat.and_two_pow]
  have positive : 2 ^ k ≠ 0 := (Nat.two_pow_pos k).ne'
  cases o.bits.toNat.testBit k <;> simp [positive.symm]

namespace Interests

def gather (list : List (Nat × Registration)) : Interests :=
  list.foldl (fun m x => m.add x.2.observer x.2.options) {}

def FirstIn (list : List (Nat × Registration)) (x : Nat × Registration) : Prop :=
  ∃ before behind, list = before ++ x :: behind ∧ ∀ y ∈ before, y.2.observer ≠ x.2.observer

variable {m : Interests} {list : List (Nat × Registration)} {x : Nat × Registration} {o : Nat}
  {options p : Options}

theorem gather_concat (list : List (Nat × Registration)) (x : Nat × Registration) :
    gather (list ++ [x]) = (gather list).add x.2.observer x.2.options := by
  rw [gather, List.foldl_append]
  rfl

theorem firstIn_mem (first : FirstIn list x) : x ∈ list := by
  obtain ⟨before, behind, rfl, _⟩ := first
  exact List.mem_append_right _ List.mem_cons_self

theorem exists_firstIn (mem : x ∈ list) : ∃ y, FirstIn list y ∧ y.2.observer = x.2.observer := by
  have found : (list.find? (·.2.observer = x.2.observer)).isSome :=
    List.find?_isSome.mpr ⟨x, mem, by simp⟩
  obtain ⟨y, is_first⟩ := Option.isSome_iff_exists.mp found
  obtain ⟨named, before, behind, is, other⟩ := List.find?_eq_some_iff_append.mp is_first
  have same : y.2.observer = x.2.observer := by simpa using named
  refine ⟨y, ⟨before, behind, is, ?_⟩, same⟩
  intro z mem_z
  rw [same]
  simpa using other z mem_z

theorem firstIn_concat (first : FirstIn list x) (y : Nat × Registration) :
    FirstIn (list ++ [y]) x := by
  obtain ⟨before, behind, rfl, other⟩ := first
  exact ⟨before, behind ++ [y], by simp, other⟩

theorem add_of_mem (there : o ∈ m.members.map Prod.fst) :
    (m.add o options).members =
      m.members.map fun (o', merged) => (o', if o' = o then merged.union options else merged) := by
  rw [add, if_pos (by simpa [get?, List.lookup_isSome_iff] using there)]

theorem add_of_not_mem (absent : o ∉ m.members.map Prod.fst) :
    (m.add o options).members = m.members ++ [(o, options)] := by
  rw [add, if_neg (by simpa [get?, List.lookup_isSome_iff] using absent)]

theorem observers_add_of_mem (there : o ∈ m.members.map Prod.fst) :
    (m.add o options).members.map Prod.fst = m.members.map Prod.fst := by
  rw [add_of_mem there, List.map_map]
  rfl

theorem mem_observers : o ∈ (gather list).members.map Prod.fst ↔ ∃ x ∈ list, x.2.observer = o := by
  induction list using List.reverseRecOn generalizing o with
  | nil => simp [gather]
  | append_singleton list x ih =>
    rw [gather_concat]
    by_cases there : x.2.observer ∈ (gather list).members.map Prod.fst
    · rw [observers_add_of_mem there, ih]
      constructor
      · rintro ⟨y, mem, named⟩
        exact ⟨y, List.mem_append_left _ mem, named⟩
      · rintro ⟨y, mem, rfl⟩
        rcases List.mem_append.mp mem with old | new
        · exact ⟨y, old, rfl⟩
        · rw [List.mem_singleton.mp new]
          exact ih.mp there
    · rw [add_of_not_mem there]
      simp [ih, eq_comm, or_and_right, exists_or]

/-- Observers come in the order of their first registrations. -/
theorem observers_ordered {R : Nat × Registration → Nat × Registration → Prop}
    (ordered : list.Pairwise R) : ((gather list).members.map Prod.fst).Pairwise fun a b =>
      ∃ x y, FirstIn list x ∧ FirstIn list y ∧ x.2.observer = a ∧ y.2.observer = b ∧ R x y := by
  induction list using List.reverseRecOn with
  | nil => exact List.Pairwise.nil
  | append_singleton list x ih =>
    obtain ⟨ordered, _, last⟩ := List.pairwise_append.mp ordered
    have kept : ((gather list).members.map Prod.fst).Pairwise fun a b => ∃ y z,
        FirstIn (list ++ [x]) y ∧ FirstIn (list ++ [x]) z ∧ y.2.observer = a ∧ z.2.observer = b ∧
          R y z :=
      (ih ordered).imp fun ⟨y, z, first, second, named⟩ =>
        ⟨y, z, firstIn_concat first x, firstIn_concat second x, named⟩
    rw [gather_concat]
    by_cases there : x.2.observer ∈ (gather list).members.map Prod.fst
    · rwa [observers_add_of_mem there]
    · rw [add_of_not_mem there, List.map_append]
      -- An observer that is new here has its first registration here, behind all others.
      refine List.pairwise_append.mpr ⟨kept, List.pairwise_singleton _ _, ?_⟩
      intro a mem b new
      obtain ⟨y, mem_y, rfl⟩ := mem_observers.mp mem
      obtain ⟨z, first, named⟩ := exists_firstIn mem_y
      rw [List.mem_singleton.mp new]
      refine ⟨z, x, firstIn_concat first x, ⟨list, [], rfl, ?_⟩, named, rfl,
        last z (firstIn_mem first) x (List.mem_singleton_self x)⟩
      intro w mem_w same
      exact there (mem_observers.mpr ⟨w, mem_w, same⟩)

/-- An observer hears of something if and only if one of its registrations asks for it. -/
theorem intersects_merged (mem : (o, options) ∈ (gather list).members) (p : Options) :
    options.intersects p ↔ ∃ x ∈ list, x.2.observer = o ∧ x.2.options.intersects p := by
  induction list using List.reverseRecOn generalizing options with
  | nil => cases mem
  | append_singleton list x ih =>
    rw [gather_concat] at mem
    have one_more : (∃ y ∈ list ++ [x], y.2.observer = o ∧ y.2.options.intersects p) ↔
        (∃ y ∈ list, y.2.observer = o ∧ y.2.options.intersects p) ∨
          x.2.observer = o ∧ x.2.options.intersects p := by
      simp [or_and_right, exists_or]
    rw [one_more]
    by_cases there : x.2.observer ∈ (gather list).members.map Prod.fst
    · rw [add_of_mem there] at mem
      obtain ⟨⟨o', old⟩, mem_old, is⟩ := List.mem_map.mp mem
      obtain ⟨rfl, rfl⟩ := Prod.mk.inj is
      rw [← ih mem_old]
      by_cases own : o' = x.2.observer
      · rw [if_pos own, Options.intersects_union, Bool.or_eq_true]
        simp [own]
      · rw [if_neg own]
        simp [Ne.symm own]
    · rw [add_of_not_mem there] at mem
      rcases List.mem_append.mp mem with old | new
      · have other : x.2.observer ≠ o := by
          rintro rfl
          exact there (List.mem_map.mpr ⟨_, old, rfl⟩)
        rw [ih old]
        simp [other]
      · obtain ⟨rfl, rfl⟩ := Prod.mk.inj (List.mem_singleton.mp new)
        have none_before : ¬ ∃ y ∈ list, y.2.observer = x.2.observer ∧ y.2.options.intersects p :=
          fun ⟨y, mem, named, _⟩ => there (mem_observers.mpr ⟨y, mem, named⟩)
        simp [none_before]

end Interests

end HostBridge.Mutation
