import Mathlib.Data.List.Nodup
/-!
# Lists with keys

Look-ups by a key in a list whose members all have different ones.
-/

namespace HostBridge.Keyed

variable {α κ : Type*} {key : α → κ} {list : List α} {a b : α}

theorem ne_of_fresh (fresh : key a ∉ list.map key) (mem : b ∈ list) : key b ≠ key a :=
  fun same => fresh (same ▸ List.mem_map_of_mem mem)

theorem nodup_snoc (distinct : (list.map key).Nodup) (other : ∀ b ∈ list, key b ≠ key a) :
    ((list ++ [a]).map key).Nodup := by
  rw [List.map_append]
  refine List.nodup_append.mpr ⟨distinct, List.nodup_singleton _, ?_⟩
  intro k old k' new same
  obtain ⟨b, mem, rfl⟩ := List.mem_map.mp old
  exact other b mem (same.trans (List.mem_singleton.mp new))

section

variable {f : α → Option α} (keeps : ∀ a b, f a = some b → key b = key a)
include keeps

theorem map_filterMap (list : List α) :
    (list.filterMap f).map key = (list.filter fun a => (f a).isSome).map key := by
  induction list with
  | nil => rfl
  | cons a list ih =>
    cases kept : f a with
    | some b =>
      rw [List.filterMap_cons_some kept, List.filter_cons_of_pos (by simp [kept]), List.map_cons,
        List.map_cons, keeps a b kept, ih]
    | none => rw [List.filterMap_cons_none kept, List.filter_cons_of_neg (by simp [kept]), ih]

theorem nodup_filterMap (distinct : (list.map key).Nodup) : ((list.filterMap f).map key).Nodup := by
  rw [map_filterMap keeps]
  exact distinct.sublist (List.filter_sublist.map key)

end

variable [DecidableEq κ] {k : κ}

theorem key_of_find? (found : list.find? (key · = k) = some a) : key a = k := by
  simpa using List.find?_some found

theorem find?_of_mem (distinct : (list.map key).Nodup) (mem : a ∈ list) :
    list.find? (key · = key a) = some a := by
  cases found : list.find? (key · = key a) with
  | none =>
    have absent := List.find?_eq_none.mp found a mem
    simp at absent
  | some b =>
    have same : b = a :=
      List.inj_on_of_nodup_map distinct (List.mem_of_find?_eq_some found) mem (key_of_find? found)
    rw [same]

theorem perm_of_find? (found : list.find? (key · = k) = some a) :
    list.Perm (a :: list.eraseP (key · = k)) := by
  obtain ⟨here, before, behind, rfl, others⟩ := List.find?_eq_some_iff_append.mp found
  have kept : ∀ b ∈ before, ¬ decide (key b = k) = true := fun b mem => by simpa using others b mem
  rw [List.eraseP_append_right _ kept, List.eraseP_cons, here]
  exact List.perm_middle

theorem find?_perm {list' : List α} (perm : list.Perm list') (distinct : (list.map key).Nodup)
    (k : κ) : list.find? (key · = k) = list'.find? (key · = k) := by
  cases found : list'.find? (key · = k) with
  | none =>
    refine List.find?_eq_none.mpr fun a mem => ?_
    exact List.find?_eq_none.mp found a (perm.mem_iff.mp mem)
  | some a =>
    rw [← key_of_find? found]
    exact find?_of_mem distinct (perm.mem_iff.mpr (List.mem_of_find?_eq_some found))

theorem filter_eq (distinct : (list.map key).Nodup) (k : κ) :
    list.filter (key · = k) = (list.find? (key · = k)).toList := by
  induction list with
  | nil => rfl
  | cons a list ih =>
    obtain ⟨fresh, distinct⟩ := List.nodup_cons.mp distinct
    by_cases here : key a = k
    · have none_left : list.filter (key · = k) = [] := by
        refine List.filter_eq_nil_iff.mpr fun b mem => ?_
        simpa [here] using ne_of_fresh fresh mem
      rw [List.filter_cons_of_pos (by simpa using here), none_left,
        List.find?_cons_of_pos (by simpa using here)]
      rfl
    · rw [List.filter_cons_of_neg (by simpa using here),
        List.find?_cons_of_neg (by simpa using here), ih distinct]

theorem find?_filter_ne (list : List α) (k' k : κ) :
    (list.filter (key · ≠ k')).find? (key · = k) =
      if k = k' then none else list.find? (key · = k) := by
  rw [List.find?_filter]
  split
  · rename_i same
    refine List.find?_eq_none.mpr fun a _ => ?_
    simp [same]
  · rename_i other
    refine congrArg (fun p => List.find? p list) (funext fun a => ?_)
    by_cases named : key a = k
    · simp [named, other]
    · simp [named]

theorem eraseP_eq (distinct : (list.map key).Nodup) (k : κ) :
    list.eraseP (key · = k) = list.filter (key · ≠ k) := by
  induction list with
  | nil => rfl
  | cons a list ih =>
    obtain ⟨fresh, distinct⟩ := List.nodup_cons.mp distinct
    by_cases here : key a = k
    · have others : list.filter (key · ≠ k) = list := by
        refine List.filter_eq_self.mpr fun b mem => ?_
        simpa [here] using ne_of_fresh fresh mem
      rw [List.eraseP_cons_of_pos (by simpa using here), List.filter_cons_of_neg (by simpa using here),
        others]
    · rw [List.eraseP_cons_of_neg (by simpa using here), List.filter_cons_of_pos (by simpa using here),
        ih distinct]

theorem key_ne_of_mem_eraseP (distinct : (list.map key).Nodup) (mem : a ∈ list.eraseP (key · = k)) :
    key a ≠ k := by
  rw [eraseP_eq distinct] at mem
  simpa using List.of_mem_filter mem

theorem find?_eraseP (distinct : (list.map key).Nodup) (k' k : κ) :
    (list.eraseP (key · = k')).find? (key · = k) =
      if k = k' then none else list.find? (key · = k) := by
  rw [eraseP_eq distinct, find?_filter_ne]

theorem find?_filterMap (distinct : (list.map key).Nodup) {f : α → Option α}
    (keeps : ∀ a b, f a = some b → key b = key a) (k : κ) :
    (list.filterMap f).find? (key · = k) = (list.find? (key · = k)).bind f := by
  induction list with
  | nil => rfl
  | cons a list ih =>
    obtain ⟨fresh, distinct⟩ := List.nodup_cons.mp distinct
    have rest := ih distinct
    by_cases here : key a = k
    · rw [List.find?_cons_of_pos (by simpa using here), Option.bind_some]
      cases kept : f a with
      | some b =>
        have named : key b = k := (keeps a b kept).trans here
        rw [List.filterMap_cons_some kept, List.find?_cons_of_pos (by simpa using named)]
      | none =>
        -- Whoever had the key is gone, and no one behind has it.
        have absent : list.find? (key · = k) = none := by
          refine List.find?_eq_none.mpr fun b mem => ?_
          simpa [here] using ne_of_fresh fresh mem
        rw [List.filterMap_cons_none kept, rest, absent, Option.bind_none]
    · rw [List.find?_cons_of_neg (by simpa using here), ← rest]
      cases kept : f a with
      | some b =>
        have named : key b ≠ k := fun named => here ((keeps a b kept).symm.trans named)
        rw [List.filterMap_cons_some kept, List.find?_cons_of_neg (by simpa using named)]
      | none => rw [List.filterMap_cons_none kept]

theorem find?_filter (distinct : (list.map key).Nodup) (p : α → Bool) (k : κ) :
    (list.filter p).find? (key · = k) = (list.find? (key · = k)).filter p := by
  have kept := find?_filterMap distinct (f := Option.guard p)
    (fun a b stays => congrArg key (Option.guard_eq_some_iff.mp stays).1.symm) k
  rw [List.filterMap_eq_filter] at kept
  rw [kept]
  cases list.find? (key · = k) <;> rfl

end HostBridge.Keyed
