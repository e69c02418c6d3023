import HostBridge.Proofs.Keyed
import HostBridge.Registry
/-!
# Registries and their entries

Active entries have different keys and different serials, and a serial is used once: what has been
removed does not come back.
-/

namespace HostBridge

structure Registry.Sound {κ α : Type} (r : Registry κ α) : Prop where
  keys : (r.active.map Entry.key).Nodup
  serials : (r.active.map Entry.serial).Nodup
  numbered : ∀ e ∈ r.active, e.serial < r.accepted

namespace Registry

variable {κ α : Type}

structure Gone (r : Registry κ α) (e : Entry κ α) : Prop where
  accepted : e.serial < r.accepted
  inactive : e ∉ r.active

def Ordered (r : Registry κ α) : Prop := r.active.Pairwise fun d e => d.serial < e.serial

theorem sound_empty : (empty : Registry κ α).Sound :=
  ⟨List.nodup_nil, List.nodup_nil, fun _ mem => nomatch mem⟩

theorem Sound.of_sublist {r r' : Registry κ α} (sound : r.Sound) (fewer : r'.active.Sublist r.active)
    (accepted : r'.accepted = r.accepted) : r'.Sound := by
  constructor
  · exact sound.keys.sublist (fewer.map Entry.key)
  · exact sound.serials.sublist (fewer.map Entry.serial)
  · intro e mem
    rw [accepted]
    exact sound.numbered e (fewer.subset mem)

theorem Ordered.of_sublist {r r' : Registry κ α} (ordered : r.Ordered)
    (fewer : r'.active.Sublist r.active) : r'.Ordered :=
  ordered.sublist fewer

theorem Sound.eq_of_serial {r : Registry κ α} (sound : r.Sound) {e d : Entry κ α}
    (here : e ∈ r.active) (there : d ∈ r.active) (same : e.serial = d.serial) : e = d :=
  List.inj_on_of_nodup_map sound.serials here there same

variable [DecidableEq κ] {r : Registry κ α} {k : κ} {e : Entry κ α} {item : α}

theorem mem_of_entry (found : r.entry? k = some e) : e ∈ r.active :=
  List.mem_of_find?_eq_some found

theorem key_of_entry (found : r.entry? k = some e) : e.key = k := Keyed.key_of_find? found

theorem Sound.entry?_key (sound : r.Sound) (mem : e ∈ r.active) : r.entry? e.key = some e :=
  Keyed.find?_of_mem sound.keys mem

theorem contains_of_mem (mem : e ∈ r.active) : r.contains e.key = true :=
  List.any_eq_true.mpr ⟨e, mem, by simp⟩

theorem accept_active (free : r.contains k = false) :
    (r.accept k item).active = r.active ++ [⟨k, r.accepted, item⟩] := by
  rw [accept, if_neg (by simp [free])]

theorem accept_accepted (free : r.contains k = false) :
    (r.accept k item).accepted = r.accepted + 1 := by
  rw [accept, if_neg (by simp [free])]

theorem accept_of_contains (taken : r.contains k = true) : r.accept k item = r := by
  rw [accept, if_pos taken]

theorem mem_accept (mem : e ∈ (r.accept k item).active) :
    e ∈ r.active ∨ r.contains k = false ∧ e = ⟨k, r.accepted, item⟩ := by
  cases free : r.contains k with
  | true =>
    rw [accept_of_contains free] at mem
    exact Or.inl mem
  | false =>
    rw [accept_active free] at mem
    rcases List.mem_append.mp mem with old | new
    · exact Or.inl old
    · exact Or.inr ⟨rfl, List.mem_singleton.mp new⟩

theorem entry?_accept (free : r.contains k = false) (k' : κ) :
    Registry.entry? (r.accept k item) k' =
      if k' = k then some ⟨k, r.accepted, item⟩ else r.entry? k' := by
  unfold entry?
  rw [accept_active free, List.find?_append, List.find?_singleton]
  by_cases same : k' = k
  · subst same
    have absent := List.find?_eq_none.mpr (List.any_eq_false.mp free)
    rw [absent, if_pos rfl, if_pos (decide_eq_true rfl), Option.none_or]
  · rw [if_neg same, if_neg (by simpa using Ne.symm same), Option.or_none]

theorem entry?_accept_of_ne {k' : κ} (other : k' ≠ k) :
    Registry.entry? (r.accept k item) k' = r.entry? k' := by
  cases free : r.contains k with
  | true => rw [accept_of_contains free]
  | false => rw [entry?_accept free, if_neg other]

theorem Sound.accept (sound : r.Sound) : (r.accept k item).Sound := by
  cases free : r.contains k with
  | true => rwa [accept_of_contains free]
  | false =>
    have other : ∀ e ∈ r.active, e.key ≠ k := by
      intro e mem same
      rw [← same, contains_of_mem mem] at free
      exact nomatch free
    constructor
    · rw [accept_active free]
      exact Keyed.nodup_snoc sound.keys other
    · rw [accept_active free]
      exact Keyed.nodup_snoc sound.serials fun e mem => (Nat.ne_of_lt (sound.numbered e mem))
    · intro e mem
      rw [accept_accepted free]
      rcases mem_accept mem with old | ⟨_, rfl⟩
      · exact Nat.lt_succ_of_lt (sound.numbered e old)
      · exact Nat.lt_succ_self _

theorem remove_active : (r.remove k).active = r.active.eraseP (·.key = k) := by
  unfold remove
  split
  · rfl
  · rename_i absent
    refine (List.eraseP_of_forall_not ?_).symm
    intro e mem
    simpa using List.find?_eq_none.mp absent e mem

theorem mem_abandoned_remove (found : r.entry? k = some e) : e ∈ (r.remove k).abandoned := by
  rw [remove, found]
  exact List.mem_append_right _ List.mem_cons_self

theorem remove_accepted : (r.remove k).accepted = r.accepted := by
  unfold remove
  split <;> rfl

theorem remove_sublist : (r.remove k).active.Sublist r.active := by
  rw [remove_active]
  exact List.eraseP_sublist

theorem mem_of_mem_remove (mem : e ∈ (r.remove k).active) : e ∈ r.active := remove_sublist.subset mem

theorem mem_remove_of_ne (mem : e ∈ r.active) (other : e.key ≠ k) : e ∈ (r.remove k).active := by
  rw [remove_active]
  exact (List.mem_eraseP_of_neg (by simpa using other)).mpr mem

theorem Sound.remove (sound : r.Sound) : (r.remove k).Sound :=
  sound.of_sublist remove_sublist remove_accepted

theorem Sound.key_ne_of_mem_remove (sound : r.Sound) (mem : e ∈ (r.remove k).active) : e.key ≠ k := by
  rw [remove_active] at mem
  exact Keyed.key_ne_of_mem_eraseP sound.keys mem

theorem Sound.entry?_remove (sound : r.Sound) (k k' : κ) :
    Registry.entry? (r.remove k) k' = if k' = k then none else r.entry? k' := by
  unfold entry?
  rw [remove_active]
  exact Keyed.find?_eraseP sound.keys k k'

theorem Sound.apply (sound : r.Sound) (op : Op κ α) : (r.apply op).Sound := by
  cases op with
  | accept k item => exact sound.accept
  | remove k => exact sound.remove
  | abandonAll => exact sound.of_sublist (List.nil_sublist _) rfl
  | reclaim => exact sound.of_sublist (List.Sublist.refl _) rfl

theorem accepted_le_apply (r : Registry κ α) (op : Op κ α) : r.accepted ≤ (r.apply op).accepted := by
  cases op with
  | accept k item =>
    cases free : r.contains k with
    | true => exact Nat.le_of_eq (congrArg accepted (accept_of_contains free)).symm
    | false =>
      have grown : (r.accept k item).accepted = r.accepted + 1 := accept_accepted free
      exact Nat.le_of_lt (Nat.lt_of_lt_of_eq (Nat.lt_succ_self _) grown.symm)
  | remove k => exact Nat.le_of_eq remove_accepted.symm
  | abandonAll | reclaim => exact Nat.le_refl _

theorem mem_apply {op : Op κ α} (mem : e ∈ (r.apply op).active) :
    e ∈ r.active ∨ op = .accept e.key e.item ∧ r.contains e.key = false ∧
      e.serial = r.accepted ∧ (r.apply op).accepted = r.accepted + 1 := by
  cases op with
  | accept k item =>
    rcases mem_accept mem with old | ⟨free, rfl⟩
    · exact Or.inl old
    · exact Or.inr ⟨rfl, free, rfl, accept_accepted free⟩
  | remove k => exact Or.inl (mem_of_mem_remove mem)
  | abandonAll => exact nomatch mem
  | reclaim => exact Or.inl mem

theorem Gone.apply (gone : r.Gone e) (op : Op κ α) : (r.apply op).Gone e := by
  constructor
  · exact Nat.lt_of_lt_of_le gone.accepted (r.accepted_le_apply op)
  · intro mem
    rcases mem_apply mem with old | ⟨_, _, serial, _⟩
    · exact gone.inactive old
    · have lt := gone.accepted
      rw [serial] at lt
      exact absurd lt (Nat.lt_irrefl _)

theorem Ordered.accept (ordered : r.Ordered) (sound : r.Sound) : (r.accept k item).Ordered := by
  cases free : r.contains k with
  | true => rwa [accept_of_contains free]
  | false =>
    rw [Ordered, accept_active free, List.pairwise_append]
    refine ⟨ordered, List.pairwise_singleton _ _, ?_⟩
    intro d old e new
    rw [List.mem_singleton.mp new]
    exact sound.numbered d old

theorem Ordered.apply (ordered : r.Ordered) (sound : r.Sound) (op : Op κ α) :
    (r.apply op).Ordered := by
  cases op with
  | accept k item => exact ordered.accept sound
  | remove k => exact ordered.of_sublist remove_sublist
  | abandonAll => exact ordered.of_sublist (List.nil_sublist _)
  | reclaim => exact ordered.of_sublist (List.Sublist.refl _)

def Evolves (r : Nat → Registry κ α) : Prop :=
  ∀ n, r (n + 1) = r n ∨ ∃ op, r (n + 1) = (r n).apply op

namespace Evolves

variable {r : Nat → Registry κ α} {d e : Entry κ α} {m n : Nat}

theorem sound (evolves : Evolves r) (start : r 0 = {}) (n : Nat) : (r n).Sound := by
  induction n with
  | zero => exact start ▸ sound_empty
  | succ n ih =>
    rcases evolves n with same | ⟨op, same⟩
    · rwa [same]
    · rw [same]
      exact ih.apply op

theorem ordered (evolves : Evolves r) (start : r 0 = {}) (n : Nat) : (r n).Ordered := by
  induction n with
  | zero => exact start ▸ List.Pairwise.nil
  | succ n ih =>
    rcases evolves n with same | ⟨op, same⟩
    · rwa [same]
    · rw [same]
      exact ih.apply (evolves.sound start n) op

theorem accepted_mono (evolves : Evolves r) (le : m ≤ n) : (r m).accepted ≤ (r n).accepted := by
  induction le with
  | refl => exact Nat.le_refl _
  | @step n _ ih =>
    rcases evolves n with same | ⟨op, same⟩
    · rwa [same]
    · rw [same]
      exact Nat.le_trans ih (accepted_le_apply _ op)

theorem gone_mono (evolves : Evolves r) (gone : (r m).Gone e) (le : m ≤ n) : (r n).Gone e := by
  induction le with
  | refl => exact gone
  | @step n _ ih =>
    rcases evolves n with same | ⟨op, same⟩
    · rwa [same]
    · rw [same]
      exact ih.apply op

/-- In a whole history an active entry is known by its serial. -/
theorem eq_of_serial (evolves : Evolves r) (start : r 0 = {}) (here : e ∈ (r m).active)
    (there : d ∈ (r n).active) (same : d.serial = e.serial) : d = e := by
  have later : ∀ {m n d e}, m ≤ n → e ∈ (r m).active → d ∈ (r n).active → d.serial = e.serial →
      d = e := by
    intro m n d e le here there same
    induction le with
    | refl => exact (evolves.sound start m).eq_of_serial there here same
    | @step n le ih =>
      rcases evolves n with kept | ⟨op, done⟩
      · exact ih (kept ▸ there)
      · rw [done] at there
        rcases mem_apply there with old | ⟨_, _, new, _⟩
        · exact ih old
        · have numbered := (evolves.sound start m).numbered e here
          have grown := evolves.accepted_mono le
          omega
  rcases Nat.le_total m n with le | le
  · exact later le here there same
  · exact (later le there here same.symm).symm

end Evolves

end Registry

end HostBridge
