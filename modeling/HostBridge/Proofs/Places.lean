import HostBridge.Proofs.Registry
import Mathlib.Data.List.Perm.Basic
import Mathlib.Data.List.Range
/-!
# Where accepted entries are

Every entry that a registry has accepted is active, or abandoned, or reclaimed, and moves on in this
order. Which of the three it is can be told from the operations since its acceptance alone, and
however often a key is used again no entry is lost or held twice: what was accepted is what is active,
what is abandoned and what all reclaims have counted.
-/

namespace HostBridge.Registry

inductive Place
  | active
  | abandoned
  | reclaimed
  deriving DecidableEq

open List

variable {κ α : Type} [DecidableEq κ]

namespace Place

def rank : Place → Nat
  | active => 0
  | abandoned => 1
  | reclaimed => 2

def next (k : κ) : Place → Op κ α → Place
  | active, .remove k' => if k' = k then abandoned else active
  | active, .abandonAll => abandoned
  | abandoned, .reclaim => reclaimed
  | p, _ => p

/-- Where an entry of the key is after the operations since its acceptance. -/
def after (k : κ) (since : List (Op κ α)) : Place := since.foldl (next k) active

theorem rank_next (k : κ) (p : Place) (op : Op κ α) : p.rank ≤ (p.next k op).rank := by
  cases p <;> cases op <;> simp [next, rank]

theorem rank_foldl (k : κ) (p : Place) (ops : List (Op κ α)) :
    p.rank ≤ (ops.foldl (next k) p).rank := by
  induction ops generalizing p with
  | nil => exact Nat.le_refl _
  | cons op ops ih => exact Nat.le_trans (rank_next k p op) (ih (p.next k op))

/-- No operation moves an entry back. -/
theorem rank_after (k : κ) (since more : List (Op κ α)) :
    (after k since).rank ≤ (after k (since ++ more)).rank := by
  rw [after, after, List.foldl_append]
  exact rank_foldl k _ more

end Place

/-! ## Runs -/

/-- The registry after the operations. -/
def after (r : Registry κ α) (ops : List (Op κ α)) : Registry κ α := ops.foldl apply r

def held (r : Registry κ α) : List (Entry κ α) := r.active ++ r.abandoned

def admitted (r : Registry κ α) : Op κ α → List (Entry κ α)
  | .accept k item => if r.contains k then [] else [⟨k, r.accepted, item⟩]
  | _ => []

def released (r : Registry κ α) : Op κ α → List (Entry κ α)
  | .reclaim => r.abandoned
  | _ => []

def reclaimCount (r : Registry κ α) : Op κ α → Nat
  | .reclaim => r.abandoned.length
  | _ => 0

def reclaimTotal (r : Registry κ α) : List (Op κ α) → Nat
  | [] => 0
  | op :: ops => r.reclaimCount op + reclaimTotal (r.apply op) ops

section

variable {β : Type} (f : Registry κ α → Op κ α → List β)

def yields (r : Registry κ α) : List (Op κ α) → List β
  | [] => []
  | op :: ops => f r op ++ yields (r.apply op) ops

theorem yields_append (r : Registry κ α) (earlier later : List (Op κ α)) :
    yields f r (earlier ++ later) = yields f r earlier ++ yields f (r.after earlier) later := by
  induction earlier generalizing r with
  | nil => rfl
  | cons op earlier ih =>
    rw [List.cons_append, yields, ih, yields, List.append_assoc]
    rfl

end

variable {r : Registry κ α} {d e : Entry κ α} {op : Op κ α} {ops : List (Op κ α)}
  {gone : List (Entry κ α)} {p q : Place}

theorem after_append (r : Registry κ α) (earlier later : List (Op κ α)) :
    r.after (earlier ++ later) = (r.after earlier).after later := List.foldl_append

theorem Sound.after (sound : r.Sound) (ops : List (Op κ α)) : (r.after ops).Sound := by
  induction ops generalizing r with
  | nil => exact sound
  | cons op ops ih => exact ih (sound.apply op)

theorem length_released (r : Registry κ α) (ops : List (Op κ α)) :
    (yields released r ops).length = r.reclaimTotal ops := by
  induction ops generalizing r with
  | nil => rfl
  | cons op ops ih =>
    rw [yields, List.length_append, ih, reclaimTotal]
    cases op <;> rfl

/-! ## No entry is lost -/

theorem held_remove (r : Registry κ α) (k : κ) : (r.remove k).held ~ r.held := by
  cases found : r.entry? k with
  | none => rw [remove, found]
  | some e =>
    have moved : r.active ~ e :: r.active.eraseP (·.key = k) := Keyed.perm_of_find? found
    rw [remove, found]
    calc r.active.eraseP (·.key = k) ++ (r.abandoned ++ [e])
      _ ~ r.active.eraseP (·.key = k) ++ e :: r.abandoned :=
        (perm_append_singleton e r.abandoned).append_left _
      _ ~ e :: r.active.eraseP (·.key = k) ++ r.abandoned := perm_middle
      _ ~ r.active ++ r.abandoned := moved.symm.append_right _

theorem held_apply (r : Registry κ α) (op : Op κ α) :
    (r.apply op).held ++ r.released op ~ r.held ++ r.admitted op := by
  cases op with
  | accept k item =>
    cases free : r.contains k with
    | true =>
      have kept : r.apply (.accept k item) = r := accept_of_contains free
      rw [kept, admitted, if_pos free]
      exact Perm.refl _
    | false =>
      have grown : (r.apply (.accept k item)).held =
          r.active ++ [⟨k, r.accepted, item⟩] ++ r.abandoned := by
        simp [held, apply, accept, free]
      have one : r.admitted (.accept k item) = [⟨k, r.accepted, item⟩] := if_neg (by simp [free])
      have none : r.released (.accept k item) = [] := rfl
      rw [grown, one, none, append_nil, held, append_assoc, append_assoc]
      exact perm_append_comm.append_left _
  | remove k => exact (held_remove r k).append_right []
  | abandonAll =>
    have same : (r.apply (.abandonAll)).held = r.abandoned ++ r.active := rfl
    rw [same]
    exact perm_append_comm.append_right []
  | reclaim =>
    have same : (r.apply (.reclaim)).held = r.active := append_nil _
    have none : r.admitted .reclaim = [] := rfl
    rw [same, none, append_nil]
    exact Perm.refl _

/-- What is held at first and what is accepted is held in the end, or let go. -/
theorem held_after (r : Registry κ α) (ops : List (Op κ α)) :
    (r.after ops).held ++ yields released r ops ~ r.held ++ yields admitted r ops := by
  induction ops generalizing r with
  | nil => exact Perm.refl _
  | cons op ops ih =>
    have first := held_apply r op
    have rest := ih (r.apply op)
    calc (r.after (op :: ops)).held ++ (r.released op ++ yields released (r.apply op) ops)
      _ ~ (r.after (op :: ops)).held ++ (yields released (r.apply op) ops ++ r.released op) :=
        perm_append_comm.append_left _
      _ = ((r.apply op).after ops).held ++ yields released (r.apply op) ops ++ r.released op :=
        (append_assoc ..).symm
      _ ~ (r.apply op).held ++ yields admitted (r.apply op) ops ++ r.released op :=
        rest.append_right _
      _ ~ (r.apply op).held ++ r.released op ++ yields admitted (r.apply op) ops := by
        rw [append_assoc, append_assoc]
        exact perm_append_comm.append_left _
      _ ~ r.held ++ r.admitted op ++ yields admitted (r.apply op) ops := first.append_right _
      _ = r.held ++ (r.admitted op ++ yields admitted (r.apply op) ops) := append_assoc ..

/-! ## Where an entry is -/

/-- The entry is in this place, `gone` having been let go. -/
def IsAt (r : Registry κ α) (gone : List (Entry κ α)) (e : Entry κ α) : Place → Prop
  | .active => e ∈ r.active
  | .abandoned => e ∈ r.abandoned
  | .reclaimed => e ∈ gone

theorem mem_active_accept (here : e ∈ r.active) (k : κ) (item : α) :
    e ∈ (r.accept k item).active := by
  cases free : r.contains k with
  | true => rwa [accept_of_contains free]
  | false =>
    rw [accept_active free]
    exact mem_append_left _ here

theorem abandoned_accept (r : Registry κ α) (k : κ) (item : α) :
    (r.accept k item).abandoned = r.abandoned := by
  unfold accept
  split <;> rfl

theorem mem_abandoned_mono (here : e ∈ r.abandoned) (k : κ) : e ∈ (r.remove k).abandoned := by
  unfold remove
  split
  · exact mem_append_left _ here
  · exact here

/-- One operation moves an entry as its place says. -/
theorem Sound.isAt_apply (sound : r.Sound) (here : r.IsAt gone e p) (op : Op κ α) :
    (r.apply op).IsAt (gone ++ r.released op) e (p.next e.key op) := by
  cases p with
  | active =>
    cases op with
    | accept k item => exact mem_active_accept here k item
    | remove k =>
      by_cases own : k = e.key
      · rw [Place.next, if_pos own, own]
        exact mem_abandoned_remove (sound.entry?_key here)
      · rw [Place.next, if_neg own]
        exact mem_remove_of_ne here (Ne.symm own)
    | abandonAll => exact mem_append_right _ here
    | reclaim => exact here
  | abandoned =>
    cases op with
    | accept k item =>
      show e ∈ (r.accept k item).abandoned
      rwa [abandoned_accept]
    | remove k => exact mem_abandoned_mono here k
    | abandonAll => exact mem_append_left _ here
    | reclaim => exact mem_append_right _ here
  | reclaimed => exact mem_append_left _ here

theorem Sound.isAt_after (sound : r.Sound) (here : r.IsAt gone e p) (ops : List (Op κ α)) :
    (r.after ops).IsAt (gone ++ yields released r ops) e (ops.foldl (Place.next e.key) p) := by
  induction ops generalizing r gone p with
  | nil =>
    rw [yields, append_nil]
    exact here
  | cons op ops ih =>
    rw [yields, ← append_assoc]
    exact ih (sound.apply op) (sound.isAt_apply here op)

/-! ## Acceptance -/

theorem mem_admitted : e ∈ r.admitted op ↔
    op = .accept e.key e.item ∧ r.contains e.key = false ∧ e.serial = r.accepted := by
  cases op with
  | accept k item =>
    cases free : r.contains k with
    | true =>
      rw [admitted, if_pos free]
      refine iff_of_false not_mem_nil ?_
      rintro ⟨same, taken, _⟩
      rw [(Op.accept.inj same).1, taken] at free
      exact Bool.false_ne_true free
    | false =>
      rw [admitted, if_neg (by simp [free]), mem_singleton]
      constructor
      · rintro rfl
        exact ⟨rfl, free, rfl⟩
      · rintro ⟨same, _, serial⟩
        obtain ⟨key, item⟩ := Op.accept.inj same
        rw [key, item, ← serial]
  | remove | abandonAll | reclaim => simp [admitted]

theorem accepted_apply (r : Registry κ α) (op : Op κ α) :
    (r.apply op).accepted = r.accepted + (r.admitted op).length := by
  cases op with
  | accept k item =>
    cases free : r.contains k with
    | true =>
      rw [apply, accept_of_contains free, admitted, if_pos free]
      rfl
    | false =>
      rw [apply, accept_accepted free, admitted, if_neg (by simp [free])]
      rfl
  | remove k => exact remove_accepted
  | abandonAll | reclaim => rfl

theorem mem_yields_admitted : e ∈ yields admitted r ops ↔
    ∃ earlier since, ops = earlier ++ .accept e.key e.item :: since ∧
      (r.after earlier).contains e.key = false ∧ e.serial = (r.after earlier).accepted := by
  constructor
  · intro mem
    induction ops generalizing r with
    | nil => cases mem
    | cons op ops ih =>
      rcases mem_append.mp mem with now | later
      · obtain ⟨rfl, accepts⟩ := mem_admitted.mp now
        exact ⟨[], ops, rfl, accepts⟩
      · obtain ⟨earlier, since, rfl, accepts⟩ := ih later
        exact ⟨op :: earlier, since, rfl, accepts⟩
  · rintro ⟨earlier, since, rfl, accepts⟩
    rw [yields_append, yields]
    exact mem_append_right _ (mem_append_left _ (mem_admitted.mpr ⟨rfl, accepts⟩))

theorem serial_admitted (r : Registry κ α) (op : Op κ α) :
    (r.admitted op).map Entry.serial = range' r.accepted (r.admitted op).length := by
  cases op with
  | accept k item =>
    rw [admitted]
    split <;> rfl
  | remove | abandonAll | reclaim => rfl

theorem serials_admitted (r : Registry κ α) (ops : List (Op κ α)) :
    (yields admitted r ops).map Entry.serial = range' r.accepted (yields admitted r ops).length := by
  induction ops generalizing r with
  | nil => rfl
  | cons op ops ih =>
    rw [yields, map_append, length_append, ih, accepted_apply, serial_admitted, range'_append_1]

theorem active_sublist (r : Registry κ α) (ops : List (Op κ α)) :
    (r.after ops).active <+ r.active ++ yields admitted r ops := by
  induction ops generalizing r with
  | nil => exact sublist_append_left _ _
  | cons op ops ih =>
    have one : (r.apply op).active <+ r.active ++ r.admitted op := by
      cases op with
      | accept k item =>
        cases free : r.contains k with
        | true =>
          rw [apply, accept_of_contains free]
          exact sublist_append_left _ _
        | false =>
          rw [apply, accept_active free, admitted, if_neg (by simp [free])]
      | remove k => exact remove_sublist.trans (sublist_append_left _ _)
      | abandonAll => exact nil_sublist _
      | reclaim => exact sublist_append_left _ _
    rw [yields, ← append_assoc]
    exact (ih (r.apply op)).trans (one.append_right _)

/-! ## Whole histories -/

def made (ops : List (Op κ α)) : Registry κ α := after {} ops

def acceptances (ops : List (Op κ α)) : List (Entry κ α) := yields admitted {} ops

def reclaimed (ops : List (Op κ α)) : List (Entry κ α) := yields released {} ops

structure Accepts (ops : List (Op κ α)) (e : Entry κ α) (earlier since : List (Op κ α)) : Prop where
  split : ops = earlier ++ .accept e.key e.item :: since
  free : (made earlier).contains e.key = false
  serial : e.serial = (made earlier).accepted

def Moved (ops : List (Op κ α)) (e : Entry κ α) (p : Place) : Prop :=
  ∃ earlier since, Accepts ops e earlier since ∧ Place.after e.key since = p

structure Accounts [Traced α] (ops : List (Op κ α)) : Prop where
  placed : (made ops).active ++ (made ops).abandoned ++ reclaimed ops ~ acceptances ops
  distinct : (acceptances ops).Nodup
  accepted : ∀ e, e ∈ acceptances ops ↔ ∃ earlier since, Accepts ops e earlier since
  moved : ∀ e p, (made ops).IsAt (reclaimed ops) e p ↔ Moved ops e p
  forward : ∀ k (since more : List (Op κ α)),
    (Place.after k since).rank ≤ (Place.after k (since ++ more)).rank
  lookup : ∀ k item, (made ops).get? k = some item ↔
    ∃ e, Moved ops e .active ∧ e.key = k ∧ e.item = item
  traced : handles (made ops) =
    (made ops).active.flatMap (handles ·.item) ++ (made ops).abandoned.flatMap (handles ·.item)
  snapshot : ∃ standing, standing <+ acceptances ops ∧ (∀ e, e ∈ standing ↔ Moved ops e .active) ∧
    (made ops).keys = standing.map Entry.key
  conserved : (acceptances ops).length =
    (made ops).active.length + (made ops).abandoned.length + reclaimTotal {} ops

variable {earlier since : List (Op κ α)}

theorem mem_acceptances : e ∈ acceptances ops ↔ ∃ earlier since, Accepts ops e earlier since := by
  refine mem_yields_admitted.trans (exists₂_congr fun earlier since => ?_)
  exact ⟨fun ⟨split, free, serial⟩ => ⟨split, free, serial⟩,
    fun ⟨split, free, serial⟩ => ⟨split, free, serial⟩⟩

theorem nodup_acceptances (ops : List (Op κ α)) : (acceptances ops).Nodup := by
  refine Nodup.of_map Entry.serial ?_
  rw [acceptances, serials_admitted]
  exact nodup_range'

/-- An accepted entry is where the operations since then have moved it. -/
theorem Accepts.isAt (accepts : Accepts ops e earlier since) :
    (made ops).IsAt (reclaimed ops) e (Place.after e.key since) := by
  obtain ⟨rfl, free, serial⟩ := accepts
  have sound : (made earlier).Sound := sound_empty.after earlier
  have here : ((made earlier).accept e.key e.item).IsAt (reclaimed earlier) e .active := by
    show e ∈ ((made earlier).accept e.key e.item).active
    rw [accept_active free, ← serial]
    exact mem_append_right _ mem_cons_self
  have later := sound.accept.isAt_after here since
  rw [made, after_append, reclaimed, yields_append]
  exact later

theorem held_made (ops : List (Op κ α)) :
    (made ops).active ++ (made ops).abandoned ++ reclaimed ops ~ acceptances ops :=
  held_after {} ops

theorem isAt_unique (here : (made ops).IsAt (reclaimed ops) e p)
    (there : (made ops).IsAt (reclaimed ops) e q) : p = q := by
  have once := (held_made ops).nodup_iff.mpr (nodup_acceptances ops)
  obtain ⟨held, _, let_go⟩ := nodup_append.mp once
  obtain ⟨_, _, apart⟩ := nodup_append.mp held
  have active_abandoned : e ∈ (made ops).active → e ∉ (made ops).abandoned :=
    fun here there => apart e here e there rfl
  have active_reclaimed : e ∈ (made ops).active → e ∉ reclaimed ops :=
    fun here there => let_go e (mem_append_left _ here) e there rfl
  have abandoned_reclaimed : e ∈ (made ops).abandoned → e ∉ reclaimed ops :=
    fun here there => let_go e (mem_append_right _ here) e there rfl
  cases p <;> cases q <;> simp_all [IsAt]

theorem isAt_iff_moved (ops : List (Op κ α)) (e : Entry κ α) (p : Place) :
    (made ops).IsAt (reclaimed ops) e p ↔ Moved ops e p := by
  constructor
  · intro here
    have mem : e ∈ (made ops).active ++ (made ops).abandoned ++ reclaimed ops := by
      cases p with
      | active => exact mem_append_left _ (mem_append_left _ here)
      | abandoned => exact mem_append_left _ (mem_append_right _ here)
      | reclaimed => exact mem_append_right _ here
    obtain ⟨earlier, since, accepts⟩ := mem_acceptances.mp ((held_made ops).mem_iff.mp mem)
    exact ⟨earlier, since, accepts, isAt_unique accepts.isAt here⟩
  · rintro ⟨earlier, since, accepts, rfl⟩
    exact accepts.isAt

theorem get?_eq_some_iff {k : κ} {item : α} (sound : r.Sound) :
    r.get? k = some item ↔ ∃ e ∈ r.active, e.key = k ∧ e.item = item := by
  rw [get?, Option.map_eq_some_iff]
  constructor
  · rintro ⟨e, found, same⟩
    exact ⟨e, mem_of_entry found, key_of_entry found, same⟩
  · rintro ⟨e, mem, rfl, same⟩
    exact ⟨e, sound.entry?_key mem, same⟩

/-- Every registry accounts for its entries, that of the timers and that of the frame requests. -/
theorem registry_accounts [Traced α] (ops : List (Op κ α)) : Accounts ops := by
  have active (e : Entry κ α) : e ∈ (made ops).active ↔ Moved ops e .active :=
    isAt_iff_moved ops e .active
  constructor
  · exact held_made ops
  · exact nodup_acceptances ops
  · exact fun e => mem_acceptances
  · exact isAt_iff_moved ops
  · exact Place.rank_after
  · intro k item
    refine (get?_eq_some_iff (sound_empty.after ops)).trans ?_
    exact exists_congr fun e => and_congr_left' (active e)
  · show ((made ops).items).flatMap handles = _
    rw [items, flatMap_map, flatMap_append]
  · exact ⟨(made ops).active, active_sublist {} ops, active, rfl⟩
  · rw [← (held_made ops).length_eq, length_append, length_append, reclaimed, length_released]

end HostBridge.Registry
