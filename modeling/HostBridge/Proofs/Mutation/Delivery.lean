import HostBridge.Mutation.Group
import HostBridge.Proofs.Mutation.Interest
/-!
# How a group delivers a record

Every member of a group gets one record, at the end of its queue: the record itself if it asks for old
values, and else one copy without the old value, which all such members share. So who does not ask
cannot tell two records apart that differ in their old values only.
-/

namespace HostBridge.Mutation

def Interests.added (additions : List (Nat × Options)) : Interests :=
  additions.foldl (fun m a => m.add a.1 a.2) {}

def Record.SameContents (r r' : Record) : Prop := { r with serial := r'.serial } = r'

def Record.DifferInOldValue (r r' : Record) : Prop :=
  { r with serial := r'.serial, oldValue := r'.oldValue } = r'

/-- The record and all that are queued are among the records counted. -/
def Observers.Count (o : Observers) (r : Record) : Prop :=
  r.serial < o.records ∧ ∀ x ∈ o.all, ∀ q ∈ x.pending, q.serial < o.records

namespace Group

def ofAdditions (additions : List (Nat × Options)) (oldValueFlag : Options) : Group :=
  ⟨.added additions, oldValueFlag⟩

def Asks (g : Group) (i : Nat) : Prop :=
  ∃ options, g.members.get? i = some options ∧ options.intersects g.oldValueFlag

def Elides (g : Group) (i : Nat) : Prop :=
  ∃ options, g.members.get? i = some options ∧ ¬ options.intersects g.oldValueFlag

structure Delivers (g : Group) (o : Observers) (r : Record) : Prop where
  asking : ∀ i, g.Asks i → (g.enqueue o r).get? i =
    (o.get? i).map fun x => { x with pending := x.pending ++ [r] }
  others : ∀ i, g.Elides i → (g.enqueue o r).get? i =
    (o.get? i).map fun x => { x with pending := x.pending ++ [r.withoutOldValue o.records] }
  strangers : ∀ i, g.members.get? i = none → (g.enqueue o r).get? i = o.get? i
  itself : r.oldValue = none → r.withoutOldValue o.records = r
  copy : r.oldValue ≠ none →
    r.withoutOldValue o.records = { r with serial := o.records, oldValue := none }
  new : r.oldValue ≠ none → o.Count r → (r.withoutOldValue o.records).serial ≠ r.serial ∧
    ∀ x ∈ o.all, ∀ q ∈ x.pending, q.serial ≠ (r.withoutOldValue o.records).serial
  made : r.oldValue ≠ none → (∃ i, g.Elides i) → (g.enqueue o r).records = o.records + 1
  saved : r.oldValue = none ∨ (∀ i, ¬ g.Elides i) → (g.enqueue o r).records = o.records
  counted : o.Count r → (g.enqueue o r).Count r

/-- The observer is given records of the same contents by two deliveries, whatever it has queued. -/
def GivesSame (g : Group) (o o' : Observers) (r r' : Record) (i : Nat) : Prop :=
  ∀ x x', o.get? i = some x → o'.get? i = some x' → ∃ q q', q.SameContents q' ∧
    (g.enqueue o r).get? i = some { x with pending := x.pending ++ [q] } ∧
    (g.enqueue o' r').get? i = some { x' with pending := x'.pending ++ [q'] }

end Group

namespace Interests

variable {m : Interests} {i : Nat} {options : Options}

theorem nodup_add (distinct : (m.members.map Prod.fst).Nodup) (i : Nat) (options : Options) :
    ((m.add i options).members.map Prod.fst).Nodup := by
  by_cases there : i ∈ m.members.map Prod.fst
  · rwa [observers_add_of_mem there]
  · rw [add_of_not_mem there, List.map_append]
    refine List.nodup_append.mpr ⟨distinct, List.pairwise_singleton _ _, ?_⟩
    rintro j mem _ last rfl
    obtain rfl : j = i := List.mem_singleton.mp last
    exact there mem

theorem nodup_added (additions : List (Nat × Options)) :
    ((added additions).members.map Prod.fst).Nodup := by
  induction additions using List.reverseRecOn with
  | nil => exact List.nodup_nil
  | append_singleton additions a ih =>
    rw [added, List.foldl_append]
    exact nodup_add ih a.1 a.2

theorem get?_eq_some_iff (distinct : (m.members.map Prod.fst).Nodup) :
    m.get? i = some options ↔ (i, options) ∈ m.members := by
  obtain ⟨members⟩ := m
  change members.lookup i = some options ↔ (i, options) ∈ members
  induction members with
  | nil => simp
  | cons x members ih =>
    obtain ⟨j, first⟩ := x
    obtain ⟨absent, distinct⟩ := List.nodup_cons.mp distinct
    rw [List.lookup_cons, List.mem_cons]
    by_cases own : i = j
    · subst own
      have only_first : (i, options) ∉ members := fun mem =>
        absent (List.mem_map.mpr ⟨_, mem, rfl⟩)
      simp [only_first, eq_comm]
    · simp [own, beq_false_of_ne own, ih distinct]

end Interests

namespace Observers

theorem get?_enqueue (o : Observers) (j : Nat) (r : Record) (i : Nat) :
    (o.enqueue j r).get? i = if j = i then (o.get? i).map (·.enqueue r) else o.get? i := by
  rw [get?, enqueue, update, List.getElem?_modify]
  split
  · rfl
  · exact Option.map_id'

/-- Of members that are distinct each gets at most one record. -/
theorem get?_foldl_enqueue (given : Options → Record) {members : List (Nat × Options)}
    (distinct : (members.map Prod.fst).Nodup) (o : Observers) (i : Nat) :
    (members.foldl (fun o m => o.enqueue m.1 (given m.2)) o).get? i =
      ((members.lookup i).elim (o.get? i) fun options =>
        (o.get? i).map (·.enqueue (given options))) := by
  induction members generalizing o with
  | nil => rfl
  | cons m members ih =>
    obtain ⟨j, options⟩ := m
    obtain ⟨absent, distinct⟩ := List.nodup_cons.mp distinct
    rw [List.foldl_cons, ih distinct, get?_enqueue, List.lookup_cons]
    by_cases own : i = j
    · subst own
      have only_first : members.lookup i = none := by
        rw [← Option.not_isSome_iff_eq_none, List.lookup_isSome_iff]
        simpa using absent
      simp [only_first]
    · rw [if_neg (Ne.symm own), beq_false_of_ne own]

theorem records_foldl_enqueue (given : Options → Record) (members : List (Nat × Options))
    (o : Observers) :
    (members.foldl (fun o m => o.enqueue m.1 (given m.2)) o).records = o.records := by
  induction members generalizing o with
  | nil => rfl
  | cons m members ih => exact ih _

end Observers

theorem Record.withoutOldValue_eq {r : Record} (present : r.oldValue ≠ none) (serial : Nat) :
    r.withoutOldValue serial = { r with serial, oldValue := none } := by
  rw [withoutOldValue, if_neg (by simpa using present)]

theorem Record.withoutOldValue_same {r r' : Record} (differ : r.DifferInOldValue r')
    (serial serial' : Nat) :
    (r.withoutOldValue serial).SameContents (r'.withoutOldValue serial') := by
  obtain ⟨_, _, _, _, old⟩ := r
  obtain ⟨_, _, _, _, old'⟩ := r'
  simp only [DifferInOldValue, Record.mk.injEq] at differ
  cases old <;> cases old' <;> simp_all [SameContents, withoutOldValue]

namespace Group

variable {g : Group} {o : Observers} {r : Record}

def given (g : Group) (o : Observers) (r : Record) (options : Options) : Record :=
  if g.wantsOldValue options then r else r.withoutOldValue o.records

theorem records_enqueue (g : Group) (o : Observers) (r : Record) :
    (g.enqueue o r).records = if g.needsCopy r then o.records + 1 else o.records := by
  refine (Observers.records_foldl_enqueue (g.given o r) _ _).trans ?_
  split <;> rfl

theorem exists_ofAdditions {chain : List Registrations} {kind : Kind} {flag : Options}
    {name : Option String} (created : create? chain kind flag name = .ok (some g)) :
    ∃ additions, g = ofAdditions additions flag := by
  simp only [create?, bne_iff_ne] at created
  split at created
  · cases created
  split at created
  · cases created
  obtain rfl : _ = g := Option.some.inj (Except.ok.inj created)
  refine ⟨(heard chain kind name).map fun x => (x.2.observer, x.2.options), ?_⟩
  rw [interests_eq, ofAdditions, Interests.added, List.foldl_map, Interests.gather]

theorem records_le_enqueue (g : Group) (o : Observers) (r : Record) :
    o.records ≤ (g.enqueue o r).records := by
  rw [records_enqueue]
  split <;> omega

section

variable (distinct : (g.members.members.map Prod.fst).Nodup)
include distinct

theorem needsCopy_iff : g.needsCopy r ↔ r.oldValue ≠ none ∧ ∃ i, g.Elides i := by
  simp only [needsCopy, Elides, wantsOldValue, Interests.get?_eq_some_iff distinct,
    Bool.and_eq_true, List.any_eq_true, Prod.exists, Option.isSome_iff_ne_none]
  simp

theorem get?_enqueue (o : Observers) (r : Record) (i : Nat) : (g.enqueue o r).get? i =
      ((g.members.get? i).elim (o.get? i) fun options =>
        (o.get? i).map (·.enqueue (g.given o r options))) := by
  have same : ∀ (b : Bool), (if b then { o with records := o.records + 1 } else o).get? i =
      o.get? i := by
    intro b
    cases b <;> rfl
  rw [← same (g.needsCopy r)]
  exact Observers.get?_foldl_enqueue (g.given o r) distinct _ i

theorem get?_enqueue_of_asks {i : Nat} (asks : g.Asks i) :
    (g.enqueue o r).get? i = (o.get? i).map (·.enqueue r) := by
  obtain ⟨options, member, wants⟩ := asks
  rw [get?_enqueue distinct, member, Option.elim_some, given, wantsOldValue, if_pos wants]

theorem get?_enqueue_of_elides {i : Nat} (elides : g.Elides i) :
    (g.enqueue o r).get? i = (o.get? i).map (·.enqueue (r.withoutOldValue o.records)) := by
  obtain ⟨options, member, does_not⟩ := elides
  rw [get?_enqueue distinct, member, Option.elim_some, given, wantsOldValue, if_neg does_not]

theorem given_counted (counted : r.serial < o.records) {i : Nat} {options : Options}
    (member : g.members.get? i = some options) :
    (g.given o r options).serial < (g.enqueue o r).records := by
  have grows := records_le_enqueue g o r
  by_cases wants : g.wantsOldValue options
  · rw [given, if_pos wants]
    exact counted.trans_le grows
  · rw [given, if_neg wants]
    by_cases present : r.oldValue = none
    · rw [Record.withoutOldValue, present]
      exact counted.trans_le grows
    · have needed : g.needsCopy r := (needsCopy_iff distinct).mpr ⟨present, i, options, member, wants⟩
      rw [Record.withoutOldValue_eq present, records_enqueue, if_pos needed]
      exact Nat.lt_succ_self _

theorem count_enqueue (count : o.Count r) : (g.enqueue o r).Count r := by
  have grows := records_le_enqueue g o r
  refine ⟨count.1.trans_le grows, ?_⟩
  intro x mem q queued
  obtain ⟨i, at_i⟩ := List.mem_iff_getElem?.mp mem
  have is : (g.enqueue o r).get? i = some x := at_i
  rw [get?_enqueue distinct] at is
  cases member : g.members.get? i with
  | none =>
    rw [member, Option.elim_none] at is
    exact (count.2 x (List.mem_of_getElem? is) q queued).trans_le grows
  | some options =>
    rw [member, Option.elim_some, Option.map_eq_some_iff] at is
    obtain ⟨y, before, rfl⟩ := is
    rcases List.mem_append.mp queued with old | new
    · exact (count.2 y (List.mem_of_getElem? before) q old).trans_le grows
    · rw [List.mem_singleton.mp new]
      exact given_counted distinct count.1 member

theorem delivers (o : Observers) (r : Record) : g.Delivers o r where
  asking _ := get?_enqueue_of_asks distinct
  others _ := get?_enqueue_of_elides distinct
  strangers i stranger := by rw [get?_enqueue distinct, stranger, Option.elim_none]
  itself absent := by rw [Record.withoutOldValue, absent]; rfl
  copy present := Record.withoutOldValue_eq present _
  new present count := by
    rw [Record.withoutOldValue_eq present]
    exact ⟨count.1.ne', fun x mem q queued => (count.2 x mem q queued).ne⟩
  made present elides := by
    rw [records_enqueue, if_pos ((needsCopy_iff distinct).mpr ⟨present, elides⟩)]
  saved unneeded := by
    rw [records_enqueue, if_neg]
    rw [needsCopy_iff distinct]
    rintro ⟨present, i, elides⟩
    exact unneeded.elim present fun all => all i elides
  counted := count_enqueue distinct

theorem givesSame_of_elides {o' : Observers} {r' : Record} (differ : r.DifferInOldValue r')
    {i : Nat} (elides : g.Elides i) : g.GivesSame o o' r r' i := by
  intro x x' at_i at_i'
  refine ⟨_, _, Record.withoutOldValue_same differ o.records o'.records, ?_, ?_⟩
  · exact (get?_enqueue_of_elides distinct elides).trans (congrArg (Option.map _) at_i)
  · exact (get?_enqueue_of_elides distinct elides).trans (congrArg (Option.map _) at_i')

theorem isOldValueRequested_iff : g.isOldValueRequested ↔ ∃ i, g.Asks i := by
  simp only [isOldValueRequested, Asks, wantsOldValue, Interests.get?_eq_some_iff distinct,
    List.any_eq_true, Prod.exists]

theorem elides_of_not_requested (not_requested : g.isOldValueRequested = false) {i : Nat}
    (member : (g.members.get? i).isSome) : g.Elides i := by
  obtain ⟨options, member⟩ := Option.isSome_iff_exists.mp member
  refine ⟨options, member, fun wants => ?_⟩
  have requested := (isOldValueRequested_iff distinct).mpr ⟨i, options, member, wants⟩
  exact Bool.false_ne_true (not_requested.symm.trans requested)

end

end Group

/-- A record comes to the end of the queue of every member, with its old value or without. Who does not
ask for old values cannot tell two records apart that differ in them only; nobody can if none is
requested. The groups of mutations are among such groups. -/
theorem enqueue_delivers (additions : List (Nat × Options)) (flag : Options) :
    (∀ o r, (Group.ofAdditions additions flag).Delivers o r) ∧
      (∀ o o' r r' i, r.DifferInOldValue r' → (Group.ofAdditions additions flag).Elides i →
        (Group.ofAdditions additions flag).GivesSame o o' r r' i) ∧
      ((Group.ofAdditions additions flag).isOldValueRequested = false → ∀ o o' r r' i,
        r.DifferInOldValue r' → ((Group.ofAdditions additions flag).members.get? i).isSome →
          (Group.ofAdditions additions flag).GivesSame o o' r r' i) ∧
      ∀ chain kind name g, Group.create? chain kind flag name = .ok (some g) →
        ∃ additions, g = Group.ofAdditions additions flag := by
  have distinct := Interests.nodup_added additions
  refine ⟨Group.delivers distinct, ?_, ?_, fun _ _ _ _ => Group.exists_ofAdditions⟩
  · intro _ _ _ _ _ differ elides
    exact Group.givesSame_of_elides distinct differ elides
  · intro not_requested _ _ _ _ _ differ member
    exact Group.givesSame_of_elides distinct differ
      (Group.elides_of_not_requested distinct not_requested member)

/-- Of three members the one that asks gets the record and the others share one copy. -/
example :
    let g := Group.ofAdditions [(0, .attributes), (2, .attributeOldValue), (1, .attributes)]
      .attributeOldValue
    let r := Record.attributes 0 ⟨0, 0⟩ "id" (some "a")
    (g.enqueue ⟨[⟨.null, []⟩, ⟨.null, []⟩, ⟨.null, []⟩], 1⟩ r).all.map Observer.pending =
      [[{ r with serial := 1, oldValue := none }], [{ r with serial := 1, oldValue := none }], [r]] := by
  decide

end HostBridge.Mutation
