import HostBridge.Mutation.Group
import HostBridge.Proofs.Mutation.Gathering
import HostBridge.Proofs.Mutation.Histories
/-!
# Who is interested in a mutation

The group of a mutation, told by the histories of the registrations of the target and of its
ancestors, the nearest first: it has the observers of the registrations that match, in the order of
the first of these from the target upwards, each with what they ask for together.
-/

namespace HostBridge.Mutation

open Registrations (Op)

/-- A registration on the `i`th node of a chain lets its observer hear of a mutation of the first. -/
structure Hears (chain : List (List Op)) (kind : Kind) (name : String) (i : Nat)
    (r : Registration) : Prop where
  stands : ∃ history, chain[i]? = some history ∧ Stands history r
  type : r.options.contains kind.option
  reach : i ≠ 0 → r.options.contains .subtree
  listed : kind = .attributes → r.options.contains .attributeFilter → name ∈ r.filter

structure FirstHeard (chain : List (List Op)) (kind : Kind) (name : String) (o i p : Nat) :
    Prop where
  matching : ∃ r, Hears chain kind name i r ∧ r.observer = o
  none_nearer : ∀ j < i, ∀ r, Hears chain kind name j r → r.observer ≠ o
  enrolled : ∃ history, chain[i]? = some history ∧ EnrolledAt history o p

structure Group.Interested (g : Group) (chain : List (List Op)) (kind : Kind) (name : String) :
    Prop where
  members : ∀ o, (∃ options, (o, options) ∈ g.members.members) ↔
    ∃ i r, Hears chain kind name i r ∧ r.observer = o
  ordered : g.members.members.Pairwise fun a b => ∃ i p j q, FirstHeard chain kind name a.1 i p ∧
    FirstHeard chain kind name b.1 j q ∧ (i < j ∨ i = j ∧ p < q)
  merged : ∀ o options, (o, options) ∈ g.members.members → ∀ p : Options, options.intersects p ↔
    ∃ i r, Hears chain kind name i r ∧ r.observer = o ∧ r.options.intersects p
  oldValue : ∀ o options, (o, options) ∈ g.members.members → ∀ flag,
    kind = .attributes ∧ flag = .attributeOldValue ∨
      kind = .characterData ∧ flag = .characterDataOldValue →
    (g.wantsOldValue options ↔
      ∃ i r, Hears chain kind name i r ∧ r.observer = o ∧ r.options.contains flag)

def heard (chain : List Registrations) (kind : Kind) (attributeName : Option String) :
    List (Nat × Registration) :=
  chain.zipIdx.flatMap fun (rs, i) =>
    (rs.list.filter (·.receives (i == 0) kind attributeName)).map (i, ·)

theorem collect_eq (rs : Registrations) (m : Interests) (kind : Kind) (attributeName : Option String)
    (i : Nat) : rs.collect m kind attributeName (i == 0) =
      ((rs.list.filter (·.receives (i == 0) kind attributeName)).map (i, ·)).foldl
        (fun m x => m.add x.2.observer x.2.options) m := by
  rw [List.foldl_map, Registrations.collect]

theorem interests_eq (chain : List Registrations) (kind : Kind) (attributeName : Option String) :
    interests chain kind attributeName = .gather (heard chain kind attributeName) := by
  cases chain with
  | nil => rfl
  | cons target ancestors =>
    have upwards : ∀ (i : Nat) (m : Interests),
        ancestors.foldl (fun m rs => rs.collect m kind attributeName false) m =
          ((ancestors.zipIdx (i + 1)).flatMap fun (rs, i) =>
            (rs.list.filter (·.receives (i == 0) kind attributeName)).map (i, ·)).foldl
              (fun m x => m.add x.2.observer x.2.options) m := by
      induction ancestors with
      | nil => exact fun _ _ => rfl
      | cons rs ancestors ih =>
        intro i m
        rw [List.foldl_cons, ih (i + 1), List.zipIdx_cons, List.flatMap_cons, List.foldl_append,
          ← collect_eq rs m kind attributeName (i + 1)]
        rfl
    rw [interests, Interests.gather, heard, List.zipIdx_cons, List.flatMap_cons, List.foldl_append,
      ← collect_eq target {} kind attributeName 0, upwards 0]
    rfl

variable {chain : List (List Op)} {kind : Kind} {name : String} {i : Nat} {r : Registration}

def nameFor (kind : Kind) (name : String) : Option String :=
  if kind == .attributes then some name else none

theorem receives_iff : r.receives (i == 0) kind (nameFor kind name) ↔
    r.options.contains kind.option ∧ (i ≠ 0 → r.options.contains .subtree) ∧
      (kind = .attributes → r.options.contains .attributeFilter → name ∈ r.filter) := by
  unfold Registration.receives nameFor
  cases kind <;> simp <;> grind

theorem mem_heard : (i, r) ∈ heard (chain.map built) kind (nameFor kind name) ↔
    Hears chain kind name i r := by
  unfold heard
  simp only [List.mem_flatMap, List.mem_map, List.mem_filter, Prod.exists, Prod.mk.injEq,
    List.mem_zipIdx_iff_getElem?, List.getElem?_map, Option.map_eq_some_iff]
  constructor
  · rintro ⟨_, _, ⟨history, at_i, rfl⟩, _, ⟨mem, receives⟩, rfl, rfl⟩
    obtain ⟨type, reach, listed⟩ := receives_iff.mp receives
    exact ⟨⟨history, at_i, mem_built.mp mem⟩, type, reach, listed⟩
  · rintro ⟨⟨history, at_i, stands⟩, type, reach, listed⟩
    exact ⟨built history, i, ⟨history, at_i, rfl⟩, r,
      ⟨mem_built.mpr stands, receives_iff.mpr ⟨type, reach, listed⟩⟩, rfl, rfl⟩

def Precedes (chain : List (List Op)) (x y : Nat × Registration) : Prop :=
  x.1 < y.1 ∨ x.1 = y.1 ∧ ∃ history p q, chain[x.1]? = some history ∧ p < q ∧
    EnrolledAt history x.2.observer p ∧ EnrolledAt history y.2.observer q

theorem heard_ordered (chain : List (List Op)) (kind : Kind) (attributeName : Option String) :
    (heard (chain.map built) kind attributeName).Pairwise (Precedes chain) := by
  refine List.pairwise_flatMap.mpr ⟨?_, ?_⟩
  · rintro ⟨rs, i⟩ mem
    rw [List.mem_zipIdx_iff_getElem?, List.getElem?_map, Option.map_eq_some_iff] at mem
    obtain ⟨history, at_i, rfl⟩ := mem
    refine List.pairwise_map.mpr (((built_ordered history).filter _).imp ?_)
    rintro a b ⟨p, q, lt, first, second⟩
    exact Or.inr ⟨rfl, history, p, q, at_i, lt, first, second⟩
  · have upwards : (chain.map built).zipIdx.Pairwise fun x y => x.2 < y.2 := by
      refine List.pairwise_map.mp ?_
      rw [List.zipIdx_map_snd]
      exact List.pairwise_lt_range'
    refine upwards.imp ?_
    rintro ⟨rs, i⟩ ⟨rs', j⟩ lt x mem_x y mem_y
    obtain ⟨_, _, rfl⟩ := List.mem_map.mp mem_x
    obtain ⟨_, _, rfl⟩ := List.mem_map.mp mem_y
    exact Or.inl lt

/-- The first registration of an observer in the list is where the observer is heard of first. -/
theorem firstHeard_of_firstIn {x : Nat × Registration}
    (first : Interests.FirstIn (heard (chain.map built) kind (nameFor kind name)) x)
    {history : List Op} (at_x : chain[x.1]? = some history) {p : Nat}
    (enrolled : EnrolledAt history x.2.observer p) :
    FirstHeard chain kind name x.2.observer x.1 p := by
  refine ⟨⟨x.2, mem_heard.mp (Interests.firstIn_mem first), rfl⟩, ?_, ⟨history, at_x, enrolled⟩⟩
  intro j nearer r hears
  have mem := mem_heard.mpr hears
  have ordered := heard_ordered chain kind (nameFor kind name)
  obtain ⟨before, behind, is, other⟩ := first
  rw [is] at mem ordered
  rcases List.mem_append.mp mem with before_x | from_x
  · exact other _ before_x
  · rcases List.mem_cons.mp from_x with rfl | behind_x
    · exact absurd nearer (Nat.lt_irrefl _)
    · have not_nearer := (List.pairwise_cons.mp (List.pairwise_append.mp ordered).2.1).1 _ behind_x
      rcases not_nearer with lt | ⟨same, _⟩
      · exact absurd lt (Nat.lt_asymm nearer)
      · exact absurd same (Nat.ne_of_gt nearer)

theorem firstHeard_ordered {x y : Nat × Registration}
    (first_x : Interests.FirstIn (heard (chain.map built) kind (nameFor kind name)) x)
    (first_y : Interests.FirstIn (heard (chain.map built) kind (nameFor kind name)) y)
    (precedes : Precedes chain x y) :
    ∃ i p j q, FirstHeard chain kind name x.2.observer i p ∧
      FirstHeard chain kind name y.2.observer j q ∧ (i < j ∨ i = j ∧ p < q) := by
  obtain ⟨h, at_x, stands_x⟩ := (mem_heard.mp (Interests.firstIn_mem first_x)).stands
  obtain ⟨h', at_y, stands_y⟩ := (mem_heard.mp (Interests.firstIn_mem first_y)).stands
  rcases precedes with nearer | ⟨same, history, p, q, at_same, lt, enrolled_x, enrolled_y⟩
  · obtain ⟨p, enrolled_x⟩ := exists_enrolledAt (mem_built.mpr stands_x)
    obtain ⟨q, enrolled_y⟩ := exists_enrolledAt (mem_built.mpr stands_y)
    exact ⟨x.1, p, y.1, q, firstHeard_of_firstIn first_x at_x enrolled_x,
      firstHeard_of_firstIn first_y at_y enrolled_y, Or.inl nearer⟩
  · exact ⟨x.1, p, y.1, q, firstHeard_of_firstIn first_x at_same enrolled_x,
      firstHeard_of_firstIn first_y (same ▸ at_same) enrolled_y, Or.inr ⟨same, lt⟩⟩

theorem forMutation_eq (chain : List Registrations) (kind : Kind) (name : String) :
    Group.forMutation chain kind name =
      if (interests chain kind (nameFor kind name)).isEmpty then none
      else some ⟨interests chain kind (nameFor kind name), Group.oldValueFlagOf kind⟩ := by
  cases kind <;> rfl

theorem mem_members_iff {o : Nat} :
    o ∈ (Interests.gather (heard (chain.map built) kind (nameFor kind name))).members.map Prod.fst ↔
      ∃ i r, Hears chain kind name i r ∧ r.observer = o := by
  rw [Interests.mem_observers]
  simp only [Prod.exists, mem_heard]

theorem gathered_interested (chain : List (List Op)) (kind : Kind) (name : String) :
    Group.Interested ⟨.gather (heard (chain.map built) kind (nameFor kind name)),
      Group.oldValueFlagOf kind⟩ chain kind name := by
  have merged : ∀ o options,
      (o, options) ∈ (Interests.gather (heard (chain.map built) kind (nameFor kind name))).members →
      ∀ p : Options, options.intersects p ↔
        ∃ i r, Hears chain kind name i r ∧ r.observer = o ∧ r.options.intersects p := by
    intro o options mem p
    rw [Interests.intersects_merged mem p]
    simp only [Prod.exists, mem_heard]
  constructor
  · intro o
    rw [← mem_members_iff]
    simp
  · have ordered := Interests.observers_ordered (heard_ordered chain kind (nameFor kind name))
    refine (List.pairwise_map.mp ordered).imp ?_
    rintro ⟨a, _⟩ ⟨b, _⟩ ⟨x, y, first_x, first_y, rfl, rfl, precedes⟩
    exact firstHeard_ordered first_x first_y precedes
  · exact merged
  · intro o options mem flag is
    have asked : Group.oldValueFlagOf kind = flag ∧ ∃ k, flag.bits.toNat = 2 ^ k := by
      rcases is with ⟨rfl, rfl⟩ | ⟨rfl, rfl⟩
      · exact ⟨rfl, 4, rfl⟩
      · exact ⟨rfl, 5, rfl⟩
    obtain ⟨rfl, k, single⟩ := asked
    rw [Group.wantsOldValue, merged o options mem]
    simp only [Options.contains_eq_intersects _ _ single]

/-- A mutation has a group if and only if a registration of the chain matches; the members of the
group are then the observers of those that match, each once, in their order and with their options. -/
theorem forMutation_interested (chain : List (List Op)) (kind : Kind) (name : String) :
    (Group.forMutation (chain.map built) kind name = none ↔ ∀ i r, ¬ Hears chain kind name i r) ∧
      ∀ g, Group.forMutation (chain.map built) kind name = some g → g.Interested chain kind name := by
  rw [forMutation_eq, interests_eq]
  constructor
  · have nobody : (Interests.gather (heard (chain.map built) kind (nameFor kind name))).isEmpty ↔
        ∀ i r, ¬ Hears chain kind name i r := by
      rw [Interests.isEmpty, List.isEmpty_iff, ← List.map_eq_nil_iff, List.eq_nil_iff_forall_not_mem]
      constructor
      · intro absent i r hears
        exact absent r.observer (mem_members_iff.mpr ⟨i, r, hears, rfl⟩)
      · intro silent o mem
        obtain ⟨i, r, hears, _⟩ := mem_members_iff.mp mem
        exact silent i r hears
    rw [← nobody]
    simp
  · intro g is
    split at is
    · cases is
    · rw [← Option.some.inj is]
      exact gathered_interested chain kind name

end HostBridge.Mutation
