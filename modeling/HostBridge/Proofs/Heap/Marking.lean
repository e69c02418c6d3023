import HostBridge.Proofs.Heap.Slots
/-!
# What marking finds

`Reachable` is the relation that marking computes: what the roots report, and what live reachable
objects refer to. `TriColour` holds before and after every step of the worklist; the slot whose
references are being visited is gray but off the list, and named by `scanning`. When the list is
empty, the black slots are those of the reachable objects.
-/

namespace HostBridge

open Slot

variable {Obj : Type}

namespace Marking

theorem visit_cases (m : Marking) (x : Handle) :
    ((∀ n, numberAt m.slots x = some n → markAt m.slots x.index.toNat ≠ some .white) ∧
      m.visit x = m) ∨
    ∃ n, ∃ inside : x.index.toNat < m.slots.size, numberAt m.slots x = some n ∧
      markAt m.slots x.index.toNat = some .white ∧
      m.visit x =
        { m with
          slots := m.slots.set x.index.toNat (m.slots[x.index.toNat].withMark .gray)
          work := x :: m.work } := by
  unfold visit
  by_cases inside : x.index.toNat < m.slots.size
  · simp only [inside, dite_true]
    have slot : m.slots[x.index.toNat]? = some m.slots[x.index.toNat] :=
      Array.getElem?_eq_getElem inside
    by_cases guard : (m.slots[x.index.toNat].names x && m.slots[x.index.toNat].isWhite) = true
    · right
      simp only [Bool.and_eq_true, names, occupied, isWhite, beq_iff_eq] at guard
      obtain ⟨⟨occupied, generation⟩, white⟩ := guard
      obtain ⟨n, occupant⟩ := Option.isSome_iff_exists.mp occupied
      refine ⟨n, trivial, ?_, ?_, ?_⟩
      · rw [numberAt_eq_some]
        simp [generationAt, occupantAt, inside, generation, occupant]
      · simp [markAt, inside, white]
      · rw [if_pos]
        simp [names, Slot.occupied, isWhite, occupant, generation, white]
    · left
      refine ⟨?_, if_neg guard⟩
      intro n named white
      rw [numberAt_eq_some] at named
      simp only [generationAt, occupantAt, slot, Option.map_some, Option.bind_some,
        Option.some.injEq] at named
      simp only [markAt, slot, Option.map_some, Option.some.injEq] at white
      apply guard
      simp [names, occupied, isWhite, named.1, named.2, white]
  · left
    refine ⟨?_, by simp [inside]⟩
    intro n named
    exact absurd (lt_size_of_occupantAt (numberAt_eq_some.mp named).2) inside

def SameObjects (h : Heap Obj) (m : Marking) : Prop :=
  ∀ i, occupantAt m.slots i = occupantAt h.slots i ∧ generationAt m.slots i = generationAt h.slots i

theorem SameObjects.number? {h : Heap Obj} {m : Marking} (same : SameObjects h m) (x : Handle) :
    numberAt m.slots x = h.number? x := by
  rw [Heap.number?_eq_numberAt, numberAt, numberAt, (same _).1, (same _).2]

theorem SameObjects.exists_mark {h : Heap Obj} {m : Marking} (same : SameObjects h m) {x : Handle}
    (alive : h.alive x = true) : ∃ c, markAt m.slots x.index.toNat = some c := by
  obtain ⟨n, number⟩ := Heap.alive_iff.mp alive
  rw [← same.number?] at number
  obtain ⟨s, slot, _⟩ := Option.map_eq_some_iff.mp (numberAt_eq_some.mp number).1
  exact ⟨s.header.mark, by rw [markAt, slot, Option.map_some]⟩

theorem visit_same {h : Heap Obj} {m : Marking} (same : SameObjects h m) (x : Handle) :
    SameObjects h (m.visit x) := by
  rcases visit_cases m x with ⟨_, eq⟩ | ⟨n, inside, named, white, eq⟩
  · rwa [eq]
  · rw [eq]
    intro i
    rw [occupantAt_set, generationAt_set]
    constructor
    · split
      · rename_i here
        rw [← (same i).1, ← here]
        simp [occupantAt, inside, withMark]
      · exact (same i).1
    · split
      · rename_i here
        rw [← (same i).2, ← here]
        simp [generationAt, inside, withMark, Header.withMark]
      · exact (same i).2

theorem visit_not_white {m : Marking} {i : Nat} (marked : markAt m.slots i ≠ some .white)
    (x : Handle) : markAt (m.visit x).slots i ≠ some .white := by
  rcases visit_cases m x with ⟨_, eq⟩ | ⟨n, inside, named, white, eq⟩
  · rwa [eq]
  · rw [eq, markAt_set]
    split
    · simp [withMark, Header.withMark]
    · exact marked

theorem foldl_visit_not_white {i : Nat} (xs : List Handle) {m : Marking}
    (marked : markAt m.slots i ≠ some .white) :
    markAt (xs.foldl visit m).slots i ≠ some .white := by
  induction xs generalizing m with
  | nil => exact marked
  | cons x xs ih => exact ih (visit_not_white marked x)

theorem visited_not_white {h : Heap Obj} {m : Marking} (same : SameObjects h m) {x : Handle}
    (alive : h.alive x = true) : markAt (m.visit x).slots x.index.toNat ≠ some .white := by
  obtain ⟨n, number⟩ := Heap.alive_iff.mp alive
  rcases visit_cases m x with ⟨marked, eq⟩ | ⟨n, inside, named, white, eq⟩
  · rw [eq]
    exact marked n (by rw [same.number?, number])
  · rw [eq, markAt_set, if_pos rfl]
    simp [withMark, Header.withMark]

theorem step_not_white {refs : Nat → List Handle} {m : Marking} {i : Nat}
    (marked : markAt m.slots i ≠ some .white) : markAt (m.step refs).slots i ≠ some .white := by
  unfold step
  split
  · exact marked
  · rename_i x rest work
    rw [markAt_modify_mark]
    split
    · cases markAt _ i <;> simp
    · exact foldl_visit_not_white (m := { m with work := rest }) _ marked

theorem foldl_visited_not_white {h : Heap Obj} {x : Handle} (xs : List Handle) {m : Marking}
    (same : SameObjects h m) (member : x ∈ xs) (alive : h.alive x = true) :
    markAt (xs.foldl visit m).slots x.index.toNat ≠ some .white := by
  induction xs generalizing m with
  | nil => exact absurd member (by simp)
  | cons y ys ih =>
    rcases List.mem_cons.mp member with rfl | later
    · exact foldl_visit_not_white ys (visited_not_white same alive)
    · exact ih (visit_same same y) later

end Marking

theorem Heap.eq_of_alive {h : Heap Obj} {x y : Handle} (alive : h.alive x = true)
    (living : h.alive y = true) (here : x.index.toNat = y.index.toNat) : y = x := by
  obtain ⟨n, named⟩ := Heap.alive_iff.mp alive
  obtain ⟨k, number⟩ := Heap.alive_iff.mp living
  rw [number?_eq_numberAt] at named number
  exact eq_of_numberAt number named here.symm

variable [Traced Obj]

/-- Reported as a root, or by a live object that is itself reachable. -/
inductive Heap.Reachable (h : Heap Obj) (roots : List Handle) : Handle → Prop
  | root {x : Handle} (reported : x ∈ roots) : Reachable h roots x
  | reference {x y : Handle} {object : Obj} (reached : Reachable h roots x)
      (found : h.get? x = some object) (reported : y ∈ handles object) : Reachable h roots y

namespace Marking

structure TriColour (h : Heap Obj) (roots : List Handle) (scanning : Option Handle) (m : Marking) :
    Prop where
  same : SameObjects h m
  mem_work : ∀ x, x ∈ m.work ↔
    h.alive x = true ∧ markAt m.slots x.index.toNat = some .gray ∧ scanning ≠ some x
  nodup_work : m.work.Nodup
  scanned : ∀ x, scanning = some x → markAt m.slots x.index.toNat = some .gray
  grounded : ∀ i c, markAt m.slots i = some c → c ≠ .white →
    ∃ x : Handle, x.index.toNat = i ∧ h.alive x = true ∧ h.Reachable roots x
  closed : ∀ x y object, h.get? x = some object → markAt m.slots x.index.toNat = some .black →
    y ∈ handles object → h.alive y = true → markAt m.slots y.index.toNat ≠ some .white
  counted : m.marked = m.slots.countP isBlack

theorem TriColour.reachable {h : Heap Obj} {roots : List Handle} {scanning : Option Handle}
    {m : Marking} (inv : TriColour h roots scanning m) {x : Handle} (alive : h.alive x = true)
    {c : Mark} (colour : markAt m.slots x.index.toNat = some c) (marked : c ≠ .white) :
    h.Reachable roots x := by
  obtain ⟨y, here, living, reached⟩ := inv.grounded _ c colour marked
  exact Heap.eq_of_alive living alive here ▸ reached

theorem visit_triColour {h : Heap Obj} {roots : List Handle} {scanning : Option Handle}
    {m : Marking} (inv : TriColour h roots scanning m) {x : Handle} (reached : h.Reachable roots x) :
    TriColour h roots scanning (m.visit x) := by
  rcases visit_cases m x with ⟨_, eq⟩ | ⟨n, inside, named, white, eq⟩
  · rwa [eq]
  have alive : h.alive x = true := Heap.alive_iff.mpr ⟨n, by rw [← inv.same.number?, named]⟩
  refine ⟨visit_same inv.same x, ?_, ?_, ?_, ?_, ?_, ?_⟩
  · intro y
    rw [eq, markAt_set, List.mem_cons, inv.mem_work]
    by_cases here : x.index.toNat = y.index.toNat
    · rw [if_pos here]
      constructor
      · intro listed
        rcases listed with rfl | ⟨_, gray, _⟩
        · refine ⟨alive, rfl, fun scanned => ?_⟩
          rw [inv.scanned _ scanned] at white
          exact absurd white (by simp)
        · rw [← here, white] at gray
          exact absurd gray (by simp)
      · intro listed
        exact Or.inl (Heap.eq_of_alive alive listed.1 here)
    · rw [if_neg here]
      constructor
      · intro is
        rcases is with rfl | listed
        · exact absurd rfl here
        · exact listed
      · exact Or.inr
  · rw [eq]
    refine List.nodup_cons.mpr ⟨fun listed => ?_, inv.nodup_work⟩
    have gray := ((inv.mem_work x).mp listed).2.1
    rw [white] at gray
    exact absurd gray (by simp)
  · intro y scanned
    rw [eq, markAt_set]
    split
    · rfl
    · exact inv.scanned y scanned
  · intro i c mark marked
    rw [eq, markAt_set] at mark
    split at mark
    · rename_i here
      exact ⟨x, here, alive, reached⟩
    · exact inv.grounded i c mark marked
  · intro y z object found black reported living
    have before : markAt m.slots y.index.toNat = some .black := by
      rw [eq, markAt_set] at black
      split at black
      · exact absurd black (by simp [withMark, Header.withMark])
      · exact black
    exact visit_not_white (inv.closed y z object found before reported living) x
  · have colour : m.slots[x.index.toNat].header.mark = .white := by
      simpa [markAt, inside] using white
    rw [eq]
    simp only [Array.countP_set, isBlack, withMark, Header.withMark, colour]
    simpa [isBlack] using inv.counted

theorem foldl_visit_triColour {h : Heap Obj} {roots : List Handle} {scanning : Option Handle}
    (xs : List Handle) {m : Marking} (inv : TriColour h roots scanning m)
    (reached : ∀ x ∈ xs, h.Reachable roots x) :
    TriColour h roots scanning (xs.foldl visit m) := by
  induction xs generalizing m with
  | nil => exact inv
  | cons x xs ih =>
    exact ih (visit_triColour inv (reached x (by simp))) fun y member => reached y (by simp [member])

/-- Taking a handle off the worklist for its references to be visited. -/
theorem pop_triColour {h : Heap Obj} {roots : List Handle} {m : Marking}
    (inv : TriColour h roots none m) {x : Handle} {rest : List Handle} (work : m.work = x :: rest) :
    TriColour h roots (some x) { m with work := rest } := by
  have distinct := inv.nodup_work
  rw [work, List.nodup_cons] at distinct
  have listed := fun y => inv.mem_work y
  simp only [work, List.mem_cons] at listed
  refine ⟨inv.same, ?_, distinct.2, ?_, inv.grounded, inv.closed, inv.counted⟩
  · intro y
    constructor
    · intro member
      obtain ⟨alive, gray, _⟩ := (listed y).mp (Or.inr member)
      refine ⟨alive, gray, ?_⟩
      intro same
      cases same
      exact distinct.1 member
    · intro gray_other
      rcases gray_other with ⟨alive, gray, other⟩
      rcases (listed y).mpr ⟨alive, gray, by simp⟩ with rfl | member
      · exact absurd rfl other
      · exact member
  · intro y same
    cases same
    exact ((listed x).mp (Or.inl rfl)).2.1

/-- A gray slot whose references have been visited turns black. -/
theorem blacken_triColour {h : Heap Obj} {roots : List Handle} {m : Marking} {x : Handle}
    (inv : TriColour h roots (some x) m) (alive : h.alive x = true)
    (visited : ∀ object, h.get? x = some object → ∀ y ∈ handles object, h.alive y = true →
      markAt m.slots y.index.toNat ≠ some .white) :
    TriColour h roots none
      { m with
        slots := m.slots.modify x.index.toNat (·.withMark .black), marked := m.marked + 1 } := by
  have gray := inv.scanned x rfl
  have blackened : ∀ i, markAt (m.slots.modify x.index.toNat (·.withMark .black)) i =
      if x.index.toNat = i then some .black else markAt m.slots i := by
    intro i
    rw [markAt_modify_mark]
    split
    · rename_i here
      rw [← here, gray, Option.map_some]
    · rfl
  have not_whitened : ∀ i, markAt m.slots i ≠ some .white →
      markAt (m.slots.modify x.index.toNat (·.withMark .black)) i ≠ some .white := by
    intro i marked
    rw [blackened]
    split
    · simp
    · exact marked
  refine ⟨?_, ?_, inv.nodup_work, ?_, ?_, ?_, ?_⟩
  · intro i
    rw [occupantAt_modify_mark, generationAt_modify_mark]
    exact inv.same i
  · intro y
    rw [inv.mem_work, blackened]
    constructor
    · intro gray_other
      rcases gray_other with ⟨living, colour, other⟩
      refine ⟨living, ?_, by simp⟩
      rw [if_neg]
      · exact colour
      · exact fun here => other (congrArg some (Heap.eq_of_alive alive living here).symm)
    · intro still_gray
      rcases still_gray with ⟨living, colour, _⟩
      by_cases here : x.index.toNat = y.index.toNat
      · rw [if_pos here] at colour
        exact absurd colour (by simp)
      · rw [if_neg here] at colour
        refine ⟨living, colour, ?_⟩
        intro same
        cases same
        exact here rfl
  · intro y scanning
    exact absurd scanning (by simp)
  · intro i c mark marked
    rw [blackened] at mark
    split at mark
    · rename_i here
      exact inv.grounded i .gray (here ▸ gray) (by simp)
    · exact inv.grounded i c mark marked
  · intro y z object found black reported living
    apply not_whitened
    rw [blackened] at black
    split at black
    · rename_i here
      have same : y = x := Heap.eq_of_alive alive (Heap.alive_of_get? found) here
      exact visited object (same ▸ found) z reported living
    · exact inv.closed y z object found black reported living
  · obtain ⟨s, slot, colour⟩ := Option.map_eq_some_iff.mp gray
    obtain ⟨inside, rfl⟩ := Array.getElem?_eq_some_iff.mp slot
    have not_black : isBlack m.slots[x.index.toNat] = false := by simp [isBlack, colour]
    rw [modify_eq_set inside, Array.countP_set inside, not_black, inv.counted]
    rfl

theorem TriColour.next {h : Heap Obj} {roots : List Handle} {m : Marking}
    (inv : TriColour h roots none m) {x : Handle} {rest : List Handle} (work : m.work = x :: rest) :
    ∃ n, h.number? x = some n ∧ occupantAt m.slots x.index.toNat = some n ∧
      ∀ y ∈ h.references n, h.Reachable roots y := by
  obtain ⟨alive, gray, _⟩ := (inv.mem_work x).mp (work ▸ List.mem_cons_self)
  obtain ⟨n, number⟩ := Heap.alive_iff.mp alive
  refine ⟨n, number, ?_, ?_⟩
  · rw [← inv.same.number?] at number
    exact (numberAt_eq_some.mp number).2
  · intro y reported
    have self : h.Reachable roots x := inv.reachable alive gray (by simp)
    rw [Heap.references] at reported
    cases content : h.object? n with
    | none =>
      rw [content] at reported
      exact absurd reported (by simp)
    | some object =>
      rw [content] at reported
      exact .reference self (by rw [Heap.get?, number, Option.bind_some, content]) reported

theorem step_triColour {h : Heap Obj} {roots : List Handle} {m : Marking}
    (inv : TriColour h roots none m) : TriColour h roots none (m.step h.references) := by
  unfold step
  split
  · exact inv
  rename_i x rest work
  obtain ⟨alive, _⟩ := (inv.mem_work x).mp (work ▸ List.mem_cons_self)
  obtain ⟨n, number, occupant, reached⟩ := inv.next work
  rw [occupantAt] at occupant
  rw [occupant]
  simp only [Option.map_some, Option.getD_some]
  have popped := pop_triColour inv work
  refine blacken_triColour (foldl_visit_triColour (h.references n) popped reached) alive ?_
  intro object found y reported living
  rw [Heap.get?, number, Option.bind_some] at found
  have listed : y ∈ h.references n := by
    rw [Heap.references, found]
    exact reported
  exact foldl_visited_not_white (h.references n) popped.same listed living

theorem run_invariant {refs : Nat → List Handle} {P : Marking → Prop}
    (kept : ∀ m, P m → P (m.step refs)) (m : Marking) (start : P m) : P (m.run refs) := by
  fun_induction run refs m with
  | case1 => exact start
  | case2 m x rest work ih => exact ih (kept m start)

theorem run_work (refs : Nat → List Handle) (m : Marking) : (m.run refs).work = [] := by
  fun_induction run refs m with
  | case1 m work => exact work
  | case2 m x rest work ih => exact ih

theorem start_white {slots : Array Slot} {i : Nat} {c : Mark}
    (colour : markAt (start slots).slots i = some c) : c = .white := by
  simp only [start, markAt, Array.getElem?_map, Option.map_map] at colour
  obtain ⟨s, _, white⟩ := Option.map_eq_some_iff.mp colour
  exact white.symm

theorem start_triColour (h : Heap Obj) (roots : List Handle) :
    TriColour h roots none (start h.slots) := by
  refine ⟨?_, ?_, List.nodup_nil, ?_, ?_, ?_, ?_⟩
  · intro i
    simp only [start, occupantAt, generationAt, Array.getElem?_map]
    cases h.slots[i]? with
    | none => exact ⟨rfl, rfl⟩
    | some s => exact ⟨rfl, rfl⟩
  · intro x
    constructor
    · intro listed
      exact absurd listed (by simp [start])
    · intro found
      rcases found with ⟨_, gray, _⟩
      exact absurd (start_white gray) (by simp)
  · intro x scanning
    exact absurd scanning (by simp)
  · intro i c mark marked
    exact absurd (start_white mark) marked
  · intro x y object _ black
    exact absurd (start_white black) (by simp)
  · have none_black : ∀ s ∈ (start h.slots).slots, ¬ isBlack s = true := by
      intro s member
      obtain ⟨t, _, rfl⟩ := Array.mem_map.mp member
      simp [isBlack, withMark, Header.withMark]
    exact (Array.countP_eq_zero.mpr none_black).symm

end Marking

namespace Heap

open Marking

variable (h : Heap Obj) (roots : List Handle)

theorem rooted_triColour : TriColour h roots none (h.rooted roots) :=
  foldl_visit_triColour roots (start_triColour h roots) fun _ reported => .root reported

theorem mark_triColour : TriColour h roots none (h.mark roots) :=
  run_invariant (P := TriColour h roots none) (fun _ => step_triColour) _ (rooted_triColour h roots)

theorem mark_not_gray (i : Nat) : markAt (h.mark roots).slots i ≠ some .gray := by
  intro gray
  obtain ⟨x, here, alive, _⟩ := (mark_triColour h roots).grounded i .gray gray (by simp)
  have listed := ((mark_triColour h roots).mem_work x).mpr ⟨alive, here ▸ gray, by simp⟩
  rw [mark, run_work] at listed
  exact absurd listed (by simp)

theorem mark_black_of_not_white {x : Handle} (alive : h.alive x = true)
    (marked : markAt (h.mark roots).slots x.index.toNat ≠ some .white) :
    markAt (h.mark roots).slots x.index.toNat = some .black := by
  obtain ⟨c, colour⟩ := (mark_triColour h roots).same.exists_mark alive
  cases c with
  | white => exact absurd colour marked
  | gray => exact absurd colour (mark_not_gray h roots _)
  | black => exact colour

theorem mark_reachable_not_white {x : Handle} (reached : h.Reachable roots x)
    (alive : h.alive x = true) : markAt (h.mark roots).slots x.index.toNat ≠ some .white := by
  induction reached with
  | root reported =>
    refine run_invariant (P := fun m => markAt m.slots _ ≠ some .white)
      (fun _ => step_not_white) _ ?_
    exact foldl_visited_not_white roots (start_triColour h roots).same reported alive
  | @reference x y object _ found reported ih =>
    have living : h.alive x = true := alive_of_get? found
    have black := mark_black_of_not_white h roots living (ih living)
    exact (mark_triColour h roots).closed x y object found black reported alive

theorem mark_black_iff {x : Handle} (alive : h.alive x = true) :
    markAt (h.mark roots).slots x.index.toNat = some .black ↔ h.Reachable roots x := by
  constructor
  · intro black
    exact (mark_triColour h roots).reachable alive black (by simp)
  · intro reached
    exact mark_black_of_not_white h roots alive (mark_reachable_not_white h roots reached alive)

/-- After marking, the white slots of live objects are those of unreachable ones. -/
theorem mark_white_iff {x : Handle} (alive : h.alive x = true) :
    markAt (h.mark roots).slots x.index.toNat = some .white ↔ ¬ h.Reachable roots x := by
  constructor
  · intro white reached
    exact mark_reachable_not_white h roots reached alive white
  · intro unreached
    refine Decidable.byContradiction fun marked => unreached ?_
    exact (mark_black_iff h roots alive).mp (mark_black_of_not_white h roots alive marked)

end Heap

end HostBridge
