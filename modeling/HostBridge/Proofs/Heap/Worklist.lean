import HostBridge.Proofs.Heap.Count
import Mathlib.Logic.Function.Iterate
/-!
# The worklist of a marking

The worklist grows and shrinks, so its length does not tell when it will be empty. What tells it is
the count of black slots. An iteration blackens the slot of the handle that it takes off the list and
no other, and in the end the black slots are those of the live reachable objects. So the handle of each
of these is taken once, whatever cycles there are and however often it is visited.
-/

namespace HostBridge

open Slot

variable {Obj : Type}

namespace Marking

variable {refs : Nat → List Handle} {m : Marking}

theorem visit_marked (m : Marking) (x : Handle) : (m.visit x).marked = m.marked := by
  rcases visit_cases m x with ⟨_, eq⟩ | ⟨_, _, _, _, eq⟩
  · rw [eq]
  · rw [eq]

theorem foldl_visit_marked (xs : List Handle) (m : Marking) :
    (xs.foldl visit m).marked = m.marked := by
  induction xs generalizing m with
  | nil => rfl
  | cons x xs ih => rw [List.foldl_cons, ih, visit_marked]

theorem step_marked {x : Handle} {rest : List Handle} (work : m.work = x :: rest) :
    (m.step refs).marked = m.marked + 1 := by
  simp only [step, work, foldl_visit_marked]

theorem iterate_marked (k : Nat) (going : ∀ j < k, ((step refs)^[j] m).work ≠ []) :
    ((step refs)^[k] m).marked = m.marked + k := by
  induction k with
  | zero => rfl
  | succ k ih =>
    obtain ⟨x, rest, work⟩ := List.exists_cons_of_ne_nil (going k (Nat.lt_succ_self k))
    rw [Function.iterate_succ_apply', step_marked work,
      ih fun j lt => going j (Nat.lt_succ_of_lt lt), Nat.add_assoc]

theorem visit_black_iff (m : Marking) (x : Handle) (i : Nat) :
    markAt (m.visit x).slots i = some .black ↔ markAt m.slots i = some .black := by
  rcases visit_cases m x with ⟨_, eq⟩ | ⟨_, inside, _, white, eq⟩
  · rw [eq]
  · rw [eq, markAt_set]
    split
    · rename_i here
      rw [← here, white]
      simp [withMark, Header.withMark]
    · exact Iff.rfl

theorem foldl_visit_black_iff (xs : List Handle) (m : Marking) (i : Nat) :
    markAt (xs.foldl visit m).slots i = some .black ↔ markAt m.slots i = some .black := by
  induction xs generalizing m with
  | nil => exact Iff.rfl
  | cons x xs ih => rw [List.foldl_cons, ih, visit_black_iff]

/-- The loop does as many steps as it finds the worklist filled. -/
theorem run_eq_iterate (refs : Nat → List Handle) (m : Marking) :
    ∃ n, m.run refs = (step refs)^[n] m ∧ ∀ k < n, ((step refs)^[k] m).work ≠ [] := by
  fun_induction run refs m with
  | case1 m work => exact ⟨0, rfl, fun k lt => absurd lt (Nat.not_lt_zero k)⟩
  | case2 m x rest work ih =>
    obtain ⟨n, same, going⟩ := ih
    refine ⟨n + 1, same, ?_⟩
    intro k lt
    cases k with
    | zero =>
      intro empty
      exact List.cons_ne_nil x rest (work.symm.trans empty)
    | succ k => exact going k (Nat.lt_of_succ_lt_succ lt)

def Visited (m : Marking) (i : Nat) : Prop :=
  markAt m.slots i = some .gray ∨ markAt m.slots i = some .black

theorem visited_of_not_white {i : Nat} {c : Mark} (colour : markAt m.slots i = some c)
    (marked : c ≠ .white) : m.Visited i := by
  cases c with
  | white => exact absurd rfl marked
  | gray => exact Or.inl colour
  | black => exact Or.inr colour

theorem Visited.exists_mark {i : Nat} (visited : m.Visited i) :
    ∃ c, markAt m.slots i = some c ∧ c ≠ .white := by
  rcases visited with gray | black
  · exact ⟨.gray, gray, by simp⟩
  · exact ⟨.black, black, by simp⟩

end Marking

namespace Heap

open Marking

theorem rooted_marked (h : Heap Obj) (roots : List Handle) : (h.rooted roots).marked = 0 :=
  foldl_visit_marked roots (.start h.slots)

variable [Traced Obj]

/-- What holds of a marking of `h` whenever the loop looks at its worklist. -/
structure BetweenIterations (h : Heap Obj) (roots : List Handle) (m : Marking) : Prop where
  same : SameObjects h m
  gray_iff : ∀ i, markAt m.slots i = some .gray ↔ ∃ x ∈ m.work, x.index.toNat = i
  once : (m.work.map fun x => x.index.toNat).Nodup
  alive : ∀ x ∈ m.work, h.alive x = true
  closed : ∀ x object, h.get? x = some object → markAt m.slots x.index.toNat = some .black →
    ∀ y ∈ handles object, h.alive y = true → m.Visited y.index.toNat
  reachable : ∀ i, m.Visited i → ∃ x ∈ h.liveReachable roots, x.index.toNat = i
  counted : m.marked = m.slots.countP isBlack

variable {h : Heap Obj} {roots : List Handle} {m : Marking}

theorem nodup_work_indices (inv : TriColour h roots none m) :
    (m.work.map fun x => x.index.toNat).Nodup := by
  refine inv.nodup_work.map_on ?_
  intro x listed y listed' here
  exact eq_of_alive ((inv.mem_work y).mp listed').1 ((inv.mem_work x).mp listed).1 here.symm

theorem between_of_triColour (inv : TriColour h roots none m) : h.BetweenIterations roots m := by
  refine ⟨inv.same, ?_, nodup_work_indices inv, ?_, ?_, ?_, inv.counted⟩
  · intro i
    constructor
    · intro gray
      obtain ⟨x, here, alive, _⟩ := inv.grounded i .gray gray (by simp)
      exact ⟨x, (inv.mem_work x).mpr ⟨alive, here ▸ gray, by simp⟩, here⟩
    · intro listed
      obtain ⟨x, member, rfl⟩ := listed
      exact ((inv.mem_work x).mp member).2.1
  · intro x member
    exact ((inv.mem_work x).mp member).1
  · intro x object found black y reported living
    obtain ⟨c, colour⟩ := inv.same.exists_mark living
    refine visited_of_not_white colour ?_
    intro white
    exact inv.closed x y object found black reported living (white ▸ colour)
  · intro i visited
    obtain ⟨c, colour, marked⟩ := visited.exists_mark
    obtain ⟨x, here, reached⟩ := inv.grounded i c colour marked
    exact ⟨x, reached, here⟩

/-- The slot of the object whose references are visited is gray and not listed, so that a reference
to itself changes nothing. -/
theorem scanning_triColour (inv : TriColour h roots none m) {x : Handle} {rest : List Handle}
    (work : m.work = x :: rest) :
    ∃ n, h.number? x = some n ∧ ∀ ys, ys <+: h.references n →
      TriColour h roots (some x) (ys.foldl visit { m with work := rest }) := by
  obtain ⟨n, number, _, reached⟩ := inv.next work
  refine ⟨n, number, ?_⟩
  intro ys first
  exact foldl_visit_triColour ys (pop_triColour inv work) fun y member =>
    reached y (first.subset member)

theorem step_black_iff (inv : TriColour h roots none m) {x : Handle} {rest : List Handle}
    (work : m.work = x :: rest) (i : Nat) :
    markAt (m.step h.references).slots i = some .black ↔
      x.index.toNat = i ∨ markAt m.slots i = some .black := by
  obtain ⟨n, _, occupant, reached⟩ := inv.next work
  have scanned := foldl_visit_triColour (h.references n) (pop_triColour inv work) reached
  rw [occupantAt] at occupant
  simp only [step, work, occupant, Option.map_some, Option.getD_some, markAt_modify_mark]
  by_cases here : x.index.toNat = i
  · rw [if_pos here, ← here, scanned.scanned x rfl]
    simp
  · rw [if_neg here, foldl_visit_black_iff]
    simp only [here, false_or]

def marking (h : Heap Obj) (roots : List Handle) (k : Nat) : Marking :=
  (Marking.step h.references)^[k] (h.rooted roots)

def taken? (h : Heap Obj) (roots : List Handle) (k : Nat) : Option Handle :=
  (h.marking roots k).work.head?

theorem marking_succ (h : Heap Obj) (roots : List Handle) (k : Nat) :
    h.marking roots (k + 1) = (h.marking roots k).step h.references :=
  Function.iterate_succ_apply' ..

theorem marking_triColour (h : Heap Obj) (roots : List Handle) (k : Nat) :
    TriColour h roots none (h.marking roots k) := by
  induction k with
  | zero => exact rooted_triColour h roots
  | succ k ih =>
    rw [marking_succ]
    exact step_triColour ih

theorem marking_black_iff {k : Nat} (going : ∀ j < k, (h.marking roots j).work ≠ []) (i : Nat) :
    markAt (h.marking roots k).slots i = some .black ↔
      ∃ j < k, ∃ x, h.taken? roots j = some x ∧ x.index.toNat = i := by
  induction k with
  | zero =>
    constructor
    · intro black
      have started := (foldl_visit_black_iff roots (.start h.slots) i).mp black
      exact absurd (start_white started) (by simp)
    · intro earlier
      obtain ⟨j, lt, _⟩ := earlier
      exact absurd lt (Nat.not_lt_zero j)
  | succ k ih =>
    obtain ⟨x, rest, work⟩ := List.exists_cons_of_ne_nil (going k (Nat.lt_succ_self k))
    -- Just the slot of the handle that is taken off turns black.
    have now : h.taken? roots k = some x := by rw [taken?, work, List.head?_cons]
    rw [marking_succ, step_black_iff (marking_triColour h roots k) work,
      ih fun j lt => going j (Nat.lt_succ_of_lt lt)]
    constructor
    · intro black
      rcases black with here | ⟨j, lt, earlier⟩
      · exact ⟨k, Nat.lt_succ_self k, x, now, here⟩
      · exact ⟨j, Nat.lt_succ_of_lt lt, earlier⟩
    · intro taken
      obtain ⟨j, lt, y, took, here⟩ := taken
      rcases Nat.lt_succ_iff_lt_or_eq.mp lt with lt | rfl
      · exact Or.inr ⟨j, lt, y, took, here⟩
      · rw [now] at took
        exact Or.inl (Option.some.inj took ▸ here)

theorem gray_of_taken {k : Nat} {x : Handle} (taken : h.taken? roots k = some x) :
    h.alive x = true ∧ markAt (h.marking roots k).slots x.index.toNat = some .gray := by
  obtain ⟨alive, gray, _⟩ := ((marking_triColour h roots k).mem_work x).mp
    (List.mem_of_mem_head? taken)
  exact ⟨alive, gray⟩

theorem taken_once {j k : Nat} (going : ∀ l < k, (h.marking roots l).work ≠ []) (lt : j < k)
    {x : Handle} (before : h.taken? roots j = some x) : h.taken? roots k ≠ some x := by
  intro again
  have black := (marking_black_iff going x.index.toNat).mpr ⟨j, lt, x, before, rfl⟩
  rw [(gray_of_taken again).2] at black
  exact absurd black (by simp)

theorem taken_iff {n : Nat} (result : h.mark roots = h.marking roots n)
    (going : ∀ k < n, (h.marking roots k).work ≠ []) (x : Handle) :
    x ∈ h.liveReachable roots ↔ ∃! k, k < n ∧ h.taken? roots k = some x := by
  constructor
  · intro reached
    have black := (mark_black_iff h roots reached.1).mpr reached.2
    rw [result, marking_black_iff going] at black
    obtain ⟨k, lt, y, took, here⟩ := black
    obtain rfl := eq_of_alive reached.1 (gray_of_taken took).1 here.symm
    refine ⟨k, ⟨lt, took⟩, ?_⟩
    intro j also
    rcases Nat.lt_trichotomy j k with earlier | same | later
    · exact absurd took (taken_once (fun l less => going l (Nat.lt_trans less lt)) earlier also.2)
    · exact same
    · exact absurd also.2 (taken_once (fun l less => going l (Nat.lt_trans less also.1)) later took)
  · intro once
    obtain ⟨k, ⟨_, took⟩, _⟩ := once
    obtain ⟨alive, gray⟩ := gray_of_taken took
    exact ⟨alive, (marking_triColour h roots k).reachable alive gray (by simp)⟩

structure MarkingCourse (h : Heap Obj) (roots : List Handle) (n : Nat) : Prop where
  between : ∀ k, h.BetweenIterations roots (h.marking roots k)
  within : ∀ k < n, ∃ x rest number, (h.marking roots k).work = x :: rest ∧
    h.number? x = some number ∧ ∀ ys, ys <+: h.references number →
      TriColour h roots (some x) (ys.foldl visit { h.marking roots k with work := rest })
  taken : ∀ x, x ∈ h.liveReachable roots ↔ ∃! k, k < n ∧ h.taken? roots k = some x
  marked : ∀ k ≤ n, (h.marking roots k).marked = k
  ends : (h.marking roots n).work = []
  result : h.mark roots = h.marking roots n
  objects : h.Sound → n = {k | h.Survives roots k}.ncard

/-- Marking takes as many iterations as there are live reachable objects. -/
theorem marking_runs_its_course (h : Heap Obj) (roots : List Handle) :
    h.MarkingCourse roots (h.liveReachable roots).ncard := by
  obtain ⟨n, result, going⟩ := run_eq_iterate h.references (h.rooted roots)
  have marked : ∀ k ≤ n, (h.marking roots k).marked = k := by
    intro k le
    rw [marking, iterate_marked k fun j lt => going j (Nat.lt_of_lt_of_le lt le), rooted_marked,
      Nat.zero_add]
  have iterations : (h.liveReachable roots).ncard = n := by
    calc (h.liveReachable roots).ncard = (h.mark roots).marked := mark_marked.symm
      _ = (h.marking roots n).marked := congrArg Marking.marked result
      _ = n := marked n (Nat.le_refl n)
  rw [iterations]
  refine ⟨?_, ?_, taken_iff result going, marked, ?_, result, ?_⟩
  · intro k
    exact between_of_triColour (marking_triColour h roots k)
  · intro k lt
    obtain ⟨x, rest, work⟩ := List.exists_cons_of_ne_nil (going k lt)
    obtain ⟨number, named, scanning⟩ := scanning_triColour (marking_triColour h roots k) work
    exact ⟨x, rest, number, work, named, scanning⟩
  · calc (h.marking roots n).work = (h.mark roots).work := congrArg Marking.work result.symm
      _ = [] := run_work h.references (h.rooted roots)
  · intro sound
    rw [← sound.marked, mark_marked, iterations]

/-- The first object refers to itself, to the second and twice to the third, which both refer back to
it. The third has a stale reference to the fourth. -/
def tangle : Heap (List Handle) where
  slots := #[⟨{}, some 0⟩, ⟨{}, some 1⟩, ⟨{}, some 2⟩, ⟨{}, some 3⟩]
  objects := #[some [⟨0, 0⟩, ⟨1, 0⟩, ⟨2, 0⟩, ⟨2, 0⟩], some [⟨0, 0⟩], some [⟨0, 0⟩, ⟨3, 7⟩], some []]

theorem tangle_takes_three_iterations :
    tangle.MarkingCourse [⟨0, 0⟩, ⟨9, 0⟩, ⟨0, 0⟩] 3 := by
  have course := marking_runs_its_course tangle [⟨0, 0⟩, ⟨9, 0⟩, ⟨0, 0⟩]
  have three : (tangle.mark [⟨0, 0⟩, ⟨9, 0⟩, ⟨0, 0⟩]).marked = 3 := by decide +kernel
  rw [course.result, course.marked _ (Nat.le_refl _)] at three
  rwa [three] at course

end Heap

end HostBridge
