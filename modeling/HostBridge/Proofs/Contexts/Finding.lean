import HostBridge.Proofs.Contexts.Keeping
import HostBridge.Proofs.Execution.Plan
import HostBridge.Proofs.Ident
/-!
# Which contexts are found

A context is found from its creation until it is disposed. Then it is known as disposed until the
bridge is told that a collection has finished, and unknown ever after. The answers depend on nothing
but this history, as long as numbers are left for new contexts.
-/

namespace HostBridge

variable {Obj τ : Type} [Facility τ] {E : Embedder Obj τ}

def Since (P Q : Nat → Prop) (n : Nat) : Prop := ∃ m < n, P m ∧ ∀ l, m < l → l < n → ¬ Q l

section

variable {P Q : Nat → Prop} {n : Nat}

theorem not_since_zero : ¬ Since P Q 0 := by
  rintro ⟨m, lt, _⟩
  cases lt

theorem since_succ : Since P Q (n + 1) ↔ P n ∨ ¬ Q n ∧ Since P Q n := by
  constructor
  · rintro ⟨m, lt, here, never⟩
    rcases Nat.lt_or_eq_of_le (Nat.le_of_lt_succ lt) with before | rfl
    · exact Or.inr ⟨never n before (Nat.lt_succ_self n), m, before, here,
        fun l after early => never l after (Nat.lt_succ_of_lt early)⟩
    · exact Or.inl here
  · rintro (here | ⟨not_now, m, lt, here, never⟩)
    · exact ⟨n, Nat.lt_succ_self n, here, fun l after early => by omega⟩
    · refine ⟨m, Nat.lt_succ_of_lt lt, here, ?_⟩
      intro l after early
      rcases Nat.lt_or_eq_of_le (Nat.le_of_lt_succ early) with before | rfl
      · exact never l after before
      · exact not_now

end

namespace Command

theorem perform_dispose_live (w : World Obj τ) (c : ContextId) :
    (perform w (.dispose c)).world.live = w.live.erase c := by
  have same := World.sameHouse_disposeContext w c
  cases live : w.isLive c with
  | true =>
    simp only [perform, World.find, live, if_true]
    exact congrArg (List.erase · c) same.live
  | false =>
    have absent : c ∉ w.live := by simpa [World.isLive] using live
    simp only [perform, World.find, live, Bool.false_eq_true, if_false]
    exact (List.erase_of_not_mem absent).symm

theorem perform_dispose_disposed (w : World Obj τ) (c : ContextId) :
    (perform w (.dispose c)).world.disposed =
      if c ∈ w.live then w.disposed ++ [c] else w.disposed := by
  have same := World.sameHouse_disposeContext w c
  cases live : w.isLive c with
  | true =>
    have present : c ∈ w.live := by simpa [World.isLive] using live
    simp only [perform, World.find, live, if_true, present]
    exact congrArg (· ++ [c]) same.disposed
  | false =>
    have absent : c ∉ w.live := by simpa [World.isLive] using live
    simp only [perform, World.find, live, Bool.false_eq_true, if_false, absent]

theorem perform_dispose_answer (w : World Obj τ) (c : ContextId) :
    (perform w (.dispose c)).answer = (w.find c).map fun _ => () := by
  cases live : w.isLive c with
  | true =>
    simp only [perform, World.find, live, if_true]
    rfl
  | false =>
    simp only [perform, World.find, live, Bool.false_eq_true, if_false]
    rfl

theorem perform_dispose_of_not_live {w : World Obj τ} {c : ContextId} (absent : c ∉ w.live) :
    (perform w (.dispose c)).world = w ∧ (perform w (.dispose c)).signals = [] := by
  have not_live : w.isLive c = false := by simpa [World.isLive] using absent
  simp only [perform, World.find, not_live, Bool.false_eq_true, if_false, and_self]

end Command

namespace Execution

structure Uninhabited (x : Execution E) : Prop where
  no_context : x.world.contexts = []
  no_live : x.world.live = []
  no_disposed : x.world.disposed = []
  first : x.world.nextContext = ⟨1⟩

def creates (x : Execution E) : Bool :=
  match x.performed? with
  | some (.createContext _) => true
  | _ => false

def CreatesContext (x : Execution E) (c : ContextId) : Prop :=
  x.creates = true ∧ x.world.nextContext = c

variable [Traced Obj]

def created (x : Execution E) : Nat → Nat
  | 0 => 0
  | n + 1 => x.created n + if (x.run n).creates then 1 else 0

/-- The context has been created before the `n`th state of the run, and has not been disposed
since. -/
def Standing (x : Execution E) (c : ContextId) : Nat → Prop :=
  Since (fun m => (x.run m).CreatesContext c) fun m => (x.run m).Performs (.dispose c)

/-- The context has been disposed before the `n`th state of the run, and the bridge has not been
told since that a collection has finished. -/
def Lingering (x : Execution E) (c : ContextId) : Nat → Prop :=
  Since (fun m => x.Standing c m ∧ (x.run m).Performs (.dispose c))
    fun m => (x.run m).AtTask (.traceComplete .bridge)

variable {x : Execution E} {c d : ContextId} {l m n : Nat}

theorem standing_succ : x.Standing c (n + 1) ↔
    (x.run n).CreatesContext c ∨ ¬ (x.run n).Performs (.dispose c) ∧ x.Standing c n :=
  since_succ

theorem lingering_succ : x.Lingering c (n + 1) ↔
    x.Standing c n ∧ (x.run n).Performs (.dispose c) ∨
      ¬ (x.run n).AtTask (.traceComplete .bridge) ∧ x.Lingering c n :=
  since_succ

omit [Traced Obj] in
theorem creates_iff : x.creates = true ↔ ∃ config, x.Performs (.createContext config) := by
  constructor
  · intro creates
    rw [Execution.creates] at creates
    split at creates
    · rename_i config next
      exact ⟨config, performs_of_performed? next⟩
    · cases creates
  · rintro ⟨config, performs⟩
    simp only [Execution.creates, performs.performed?]

omit [Traced Obj] in
theorem CreatesContext.performs (creates : x.CreatesContext c) :
    ∃ config, x.Performs (.createContext config) :=
  creates_iff.mp creates.1

omit [Traced Obj] in
theorem Performs.dispose_iff (performs : x.Performs (.dispose d)) :
    x.Performs (.dispose c) ↔ c = d := by
  constructor
  · intro performs'
    exact Command.dispose.inj (performs'.unique performs)
  · rintro rfl
    exact performs

inductive Rehousing (x : Execution E) (n : Nat) : Prop
  | created {config : Option Config} (performs : (x.run n).Performs (.createContext config))
      (world : (x.run (n + 1)).world = (x.run n).world.createContext config)
  | disposed {d : ContextId} (performs : (x.run n).Performs (.dispose d))
      (world : (x.run (n + 1)).world = ((Command.dispose d).perform (x.run n).world).world)
  | released (completes : (x.run n).AtTask (.traceComplete .bridge))
      (world : (x.run (n + 1)).world = (x.run n).world.reclaim)
  | kept (not_created : (x.run n).creates = false)
      (not_disposed : ∀ d, ¬ (x.run n).Performs (.dispose d))
      (not_released : ¬ (x.run n).AtTask (.traceComplete .bridge))
      (same : (x.run n).world.SameHouse (x.run (n + 1)).world)

theorem run_rehousing (x : Execution E) (n : Nat) (open_still : ¬ (x.run n).Performs .close) :
    x.Rehousing n := by
  by_cases creates : ∃ config, (x.run n).Performs (.createContext config)
  · obtain ⟨config, performs⟩ := creates
    exact .created performs performs.run_succ
  by_cases disposes : ∃ d, (x.run n).Performs (.dispose d)
  · obtain ⟨d, performs⟩ := disposes
    exact .disposed performs performs.run_succ
  by_cases completes : (x.run n).AtTask (.traceComplete .bridge)
  · obtain ⟨rest, top⟩ := completes
    obtain ⟨p, _, world⟩ := (x.run_rewrites n).of_task top fun k same => nomatch same
    exact .released ⟨rest, top⟩ world
  refine .kept ?_ (not_exists.mp disposes) completes ?_
  · simpa using mt creates_iff.mp creates
  · cases (x.run_rewrites n).rehouses with
    | kept same => exact same
    | created performs => exact absurd ⟨_, performs⟩ creates
    | disposed performs => exact absurd ⟨_, performs⟩ disposes
    | closed performs => exact absurd performs open_still
    | released now => exact absurd now completes

theorem live_succ (open_still : ¬ (x.run n).Performs .close)
    (distinct : (x.run n).world.live.Nodup) : c ∈ (x.run (n + 1)).world.live ↔
      (x.run n).CreatesContext c ∨
        ¬ (x.run n).Performs (.dispose c) ∧ c ∈ (x.run n).world.live := by
  cases x.run_rehousing n open_still with
  | created performs world =>
    have not_disposed : ¬ (x.run n).Performs (.dispose c) :=
      fun disposes => nomatch performs.unique disposes
    have new : (x.run n).CreatesContext c ↔ (x.run n).world.nextContext = c :=
      and_iff_right (creates_iff.mpr ⟨_, performs⟩)
    have live : (x.run (n + 1)).world.live =
        (x.run n).world.live ++ [(x.run n).world.nextContext] := world ▸ rfl
    rw [live, List.mem_append, List.mem_singleton, new, or_comm, eq_comm,
      and_iff_right not_disposed]
  | @disposed d performs world =>
    have not_created : ¬ (x.run n).CreatesContext c := by
      intro creates
      obtain ⟨config, performs'⟩ := creates.performs
      exact nomatch performs.unique performs'
    rw [world, Command.perform_dispose_live, distinct.mem_erase_iff, performs.dispose_iff,
      or_iff_right not_created]
  | released completes world =>
    have not_created : ¬ (x.run n).CreatesContext c := by
      intro creates
      obtain ⟨config, performs⟩ := creates.performs
      exact performs.not_atTask _ completes
    have not_disposed : ¬ (x.run n).Performs (.dispose c) :=
      fun performs => performs.not_atTask _ completes
    have live : (x.run (n + 1)).world.live = (x.run n).world.live := world ▸ rfl
    rw [live, or_iff_right not_created, and_iff_right not_disposed]
  | kept not_created not_disposed _ same =>
    have not_created : ¬ (x.run n).CreatesContext c := fun ⟨creates, _⟩ => by
      rw [creates] at not_created
      cases not_created
    rw [same.live, or_iff_right not_created, and_iff_right (not_disposed c)]

theorem disposed_succ (open_still : ¬ (x.run n).Performs .close) :
    c ∈ (x.run (n + 1)).world.disposed ↔
      c ∈ (x.run n).world.live ∧ (x.run n).Performs (.dispose c) ∨
        ¬ (x.run n).AtTask (.traceComplete .bridge) ∧ c ∈ (x.run n).world.disposed := by
  cases x.run_rehousing n open_still with
  | created performs world =>
    have not_disposed : ¬ (x.run n).Performs (.dispose c) :=
      fun disposes => nomatch performs.unique disposes
    have disposed : (x.run (n + 1)).world.disposed = (x.run n).world.disposed := world ▸ rfl
    rw [disposed, or_iff_right fun both => not_disposed both.2,
      and_iff_right (performs.not_atTask _)]
  | @disposed d performs world =>
    rw [world, Command.perform_dispose_disposed, performs.dispose_iff,
      and_iff_right (performs.not_atTask _)]
    split
    · rename_i live
      rw [List.mem_append, List.mem_singleton, or_comm]
      refine or_congr_left ?_
      constructor
      · rintro rfl
        exact ⟨live, rfl⟩
      · exact And.right
    · rename_i absent
      refine (or_iff_right ?_).symm
      rintro ⟨live, rfl⟩
      exact absent live
  | released completes world =>
    have not_disposed : ¬ (x.run n).Performs (.dispose c) :=
      fun performs => performs.not_atTask _ completes
    have disposed : (x.run (n + 1)).world.disposed = [] := world ▸ rfl
    rw [disposed, or_iff_left fun both => both.1 completes]
    exact iff_of_false List.not_mem_nil fun both => not_disposed both.2
  | kept _ not_disposed not_released same =>
    rw [same.disposed, or_iff_right fun both => not_disposed c both.2, and_iff_right not_released]

theorem nextContext_succ (x : Execution E) (n : Nat) :
    (x.run (n + 1)).world.nextContext =
      if (x.run n).creates then (x.run n).world.nextContext.next
      else (x.run n).world.nextContext := by
  split
  · rename_i creates
    obtain ⟨config, performs⟩ := creates_iff.mp creates
    rw [performs.run_succ]
    rfl
  · rename_i not_created
    cases (x.run_rewrites n).rehouses with
    | kept same => exact same.next
    | created performs => exact absurd (creates_iff.mpr ⟨_, performs⟩) not_created
    | disposed _ _ _ _ next | closed _ _ _ next | released _ _ _ next => exact next

theorem created_mono (x : Execution E) (le : m ≤ n) : x.created m ≤ x.created n := by
  induction le with
  | refl => exact Nat.le_refl _
  | step _ ih => exact Nat.le_add_right_of_le ih

theorem created_of_creates (creates : (x.run n).creates = true) :
    x.created (n + 1) = x.created n + 1 := by
  rw [created, if_pos creates]

/-- As long as numbers are left, the next one tells how many contexts have been created. -/
theorem nextContext_run (uninhabited : x.Uninhabited) (few : x.created n < 2 ^ 32 - 1) :
    (x.run n).world.nextContext.val.toNat = x.created n + 1 := by
  induction n with
  | zero =>
    rw [run_zero, uninhabited.first]
    rfl
  | succ n ih =>
    have fewer := x.created_mono (Nat.le_add_right n 1)
    have before := ih (by omega)
    rw [nextContext_succ]
    split
    · rename_i creates
      rw [created_of_creates creates] at few ⊢
      rw [ContextId.next, nextNumber_toNat (by omega), before]
    · rename_i not_created
      rw [before, created, if_neg not_created, Nat.add_zero]

theorem CreatesContext.toNat (uninhabited : x.Uninhabited) (few : x.created (m + 1) < 2 ^ 32)
    (creates : (x.run m).CreatesContext c) : c.val.toNat = x.created m + 1 := by
  have more := created_of_creates creates.1
  rw [← creates.2]
  exact nextContext_run uninhabited (by omega)

theorem CreatesContext.unique (uninhabited : x.Uninhabited) (few : x.created n < 2 ^ 32)
    (lt : l < n) (lt' : m < n) (creates : (x.run l).CreatesContext c)
    (creates' : (x.run m).CreatesContext c) : l = m := by
  have number : ∀ {j}, j < n → (x.run j).CreatesContext c →
      x.created (j + 1) = x.created j + 1 ∧ c.val.toNat = x.created j + 1 := by
    intro j before creates
    have le := x.created_mono (show j + 1 ≤ n from before)
    exact ⟨created_of_creates creates.1, creates.toNat uninhabited (by omega)⟩
  obtain ⟨more, first⟩ := number lt creates
  obtain ⟨more', second⟩ := number lt' creates'
  rcases Nat.lt_trichotomy l m with before | same | before
  · have le := x.created_mono (show l + 1 ≤ m from before)
    omega
  · exact same
  · have le := x.created_mono (show m + 1 ≤ l from before)
    omega

theorem context_toNat_le (uninhabited : x.Uninhabited) (few : x.created n < 2 ^ 32) {a : Context}
    (found : (x.run n).world.context? c = some a) : c.val.toNat ≤ x.created n := by
  induction n generalizing a with
  | zero =>
    rw [run_zero, World.context?, uninhabited.no_context] at found
    cases found
  | succ n ih =>
    have grown := x.created_mono (Nat.le_add_right n 1)
    have outcome := (x.run_rewrites n).outcome c
    rw [found] at outcome
    generalize before : (x.run n).world.context? c = o at outcome
    cases outcome with
    | changed => exact Nat.le_trans (ih (by omega) before) grown
    | @created config performs =>
      have named := performs.named_of_created before found
      have creates : (x.run n).creates = true := creates_iff.mpr ⟨config, performs⟩
      have number := CreatesContext.toNat uninhabited few ⟨creates, named⟩
      exact Nat.le_of_eq (number.trans (created_of_creates creates).symm)

theorem Performs.context_created (uninhabited : x.Uninhabited) {config : Option Config}
    (few : x.created (m + 1) < 2 ^ 32) (performs : (x.run m).Performs (.createContext config))
    (named : (x.run m).world.nextContext = c) (lt : m < n) :
    ∃ a, (x.run n).world.context? c = some a ∧
      a.config = config.getD (x.run m).world.defaults := by
  have creates : (x.run m).CreatesContext c := ⟨creates_iff.mpr ⟨config, performs⟩, named⟩
  have number := creates.toNat uninhabited few
  have more := created_of_creates creates.1
  have absent : (x.run m).world.context? c = none := by
    by_contra exists_already
    obtain ⟨a, found⟩ := Option.ne_none_iff_exists'.mp exists_already
    have le := context_toNat_le uninhabited (by omega) found
    omega
  have found : (x.run (m + 1)).world.context? c =
      some (.create c (config.getD (x.run m).world.defaults)) := by
    have world : (x.run (m + 1)).world = (x.run m).world.createContext config := performs.run_succ
    rw [world, World.context?_createContext, absent, named, Option.none_or]
    exact List.find?_cons_of_pos (decide_eq_true rfl)
  exact config_run found lt

structure Housed (x : Execution E) (n : Nat) : Prop where
  live : ∀ c, c ∈ (x.run n).world.live ↔ x.Standing c n
  disposed : ∀ c, c ∈ (x.run n).world.disposed ↔ x.Lingering c n
  distinct : ((x.run n).world.live ++ (x.run n).world.disposed).Nodup
  exist : ∀ c ∈ (x.run n).world.live ++ (x.run n).world.disposed,
    ∃ a, (x.run n).world.context? c = some a

theorem Rehousing.distinct (uninhabited : x.Uninhabited) (few : x.created (n + 1) < 2 ^ 32)
    (housed : x.Housed n) (rehousing : x.Rehousing n) :
    ((x.run (n + 1)).world.live ++ (x.run (n + 1)).world.disposed).Nodup := by
  have distinct := housed.distinct
  cases rehousing with
  | @created config performs world =>
    have creates : (x.run n).creates = true := creates_iff.mpr ⟨config, performs⟩
    have number := CreatesContext.toNat uninhabited few ⟨creates, rfl⟩
    have more := created_of_creates creates
    have new : (x.run n).world.nextContext ∉
        (x.run n).world.live ++ (x.run n).world.disposed := by
      intro held
      obtain ⟨a, found⟩ := housed.exist _ held
      have le := context_toNat_le uninhabited (by omega) found
      omega
    have moved : ((x.run (n + 1)).world.live ++ (x.run (n + 1)).world.disposed).Perm
        ((x.run n).world.nextContext ::
          ((x.run n).world.live ++ (x.run n).world.disposed)) := by
      rw [world, World.createContext, List.append_assoc]
      exact List.perm_middle
    exact moved.nodup_iff.mpr (List.nodup_cons.mpr ⟨new, distinct⟩)
  | @disposed d performs world =>
    rw [world, Command.perform_dispose_live, Command.perform_dispose_disposed]
    split
    · rename_i live
      have moved : ((x.run n).world.live.erase d ++ ((x.run n).world.disposed ++ [d])).Perm
          ((x.run n).world.live ++ (x.run n).world.disposed) := by
        rw [← List.append_assoc]
        refine List.perm_append_singleton d _ |>.trans ?_
        exact (List.perm_cons_erase live).symm.append_right _
      exact moved.nodup_iff.mpr distinct
    · exact distinct.sublist (List.erase_sublist.append_right _)
  | released completes world =>
    have live : (x.run (n + 1)).world.live = (x.run n).world.live := world ▸ rfl
    have disposed : (x.run (n + 1)).world.disposed = [] := world ▸ rfl
    rw [live, disposed, List.append_nil]
    exact distinct.sublist (List.sublist_append_left _ _)
  | kept _ _ _ same => rwa [same.live, same.disposed]

theorem Housed.succ (uninhabited : x.Uninhabited) (few : x.created (n + 1) < 2 ^ 32)
    (open_still : ¬ (x.run n).Performs .close) (housed : x.Housed n) : x.Housed (n + 1) := by
  have live (c : ContextId) := live_succ (c := c) open_still
    (housed.distinct.sublist (List.sublist_append_left _ _))
  have disposed (c : ContextId) := disposed_succ (c := c) open_still
  refine ⟨?_, ?_, (x.run_rehousing n open_still).distinct uninhabited few housed, ?_⟩
  · intro c
    rw [live, housed.live, standing_succ]
  · intro c
    rw [disposed, housed.live, housed.disposed, lingering_succ]
  · intro c mem
    have old : c ∈ (x.run n).world.live ++ (x.run n).world.disposed →
        ∃ a, (x.run (n + 1)).world.context? c = some a := by
      intro held
      obtain ⟨a, found⟩ := housed.exist c held
      obtain ⟨b, found', _⟩ := config_run found (Nat.le_succ n)
      exact ⟨b, found'⟩
    rcases List.mem_append.mp mem with held | held
    · rcases (live c).mp held with creates | ⟨_, was_live⟩
      · obtain ⟨config, performs⟩ := creates.performs
        obtain ⟨a, found, _⟩ :=
          performs.context_created uninhabited few creates.2 (Nat.lt_succ_self n)
        exact ⟨a, found⟩
      · exact old (List.mem_append_left _ was_live)
    · rcases (disposed c).mp held with ⟨was_live, _⟩ | ⟨_, was_disposed⟩
      · exact old (List.mem_append_left _ was_live)
      · exact old (List.mem_append_right _ was_disposed)

theorem housed_run (uninhabited : x.Uninhabited) (few : x.created n < 2 ^ 32)
    (open_still : ∀ m < n, ¬ (x.run m).Performs .close) : x.Housed n := by
  induction n with
  | zero =>
    constructor
    · intro c
      rw [run_zero, uninhabited.no_live]
      exact iff_of_false List.not_mem_nil not_since_zero
    · intro c
      rw [run_zero, uninhabited.no_disposed]
      exact iff_of_false List.not_mem_nil not_since_zero
    · rw [run_zero, uninhabited.no_live, uninhabited.no_disposed]
      exact List.nodup_nil
    · intro c mem
      rw [run_zero, uninhabited.no_live, uninhabited.no_disposed] at mem
      cases mem
  | succ n ih =>
    have fewer := x.created_mono (Nat.le_add_right n 1)
    have housed := ih (by omega) fun m lt => open_still m (Nat.lt_succ_of_lt lt)
    exact housed.succ uninhabited few (open_still n (Nat.lt_succ_self n))

/-- What the bridge answers when the context is looked up or is to be disposed. -/
structure Responds (x : Execution E) (c : ContextId) (n : Nat) : Prop where
  standing : (x.run n).world.find c = .ok c ↔ x.Standing c n
  lingering : (x.run n).world.find c = .error (.contextDisposed c) ↔ x.Lingering c n
  unknown : (x.run n).world.find c = .error (.contextNotFound c) ↔
    ¬ x.Standing c n ∧ ¬ x.Lingering c n
  itself : ∀ m < n, ∀ config, (x.run m).Performs (.createContext config) →
    (x.run m).world.nextContext = c → ∃ a, (x.run n).world.context? c = some a ∧
      a.config = config.getD (x.run m).world.defaults
  disposing : (Command.perform (x.run n).world (.dispose c)).answer =
    ((x.run n).world.find c).map fun _ => ()
  refused : ¬ x.Standing c n →
    (Command.perform (x.run n).world (.dispose c)).world = (x.run n).world ∧
      (Command.perform (x.run n).world (.dispose c)).signals = []

omit [Facility τ] [Traced Obj] in
theorem find_cases (w : World Obj τ) (c : ContextId) :
    c ∈ w.live ∧ w.find c = .ok c ∨
    c ∉ w.live ∧ c ∈ w.disposed ∧ w.find c = .error (.contextDisposed c) ∨
    c ∉ w.live ∧ c ∉ w.disposed ∧ w.find c = .error (.contextNotFound c) := by
  by_cases live : c ∈ w.live
  · simp [World.find, World.isLive, live]
  · by_cases disposed : c ∈ w.disposed <;> simp [World.find, World.isLive, live, disposed]

theorem Housed.responds (uninhabited : x.Uninhabited) (few : x.created n < 2 ^ 32)
    (housed : x.Housed n) (c : ContextId) : x.Responds c n := by
  have apart : c ∈ (x.run n).world.live → c ∉ (x.run n).world.disposed :=
    fun live disposed => List.disjoint_of_nodup_append housed.distinct live disposed
  constructor
  · rw [← housed.live]
    rcases find_cases (x.run n).world c with ⟨live, found⟩ | ⟨gone, _, found⟩ | ⟨gone, _, found⟩ <;>
      simp [*]
  · rw [← housed.disposed]
    rcases find_cases (x.run n).world c with
      ⟨live, found⟩ | ⟨_, disposed, found⟩ | ⟨_, gone, found⟩
    · simp [found, apart live]
    · simp [found, disposed]
    · simp [found, gone]
  · rw [← housed.live, ← housed.disposed]
    rcases find_cases (x.run n).world c with
      ⟨live, found⟩ | ⟨gone, disposed, found⟩ | ⟨gone, gone', found⟩ <;> simp [*]
  · intro m lt config performs named
    have le := x.created_mono (show m + 1 ≤ n from lt)
    exact performs.context_created uninhabited (by omega) named lt
  · exact Command.perform_dispose_answer _ c
  · intro not_standing
    exact Command.perform_dispose_of_not_live fun held => not_standing ((housed.live c).mp held)

/-- Every answer about a context follows from the history, as long as numbers are left and the
bridge has not ended; a trace of the bridge visits the contexts that are standing or lingering, each
once; and no number is given to two contexts. -/
theorem contexts_are_found (uninhabited : x.Uninhabited) (few : x.created n < 2 ^ 32)
    (open_still : ∀ m < n, ¬ (x.run m).Performs .close) :
    (∀ c, x.Responds c n) ∧
    (∃ cs : List ContextId, cs.Nodup ∧ (∀ c, c ∈ cs ↔ x.Standing c n ∨ x.Lingering c n) ∧
      (∀ c ∈ cs, ∃ a, (x.run n).world.context? c = some a) ∧
      (x.run n).world.roots = cs.flatMap (x.run n).world.rootsOf) ∧
    ∀ l m c, l < n → m < n → (x.run l).CreatesContext c → (x.run m).CreatesContext c → l = m := by
  have housed := housed_run uninhabited few open_still
  refine ⟨housed.responds uninhabited few, ?_, ?_⟩
  · refine ⟨_, housed.distinct, ?_, housed.exist, rfl⟩
    intro c
    rw [List.mem_append, housed.live, housed.disposed]
  · intro l m c lt lt' creates creates'
    exact creates.unique uninhabited few lt lt' creates'

end Execution

def Order.closes : Order Obj τ → Bool
  | .command .close => true
  | _ => false

namespace Execution

theorem plan_not_closed {body : Call Obj → List (Order Obj τ)} {x : Execution (plan body)}
    (lasts : x.order?.any Order.closes = false) : ¬ x.Performs .close := by
  intro performs
  rw [performs.order?] at lasts
  cases lasts

def disposesInFrame : Call (List Handle) → List (Order (List Handle) Manual)
  | .native .. => [.command (.dispose ⟨1⟩)]
  | _ => []

def comingAndGoing : Execution (plan disposesInFrame) :=
  planned {} _ [.command (.createContext none), .command (.createContext none),
    .command (.requestFrame ⟨2⟩ (.native 0)), .procedure (.frames ⟨2⟩ ⟨0⟩),
    .command (.dispose ⟨1⟩), .command (.createContext none), .procedure (.collect [.bridge]),
    .command (.dispose ⟨1⟩), .command (.dispose ⟨3⟩)]

theorem gone_and_lingering_are_told_apart :
    comingAndGoing.Lingering ⟨1⟩ 15 ∧ ¬ comingAndGoing.Lingering ⟨1⟩ 24 ∧
      comingAndGoing.Standing ⟨2⟩ 26 ∧ comingAndGoing.Lingering ⟨3⟩ 26 ∧
      (comingAndGoing.run 24).world.find ⟨1⟩ = .error (.contextNotFound ⟨1⟩) := by
  have uninhabited : comingAndGoing.Uninhabited := ⟨rfl, rfl, rfl, rfl⟩
  have open_still : ∀ m < 26, ¬ (comingAndGoing.run m).Performs .close := by
    have planned : ∀ m < 26, (comingAndGoing.run m).order?.any Order.closes = false := by
      decide +kernel
    exact fun m lt => plan_not_closed (planned m lt)
  have ⟨responds, _⟩ := contexts_are_found (n := 15) uninhabited (by decide +kernel)
    fun m lt => open_still m (Nat.lt_trans lt (by decide))
  have ⟨responds', _⟩ := contexts_are_found (n := 24) uninhabited (by decide +kernel)
    fun m lt => open_still m (Nat.lt_trans lt (by decide))
  have ⟨responds'', _⟩ := contexts_are_found (n := 26) uninhabited (by decide +kernel) open_still
  have unknown : (comingAndGoing.run 24).world.find ⟨1⟩ = .error (.contextNotFound ⟨1⟩) := by
    decide +kernel
  exact ⟨(responds ⟨1⟩).lingering.mp (by decide +kernel), ((responds' ⟨1⟩).unknown.mp unknown).2,
    (responds'' ⟨2⟩).standing.mp (by decide +kernel),
    (responds'' ⟨3⟩).lingering.mp (by decide +kernel), unknown⟩

end Execution

end HostBridge
