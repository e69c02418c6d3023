import Mathlib.Data.Finset.Card
import Mathlib.Logic.Relation
import HostBridge.Proofs.Classes.Reliance
import HostBridge.Proofs.Execution.Extent
/-!
# Programs of look-ups

Code that creates a class or installs its members may be a program that looks up further classes. If
every such program is finite, and none fails as long as its look-ups succeed, then none ever fails:
no look-up comes to nothing.
-/

namespace HostBridge

variable {Obj τ : Type}

def Call.lookedUp (S : Finset TypeId) : Call Obj → Finset TypeId
  | createClass .. => ∅
  | _ => S

def IsParent (types : TypeId → TypeDescriptor) (q t : TypeId) : Prop := (types t).parent = some q

variable [Facility τ] {E : Embedder Obj τ}

def Execution.Moves (x : Execution E) (k : Call Obj) (a : E.Activity)
    (move : Move Obj τ E.Activity k) : Prop :=
  x.focus = .code k a ∧ (E.next k x.world x.state a).move = move

variable [Traced Obj]

/-- What the call goes on with at `a` in the run is a finite program: it asks for classes of the
context that are of the types in `S`, and for nothing else. If it gets them it succeeds. -/
inductive LooksUp (x : Execution E) (c : ContextId) (S : Finset TypeId) (k : Call Obj) :
    E.Activity → Prop
  | intro {a : E.Activity}
      (proceeds : ∀ n a', (x.run n).Moves k a (.proceed a') → LooksUp x c S k a')
      (performs : ∀ n command resume, (x.run n).Moves k a (.command command resume) →
        LooksUp x c S k (resume (command.perform (x.run n).world).answer))
      (only : ∀ n p resume, (x.run n).Moves k a (.procedure p resume) →
        ∃ t ∈ S, p = .classObjects c t)
      (looks : ∀ n t resume, (x.run n).Moves k a (.procedure (.classObjects c t) resume) →
        ∀ o, LooksUp x c S k (resume (.ok o)))
      (finishes : ∀ n r, (x.run n).Moves k a (.finish r) → k.Succeeds r) : LooksUp x c S k a

variable {x : Execution E} {c : ContextId} {S : Finset TypeId}

open Execution in
theorem LooksUp.run {k : Call Obj} {a : E.Activity} (program : LooksUp x c S k a) (m : Nat) :
    LooksUp (x.run m) c S k a := by
  induction program with
  | intro _ _ only _ finishes proceeds_ih performs_ih looks_ih =>
    constructor
    · intro n
      rw [← run_add]
      exact proceeds_ih (m + n)
    · intro n
      rw [← run_add]
      exact performs_ih (m + n)
    · intro n
      rw [← run_add]
      exact only (m + n)
    · intro n
      rw [← run_add]
      exact looks_ih (m + n)
    · intro n
      rw [← run_add]
      exact finishes (m + n)

namespace Execution

structure Proceeds (x : Execution E) (k : Call Obj) (a : E.Activity) : Prop where
  at_code : (x.run 1).focus = .code k a
  below : (x.run 1).below = x.below
  resumes : x.Resumes 1 (x.run 1)

theorem proceeds_of_step {y : Execution E} {k : Call Obj} {a a' : E.Activity}
    (at_code : x.focus = .code k a) (stepped : x.step = some y) (focus : y.focus = .code k a')
    (below : y.below = x.below) : x.Proceeds k a' := by
  have next : x.run 1 = y := run_succ_of_step (n := 0) stepped
  have level : y.depth = x.depth := by rw [depth_of_code focus, depth_of_code at_code, below]
  exact ⟨next ▸ focus, next ▸ below, next ▸ .one stepped level⟩

theorem Moves.proceeds {k : Call Obj} {a a' : E.Activity} (moves : x.Moves k a (.proceed a')) :
    x.Proceeds k a' := by
  obtain ⟨at_code, move⟩ := moves
  have stepped : x.step = some (x.move k a) := by rw [step, at_code]
  apply proceeds_of_step at_code stepped <;> simp [Execution.move, move, record]

theorem Moves.performs {k : Call Obj} {a : E.Activity} {command : Command Obj τ}
    {resume : command.Answer → E.Activity} (moves : x.Moves k a (.command command resume)) :
    x.Proceeds k (resume (command.perform x.world).answer) := by
  obtain ⟨at_code, move⟩ := moves
  have stepped : x.step = some (x.move k a) := by rw [step, at_code]
  apply proceeds_of_step at_code stepped <;> simp [Execution.move, move, record]

omit [Traced Obj] in
theorem exists_moves {k : Call Obj} {a : E.Activity} (at_code : x.focus = .code k a) :
    ∃ state notes move, E.next k x.world x.state a = ⟨state, notes, move⟩ ∧ x.Moves k a move :=
  ⟨_, _, _, rfl, at_code, rfl⟩

end Execution

/-- Finitely many types, whose classes are made by finite programs. -/
structure Programmed (x : Execution E) (c : ContextId) (S : Finset TypeId) : Prop where
  closed : ∀ t ∈ S, ∀ q, (E.types t).parent = some q → q ∈ S
  acyclic : ∀ t ∈ S, ¬ Relation.TransGen (IsParent E.types) t t
  programs : ∀ (k : Call Obj) (t : TypeId), t ∈ S → k.makes? c = some t →
    LooksUp x c (k.lookedUp S) k (E.enter k)

theorem Descends.mem (programmed : Programmed x c S) {t u : TypeId} {todo : List (Task Obj)}
    (descends : Descends E.types c t u todo) (mem : t ∈ S) : u ∈ S := by
  induction descends with
  | done => exact mem
  | child parent rest ih => exact programmed.closed _ ih _ parent

omit [Facility τ] [Traced Obj] in
theorem Descends.ancestor {types : TypeId → TypeDescriptor} {t u : TypeId} {todo : List (Task Obj)}
    (descends : Descends types c t u todo) : Relation.ReflTransGen (IsParent types) u t := by
  induction descends with
  | done => exact .refl
  | child parent rest ih => exact .head parent ih

namespace Execution

structure Abides (x : Execution E) (c : ContextId) (S : Finset TypeId) (n : Nat) : Prop where
  staged : (x.run n).Staged False c
  follows : ∀ k a t, (x.run n).focus = .code k a → k.makes? c = some t →
    t ∈ S ∧ LooksUp x c (k.lookedUp S) k a
  missing : ∀ t prototype a, (x.run n).focus = .code (.createClass c t prototype) a →
    (x.run n).world.class? c t = none

/-- From now on no look-up fails, and whatever makes a class follows its program. -/
structure Serves (x : Execution E) (c : ContextId) (S : Finset TypeId) : Prop where
  keeps : ∀ n, (x.run n).KeepsClasses c
  asked : ∀ n k t resume, (x.run n).Requests k (.classObjects c t) resume → t ∈ S
  framed : ∀ n, ∀ s ∈ (x.run n).frames, ∀ t, s.procedure = .classObjects c t → t ∈ S
  abides : ∀ n, x.Abides c S n

theorem Serves.run (serves : x.Serves c S) (n : Nat) : (x.run n).Serves c S := by
  constructor
  · exact fun m => run_add x n m ▸ serves.keeps (n + m)
  · intro m k t resume
    rw [← run_add]
    exact serves.asked (n + m) k t resume
  · intro m
    rw [← run_add]
    exact serves.framed (n + m)
  · intro m
    obtain ⟨staged, follows, missing⟩ := serves.abides (n + m)
    rw [run_add] at staged follows missing
    refine ⟨staged, ?_, missing⟩
    intro k a t at_code makes
    obtain ⟨of_S, program⟩ := follows k a t at_code makes
    exact ⟨of_S, program.run n⟩

/-- Every look-up that has not ended has been asked for. -/
theorem framed_run (opened : x.Opened c)
    (asked : ∀ n k t resume, (x.run n).Requests k (.classObjects c t) resume → t ∈ S) {n : Nat}
    {s : Suspended E} (mem : s ∈ (x.run n).frames) {t : TypeId}
    (looks : s.procedure = .classObjects c t) : t ∈ S := by
  rcases frame_requested mem with ⟨s', start, _, same⟩ | ⟨m, _, requests⟩
  · exact absurd (same.trans looks) ((opened.no_lookUp s' start).1 t)
  · obtain ⟨k, procedure, resume, todo, progress⟩ := s
    obtain rfl : procedure = .classObjects c t := looks
    exact asked m _ _ _ requests

variable {n : Nat}

theorem program_of_frame (opened : x.Opened c) (abides : ∀ m < n, x.Abides c S m)
    {s : Suspended E} (mem : s ∈ (x.run n).frames) {t : TypeId} (makes : s.k.makes? c = some t) :
    t ∈ S ∧ ∃ u ∈ s.k.lookedUp S, s.procedure = .classObjects c u ∧
      ∀ p o, p.classObjects = .ok o →
        LooksUp x c (s.k.lookedUp S) s.k (s.resume (s.procedure.answer p)) := by
  rcases frame_requested mem with ⟨s', start, same, _⟩ | ⟨m, lt, requests⟩
  · have no_class := (opened.no_lookUp s' start).2.2
    rw [same, makes] at no_class
    cases no_class
  · obtain ⟨k, procedure, resume, todo, progress⟩ := s
    obtain ⟨a, state, notes, at_code, turn⟩ := requests
    have moves : (x.run m).Moves k a (.procedure procedure resume) :=
      ⟨at_code, congrArg Turn.move turn⟩
    obtain ⟨of_S, program⟩ := (abides m lt).follows k a t at_code makes
    cases program with
    | intro _ _ only looks _ =>
      obtain ⟨u, allowed, rfl⟩ := only m _ _ moves
      refine ⟨of_S, u, allowed, rfl, ?_⟩
      intro p o brought
      have goes_on := looks m u resume moves o
      rw [← brought] at goes_on
      exact goes_on

theorem Abides.succeeds (abides : x.Abides c S n) {k : Call Obj} {r : k.Reply}
    (returns : (x.run n).Returns k r) (makes : k.makes? c ≠ none) : k.Succeeds r := by
  obtain ⟨t, makes⟩ := Option.ne_none_iff_exists'.mp makes
  obtain ⟨a, state, notes, at_code, called, turn⟩ := returns
  obtain ⟨_, program⟩ := abides.follows k a t at_code makes
  cases program with
  | intro _ _ _ _ finishes => exact finishes n r ⟨at_code, congrArg Turn.move turn⟩

theorem Abides.mem_of_makes (abides : x.Abides c S n) (programmed : Programmed x c S)
    (framed : ∀ s ∈ (x.run n).frames, ∀ t, s.procedure = .classObjects c t → t ∈ S) {k : Call Obj}
    (next : (x.run n).AtTask (.call k)) {t : TypeId} (makes : k.makes? c = some t) : t ∈ S := by
  obtain ⟨⟨s, u, todo, at_bridge, looks, rest⟩, _⟩ := abides.staged.lookUp_of_makes next makes
  exact rest.mem programmed
    (framed s (frames_of_bridge at_bridge ▸ List.mem_cons_self) u looks)

theorem Abides.follows_succ (abides : x.Abides c S n) (programmed : Programmed x c S)
    (framed : ∀ s ∈ (x.run n).frames, ∀ t, s.procedure = .classObjects c t → t ∈ S)
    (programs : ∀ s ∈ (x.run n).frames, ∀ t, s.k.makes? c = some t →
      t ∈ S ∧ ∃ u ∈ s.k.lookedUp S, s.procedure = .classObjects c u ∧
        ∀ p o, p.classObjects = .ok o →
          LooksUp x c (s.k.lookedUp S) s.k (s.resume (s.procedure.answer p)))
    {y : Execution E} (stepped : Stepped (x.run n) y) {k : Call Obj} {a : E.Activity} {t : TypeId}
    (here : y.focus = .code k a) (makes : k.makes? c = some t) :
    t ∈ S ∧ LooksUp x c (k.lookedUp S) k a := by
  cases stepped with
  | proceed at_code turn =>
    obtain ⟨rfl, rfl⟩ := Focus.code.inj here
    obtain ⟨of_S, program⟩ := abides.follows _ _ t at_code makes
    cases program with
    | intro proceeds _ _ _ _ => exact ⟨of_S, proceeds n _ ⟨at_code, congrArg Turn.move turn⟩⟩
  | command at_code turn =>
    obtain ⟨rfl, rfl⟩ := Focus.code.inj here
    obtain ⟨of_S, program⟩ := abides.follows _ _ t at_code makes
    cases program with
    | intro _ performs _ _ _ => exact ⟨of_S, performs n _ _ ⟨at_code, congrArg Turn.move turn⟩⟩
  | procedure | finish | worked => cases here
  | halt => cases here
  | @ended s at_bridge done =>
    obtain ⟨rfl, rfl⟩ := Focus.code.inj here
    have frame : s ∈ (x.run n).frames := frames_of_bridge at_bridge ▸ List.mem_cons_self
    obtain ⟨of_S, u, _, looks, goes_on⟩ := programs s frame t makes
    refine ⟨of_S, ?_⟩
    cases (abides.staged.of_bridge at_bridge).1 with
    | lookUp _ stage =>
      rw [done] at stage
      generalize brought : s.progress = p at stage
      cases stage with
      | settled _ settled _ => exact goes_on p _ settled
      | failed may => exact may.elim
    | other no_lookUp => exact absurd looks (no_lookUp u)
  | called at_bridge next =>
    obtain ⟨rfl, rfl⟩ := Focus.code.inj here
    have of_S := abides.mem_of_makes programmed framed (atTask_of_bridge at_bridge next) makes
    exact ⟨of_S, programmed.programs _ t of_S makes⟩

theorem Abides.missing_succ (abides : x.Abides c S n) (keeps : (x.run n).KeepsClasses c)
    (programs : ∀ s ∈ (x.run n).frames, ∀ t, s.k.makes? c = some t →
      ∃ u ∈ s.k.lookedUp S, s.procedure = .classObjects c u)
    {y : Execution E} (stepped : Stepped (x.run n) y) (valid : y.world.isValid c = true)
    {t : TypeId} {prototype : Option Handle} {a : E.Activity}
    (here : y.focus = .code (.createClass c t prototype) a) : y.world.class? c t = none := by
  cases stepped with
  | proceed at_code turn =>
    obtain ⟨rfl, _⟩ := Focus.code.inj here
    exact abides.missing t prototype _ at_code
  | command at_code turn =>
    obtain ⟨rfl, _⟩ := Focus.code.inj here
    have performs : (x.run n).Performs _ := ⟨_, _, _, _, _, at_code, turn⟩
    rcases ((performs.outcome c).class_change keeps valid t).returns with same | returns
    · exact same.trans (abides.missing t prototype _ at_code)
    · obtain ⟨k, r, returns, _⟩ := returns
      exact absurd performs returns.not_performs
  | procedure | finish | worked => cases here
  | halt => cases here
  | @ended s at_bridge done =>
    obtain ⟨called, _⟩ := Focus.code.inj here
    have frame : s ∈ (x.run n).frames := frames_of_bridge at_bridge ▸ List.mem_cons_self
    obtain ⟨u, none_allowed, _⟩ := programs s frame t (called ▸ if_pos rfl)
    rw [called] at none_allowed
    exact absurd none_allowed (Finset.notMem_empty u)
  | called at_bridge next =>
    obtain ⟨rfl, _⟩ := Focus.code.inj here
    exact (abides.staged.lookUp_of_makes (atTask_of_bridge at_bridge next) (if_pos rfl)).2
      prototype rfl

/-- In a context none of whose classes is kept at the start, no look-up of them ever fails. -/
theorem serves_run (programmed : Programmed x c S) (opened : x.Opened c)
    (keeps : ∀ n, (x.run n).KeepsClasses c)
    (asked : ∀ n k t resume, (x.run n).Requests k (.classObjects c t) resume → t ∈ S) :
    x.Serves c S := by
  have framed : ∀ n, ∀ s ∈ (x.run n).frames, ∀ t, s.procedure = .classObjects c t → t ∈ S :=
    fun n s mem t looks => framed_run opened asked mem looks
  -- Whether code follows its program depends on the state in which it was called, so the
  -- induction speaks of all earlier states.
  suffices abides : ∀ n, ∀ m ≤ n, x.Abides c S m from
    ⟨keeps, asked, framed, fun n => abides n n (Nat.le_refl n)⟩
  intro n
  induction n with
  | zero =>
    intro m le
    obtain rfl := Nat.le_zero.mp le
    refine ⟨opened.staged False, ?_, ?_⟩
    · intro k a t at_code makes
      cases (opened.no_making k a at_code).symm.trans makes
    · intro t prototype a _
      exact opened.no_class t
  | succ n ih =>
    intro m le
    rcases Nat.le_succ_iff.mp le with earlier | rfl
    · exact ih m earlier
    have abides := ih n (Nat.le_refl n)
    rcases run_succ_cases x n with same | stepped
    · obtain ⟨staged, follows, missing⟩ := abides
      rw [← same] at staged follows missing
      exact ⟨staged, follows, missing⟩
    have programs := fun s mem t makes => program_of_frame opened
      (fun m lt => ih m (Nat.le_of_lt lt)) (s := s) (t := t) mem makes
    refine ⟨?_, ?_, ?_⟩
    · refine stepped.staged abides.staged (keeps n) ?_
        fun k r returns makes => Or.inl (abides.succeeds returns makes)
      rintro k ⟨rest, top⟩
      exact ((lookUps_run opened fun m _ => keeps m).2 [] k rest top).1
    · intro k a t here makes
      exact abides.follows_succ programmed (framed n) programs stepped here makes
    · intro t prototype a here
      refine abides.missing_succ (keeps n) ?_ stepped (keeps (n + 1)).valid here
      intro s mem u makes
      obtain ⟨_, v, allowed, looks, _⟩ := programs s mem u makes
      exact ⟨v, allowed, looks⟩

end Execution

end HostBridge
