import Mathlib.Data.Fintype.Card
import Mathlib.Data.Fintype.EquivFin
import Mathlib.Data.Fintype.Sets
import HostBridge.Proofs.Classes.Programs
/-!
# Look-ups come to an end

A look-up climbs to an ancestor whose class is kept, and defines one class after the other on its
way back. The program that installs the members of a class may look up further classes, but the
class itself is kept by then: there are fewer classes left to create.
-/

namespace HostBridge

variable {Obj τ : Type} [Facility τ] [Traced Obj] {E : Embedder Obj τ} {x y : Execution E}
  {c : ContextId} {S : Finset TypeId}

theorem Programmed.climb (programmed : Programmed x c S) {P : TypeId → Prop}
    (step : ∀ t ∈ S, (∀ q, (E.types t).parent = some q → P q) → P t) : ∀ t ∈ S, P t := by
  let older : S → S → Prop := fun q t => Relation.TransGen (IsParent E.types) q t
  have : IsTrans S older := ⟨fun _ _ _ => Relation.TransGen.trans⟩
  have : Std.Irrefl older := ⟨fun t => programmed.acyclic t t.2⟩
  have founded : WellFounded older := Finite.wellFounded_of_trans_of_irrefl older
  intro t mem
  refine founded.induction (C := fun t => P t) ⟨t, mem⟩ ?_
  rintro ⟨u, of_S⟩ ih
  refine step u of_S ?_
  intro q parent
  exact ih ⟨q, programmed.closed u of_S q parent⟩ (.single parent)

namespace Execution

theorem Serves.class?_run (serves : x.Serves c S) {t : TypeId} {o : ClassObjects}
    (kept : x.world.class? c t = some o) (n : Nat) : (x.run n).world.class? c t = some o := by
  induction n with
  | zero => exact kept
  | succ n ih =>
    have change := run_class_change (serves.keeps n) (serves.keeps (n + 1)).valid t
    generalize (x.run (n + 1)).world.class? c t = o' at change
    cases change with
    | kept => exact ih
    | created creates =>
      obtain ⟨parent, a, _, _, at_code, _⟩ := creates
      cases ((serves.abides n).missing t parent a at_code).symm.trans ih
    | failed fails =>
      obtain ⟨o', thrown, returns⟩ := fails
      have makes : (Call.install c t o' : Call Obj).makes? c ≠ none := by simp [Call.makes?]
      cases (serves.abides n).succeeds returns makes

def lacking (x : Execution E) (c : ContextId) (S : Finset TypeId) : Finset TypeId :=
  S.filter fun t => (x.world.class? c t).isNone

theorem Serves.lacking_run (serves : x.Serves c S) (n : Nat) :
    (x.run n).lacking c S ⊆ x.lacking c S := by
  intro t lacks
  obtain ⟨mem, missing⟩ := Finset.mem_filter.mp lacks
  refine Finset.mem_filter.mpr ⟨mem, ?_⟩
  cases kept : x.world.class? c t with
  | none => rfl
  | some o =>
    rw [serves.class?_run kept n] at missing
    exact missing

theorem Serves.lacking_lt (serves : x.Serves c S) {t : TypeId} (mem : t ∈ S)
    (missing : x.world.class? c t = none) {n : Nat} {o : ClassObjects}
    (made : (x.run n).world.class? c t = some o) :
    ((x.run n).lacking c S).card < (x.lacking c S).card := by
  apply Finset.card_lt_card
  refine ⟨serves.lacking_run n, ?_⟩
  intro all
  have lacks : t ∈ x.lacking c S := Finset.mem_filter.mpr ⟨mem, by rw [missing]; rfl⟩
  obtain ⟨_, still⟩ := Finset.mem_filter.mp (all lacks)
  rw [made] at still
  cases still

def Answers (x : Execution E) (c : ContextId) (t : TypeId) (k : Call Obj)
    (resume : Except Value ClassObjects → E.Activity) : Prop :=
  ∃ n y o, x.Resumes n y ∧ y.focus = .code k (resume (.ok o)) ∧ y.below = x.below ∧
    y.world.class? c t = some o

def AnswersAll (x : Execution E) (c : ContextId) : Prop :=
  ∀ n t k resume, (x.run n).Requests k (.classObjects c t) resume → (x.run n).Answers c t k resume

theorem program_ends {T : Finset TypeId} {k : Call Obj} {a : E.Activity}
    (program : LooksUp x c T k a) {n : Nat} (at_code : (x.run n).focus = .code k a)
    (answers : ∀ m ≥ n, ∀ t ∈ T, ∀ resume, (x.run m).Requests k (.classObjects c t) resume →
      (x.run m).Answers c t k resume) :
    ∃ m y r, (x.run n).Resumes m y ∧ y.below = (x.run n).below ∧ y.Finishes k r ∧
      k.Succeeds r := by
  induction program generalizing n with
  | @intro a proceeds performs only looks finishes proceeds_ih performs_ih looks_ih =>
    have goes_on : ∀ {m : Nat} {z : Execution E}, (x.run n).Resumes m z →
        z.below = (x.run n).below →
        (∃ l y r, (x.run (n + m)).Resumes l y ∧ y.below = (x.run (n + m)).below ∧
          y.Finishes k r ∧ k.Succeeds r) →
        ∃ l y r, (x.run n).Resumes l y ∧ y.below = (x.run n).below ∧ y.Finishes k r ∧
          k.Succeeds r := by
      rintro m z first below ⟨l, y, r, later, below', ends⟩
      rw [run_add, first.run] at later below'
      exact ⟨m + l, y, r, first.trans later, below'.trans below, ends⟩
    have later : ∀ m, ∀ l ≥ n + m, ∀ t ∈ T, ∀ resume,
        (x.run l).Requests k (.classObjects c t) resume → (x.run l).Answers c t k resume :=
      fun m l ge => answers l (Nat.le_trans (Nat.le_add_right n m) ge)
    obtain ⟨state, notes, move, turn, moves⟩ := exists_moves at_code
    cases move with
    | proceed a' =>
      obtain ⟨next, below, first⟩ := moves.proceeds
      rw [← run_add] at next
      exact goes_on first below (proceeds_ih n a' moves next (later 1))
    | command command resume =>
      obtain ⟨next, below, first⟩ := moves.performs
      rw [← run_add] at next
      exact goes_on first below (performs_ih n command resume moves next (later 1))
    | procedure p resume =>
      obtain ⟨t, mem, rfl⟩ := only n p resume moves
      have requests : (x.run n).Requests k (.classObjects c t) resume :=
        ⟨a, state, notes, at_code, turn⟩
      -- The look-up is answered, and the program goes on with what it has brought.
      obtain ⟨m, z, o, first, focus, below, _⟩ := answers n (Nat.le_refl n) t mem resume requests
      have there : (x.run (n + m)).focus = .code k (resume (.ok o)) := by
        rw [run_add, first.run, focus]
      exact goes_on first below (looks_ih n t resume moves o there (later m))
    | finish r =>
      exact ⟨0, x.run n, r, .refl _, rfl, ⟨a, state, notes, at_code, turn⟩, finishes n r moves⟩

/-- The procedure in focus goes on until it has `todo` left to do. By then it has brought the class
of `t`, which is kept. -/
def Brings? (x : Execution E) (c : ContextId) (t : TypeId) (s : Suspended E)
    (todo : List (Task Obj)) : Prop :=
  ∃ n y p o, x.GoesOn { s with todo, progress := p } n y ∧ p.classObjects = .ok o ∧
    y.world.class? c t = some o

def AnswersLater (x : Execution E) (c : ContextId) (S : Finset TypeId) : Prop :=
  ∀ n, ((x.run n).lacking c S).card < (x.lacking c S).card →
    ∀ t k resume, (x.run n).Requests k (.classObjects c t) resume → (x.run n).Answers c t k resume

theorem AnswersLater.resumes (later : x.AnswersLater c S) (serves : x.Serves c S) {n : Nat}
    (resumes : x.Resumes n y) : y.AnswersLater c S := by
  intro m fewer
  rw [← resumes.run, ← run_add] at fewer ⊢
  exact later (n + m) (Nat.lt_of_lt_of_le fewer (Finset.card_le_card (serves.lacking_run n)))

theorem Serves.resumes (serves : x.Serves c S) {n : Nat} (resumes : x.Resumes n y) :
    y.Serves c S :=
  resumes.run ▸ serves.run n

theorem Serves.call_goesOn (serves : x.Serves c S) {s : Suspended E} {k : Call Obj}
    {todo : List (Task Obj)} {t : TypeId} (at_bridge : x.focus = .bridge s)
    (next : s.todo = .call k :: todo) (makes : k.makes? c = some t)
    (answers : ∀ n, ∀ u ∈ k.lookedUp S, ∀ resume,
      (x.run n).Requests k (.classObjects c u) resume → (x.run n).Answers c u k resume) :
    ∃ n y w r, k.Succeeds r ∧ w.isValid c = true ∧ x.GoesOn { s with
        todo := (k.resume E.types w s.progress r).first ++ todo
        progress := (k.resume E.types w s.progress r).progress } n y ∧
      y.world = (k.resume E.types w s.progress r).world := by
  have at_code : (x.run 1).focus = .code k (E.enter k) := by
    rw [run_one_of_bridge at_bridge, work_call next]
  obtain ⟨_, program⟩ := (serves.abides 1).follows k _ t at_code makes
  obtain ⟨n, y, r, lasts, below, finishes, succeeds⟩ :=
    program_ends program at_code fun m _ => answers m
  obtain ⟨goesOn, world⟩ := call_goesOn_of_finishes at_bridge next lasts below finishes
  have valid := (serves.keeps (1 + n)).valid
  rw [run_add, lasts.run] at valid
  exact ⟨_, _, y.world, r, succeeds, valid, goesOn, world⟩

omit [Facility τ] in
theorem run_defineClass (env : Surroundings) (w : World Obj τ) {p : Progress} {t : TypeId}
    (parent : ∀ q, (env.types t).parent = some q → ∃ o, p.classObjects = .ok o) :
    (∃ o w', w.lookUpClass env.alive c t = (some o, w') ∧
        (Task.defineClass c t).run env w p = ⟨w', { p with classObjects := .ok o }, [], []⟩) ∨
      ∃ prototype w', w.lookUpClass env.alive c t = (none, w') ∧
        (Task.defineClass c t).run env w p = ⟨w', p, [.call (.createClass c t prototype)], []⟩ := by
  simp only [Task.run]
  split
  · rename_i thrown given
    cases child : (env.types t).parent with
    | none =>
      rw [child] at given
      cases given
    | some q =>
      obtain ⟨o, brought⟩ := parent q child
      rw [child, brought] at given
      cases given
  · rename_i prototype _
    generalize w.lookUpClass env.alive c t = looked
    obtain ⟨miss | o, w'⟩ := looked
    · exact Or.inr ⟨prototype, w', rfl, rfl⟩
    · exact Or.inl ⟨o, w', rfl, rfl⟩

theorem Serves.define (serves : x.Serves c S) (later : x.AnswersLater c S) {s : Suspended E}
    {todo : List (Task Obj)} {t : TypeId} (at_bridge : x.focus = .bridge s)
    (next : s.todo = .defineClass c t :: todo) (mem : t ∈ S)
    (parent : ∀ q, (E.types t).parent = some q → ∃ o, s.progress.classObjects = .ok o) :
    x.Brings? c t s todo := by
  have keeps : x.KeepsClasses c := serves.keeps 0
  have found := keeps.look_up t
  have same := keeps.class?_lookUpClass t
  obtain ⟨first, world⟩ := work_goesOn at_bridge next (fun k e => nomatch e)
  rcases run_defineClass ⟨E.types, E.alive x.state x.world.heap⟩ x.world parent with
    ⟨o, w, looked, run⟩ | ⟨prototype, w, looked, run⟩
  · rw [run] at first world
    rw [looked] at found same
    refine ⟨1, _, _, o, first, rfl, ?_⟩
    rw [world, same t, ← found]
  · rw [run] at first world
    rw [looked] at found
    obtain ⟨n, y, w', r, ⟨o, rfl⟩, valid, created, world'⟩ :=
      (serves.resumes first.resumes).call_goesOn first.at_bridge rfl (if_pos rfl)
        fun _ u none_allowed => absurd none_allowed (Finset.notMem_empty u)
    have so_far := first.trans created
    have made : y.world.class? c t = some o := by
      obtain ⟨a, there, _⟩ := World.isValid_iff.mp valid
      have ids : ∀ b : Context, b.id = c → { b with classes := b.classes.insert t o }.id = c :=
        fun _ here => here
      rw [world', World.class?, Call.resume, World.context?_update _ ids, there]
      simp [ClassCache.get?_insert]
    cases installs : (E.types t).installs with
    | false =>
      simp only [Call.resume, installs] at so_far
      exact ⟨_, y, _, o, so_far, rfl, made⟩
    | true =>
      simp only [Call.resume, installs] at so_far
      have fewer := serves.lacking_lt mem found.symm (so_far.resumes.run ▸ made)
      have serves' := serves.resumes so_far.resumes
      obtain ⟨m, z, w'', r, rfl, _, installed, _⟩ := serves'.call_goesOn so_far.at_bridge rfl
        (k := .install c t o) (if_pos rfl) (by
          intro m u _ resume requests
          rw [← so_far.resumes.run, ← run_add] at requests ⊢
          refine later _ (Nat.lt_of_le_of_lt (Finset.card_le_card ?_) fewer) u _ resume requests
          rw [run_add]
          exact (serves.run _).lacking_run m)
      refine ⟨_, z, _, o, so_far.trans installed, rfl, ?_⟩
      rw [← installed.resumes.run]
      exact serves'.class?_run made m

/-- On the way back each class is defined once that of its parent has been brought. -/
theorem Serves.descend (programmed : Programmed y c S) {t u : TypeId} {todo : List (Task Obj)}
    (descends : Descends E.types c t u todo) (mem : t ∈ S) {x : Execution E}
    (serves : x.Serves c S) (later : x.AnswersLater c S) {s : Suspended E}
    (at_bridge : x.focus = .bridge s) (next : s.todo = todo) {o : ClassObjects}
    (brought : s.progress.classObjects = .ok o) (kept : x.world.class? c u = some o) :
    x.Brings? c t s [] := by
  induction descends generalizing x s o with
  | done => exact ⟨0, x, s.progress, o, .refl at_bridge next, brought, kept⟩
  | @child u v todo parent rest ih =>
    have defined := serves.define later at_bridge next (rest.mem programmed mem)
      fun q _ => ⟨o, brought⟩
    obtain ⟨n, y, p, o', first, brought', kept'⟩ := defined
    obtain ⟨m, z, p', o'', second, settled, found⟩ := ih (serves.resumes first.resumes)
      (later.resumes serves first.resumes) first.at_bridge rfl brought' kept'
    exact ⟨n + m, z, p', o'', first.trans second, settled, found⟩

/-- On the way up there is an ancestor whose class is kept, or none whose parent could be. -/
theorem Serves.seek (programmed : Programmed y c S) {t : TypeId} (mem : t ∈ S) :
    ∀ u ∈ S, ∀ (todo : List (Task Obj)), Descends E.types c t u todo → ∀ {x : Execution E},
      x.Serves c S → x.AnswersLater c S → ∀ {s : Suspended E}, x.focus = .bridge s →
      s.todo = .classObjects c u :: todo → x.Brings? c t s [] := by
  refine programmed.climb ?_
  intro u _ ih todo descends x serves later s at_bridge next
  have keeps : x.KeepsClasses c := serves.keeps 0
  have found := keeps.look_up u
  have same := keeps.class?_lookUpClass u
  obtain ⟨first, world⟩ := work_goesOn at_bridge next (fun k e => nomatch e)
  have serves' := serves.resumes first.resumes
  have later' := later.resumes serves first.resumes
  simp only [Task.run] at first world
  generalize x.world.lookUpClass (E.alive x.state x.world.heap) c u = looked at found same first world
  have goes_on : ∀ {p : Progress} {todo : List (Task Obj)},
      x.GoesOn { s with todo, progress := p } 1 (x.run 1) →
      (x.run 1).Brings? c t { s with todo, progress := p } [] → x.Brings? c t s [] := by
    rintro p todo so_far ⟨n, y, p', o, second, settled, kept⟩
    exact ⟨1 + n, y, p', o, so_far.trans second, settled, kept⟩
  obtain ⟨miss | o, w⟩ := looked
  · cases parent : (E.types u).parent with
    | some q =>
      simp only [parent] at first
      exact goes_on first (ih q parent _ (.child parent descends) serves' later' first.at_bridge rfl)
    | none =>
      have no_parent : ∀ q, (E.types u).parent ≠ some q := by
        intro q child
        cases parent.symm.trans child
      simp only [parent] at first
      obtain ⟨n, y, p, o, defined, brought, kept⟩ := serves'.define later' first.at_bridge rfl
        (descends.mem programmed mem) fun q child => absurd child (no_parent q)
      obtain ⟨m, z, p', o', second, settled, found⟩ := Serves.descend programmed descends mem
        (serves'.resumes defined.resumes) (later'.resumes serves' defined.resumes)
        defined.at_bridge rfl brought kept
      exact goes_on first ⟨n + m, z, p', o', defined.trans second, settled, found⟩
  · have kept : (x.run 1).world.class? c u = some o := by
      rw [world, same u, ← found]
    exact goes_on first
      (Serves.descend programmed descends mem serves' later' first.at_bridge rfl rfl kept)

theorem answers_of_brings {t : TypeId} {k : Call Obj}
    {resume : Except Value ClassObjects → E.Activity}
    (requests : x.Requests k (.classObjects c t) resume) {p : Progress} {todo : List (Task Obj)}
    (brings : (x.run 1).Brings? c t ⟨k, .classObjects c t, resume, todo, p⟩ []) :
    x.Answers c t k resume := by
  obtain ⟨n, y, p', o, goesOn, settled, kept⟩ := brings
  obtain ⟨at_bridge, below, _⟩ := requests.run_one
  obtain ⟨a, _, _, at_code, _⟩ := requests
  obtain ⟨ended, focus, below', world⟩ := done_endsAt goesOn.at_bridge rfl
  have answer : (y.run 1).focus = .code k (resume (.ok o)) := by
    rw [focus, ← settled]
    rfl
  have outside : (y.run 1).below = x.below := by rw [below', goesOn.below, below]
  have deeper : (x.run 1).depth = x.depth + 1 := by
    rw [depth_of_bridge at_bridge, depth_of_code at_code, below]
  have there : (x.run 1).run (n + 1) = y.run 1 := by rw [run_add, goesOn.resumes.run]
  have resumes := resumes_of_deeper rfl deeper (goesOn.resumes.endsAt ended) (by
    rw [there, depth_of_code answer, depth_of_code at_code, outside])
  rw [there] at resumes
  exact ⟨_, _, o, resumes, answer, outside, world ▸ kept⟩

/-- Every look-up ends, with the class that is kept from then on. -/
theorem Serves.answers (programmed : Programmed x c S) (serves : x.Serves c S) :
    x.AnswersAll c := by
  -- The induction is on the number of classes that are lacking.
  suffices all : ∀ m, ∀ {x : Execution E}, x.Serves c S → (x.lacking c S).card ≤ m →
      ∀ t k resume, x.Requests k (.classObjects c t) resume → x.Answers c t k resume from
    fun n => all _ (serves.run n) (Nat.le_refl _)
  intro m
  induction m using Nat.strongRecOn with
  | ind m ih =>
    intro x serves le t k resume requests
    have later : x.AnswersLater c S := fun n fewer =>
      ih _ (Nat.lt_of_lt_of_le fewer le) (serves.run n) (Nat.le_refl _)
    have mem := serves.asked 0 k t resume requests
    obtain ⟨at_bridge, below, _⟩ := requests.run_one
    have later' : (x.run 1).AnswersLater c S := by
      intro n fewer
      rw [← run_add] at fewer ⊢
      exact later (1 + n) (Nat.lt_of_lt_of_le fewer (Finset.card_le_card (serves.lacking_run 1)))
    exact answers_of_brings requests
      (Serves.seek programmed mem t mem [] .done (serves.run 1) later' at_bridge rfl)

end Execution

end HostBridge
