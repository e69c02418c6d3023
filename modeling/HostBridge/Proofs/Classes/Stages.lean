import HostBridge.Proofs.Classes.Change
import HostBridge.Proofs.Execution.Extent
import HostBridge.Proofs.Execution.Sources
/-!
# How far the look-up of a class has come

A look-up climbs to the first ancestor whose class is kept, or to the root, and descends from there
one class after the other. `Stage` tells where it is, and what it knows by then: a class is created
with the prototype of its parent's class, and what has been settled is the class that is kept.
-/

namespace HostBridge

variable {Obj τ : Type}

def Task.OfLookUp (c : ContextId) : Task Obj → Prop
  | classObjects c' _ => c' = c
  | defineClass c' _ => c' = c
  | call k => k.makes? c ≠ none
  | _ => False

def World.Inherits (types : TypeId → TypeDescriptor) (w : World Obj τ) (c : ContextId) (t : TypeId)
    (prototype : Option Handle) : Prop :=
  match (types t).parent with
  | none => prototype = none
  | some parent => ∃ o, w.class? c parent = some o ∧ prototype = some o.prototype

theorem World.inherits_iff {types : TypeId → TypeDescriptor} {w : World Obj τ} {c : ContextId}
    {t q : TypeId} {prototype : Option Handle} (child : (types t).parent = some q) :
    w.Inherits types c t prototype ↔
      ∃ o, w.class? c q = some o ∧ prototype = some o.prototype := by
  rw [Inherits, child]

inductive Descends (types : TypeId → TypeDescriptor) (c : ContextId) (t : TypeId) :
    TypeId → List (Task Obj) → Prop
  | done : Descends types c t t []
  | child {u v : TypeId} {todo : List (Task Obj)} (parent : (types v).parent = some u)
      (rest : Descends types c t v todo) : Descends types c t u (.defineClass c v :: todo)

theorem Descends.not_call {types : TypeId → TypeDescriptor} {c : ContextId} {t u : TypeId}
    {todo : List (Task Obj)} (descends : Descends types c t u todo) {k : Call Obj} :
    .call k ∉ todo := by
  induction descends with
  | done => exact List.not_mem_nil
  | child parent rest ih =>
    intro mem
    rcases List.mem_cons.mp mem with same | later
    · cases same
    · exact ih later

/-- Where the look-up of the class of `t` has come to. It comes to nothing only if `fails`. -/
inductive Stage (types : TypeId → TypeDescriptor) (fails : Prop) (w : World Obj τ) (c : ContextId)
    (t : TypeId) : List (Task Obj) → Progress → Prop
  | seeking {u : TypeId} {todo : List (Task Obj)} {p : Progress} (rest : Descends types c t u todo) :
      Stage types fails w c t (.classObjects c u :: todo) p
  | rootless {u : TypeId} {todo : List (Task Obj)} {p : Progress}
      (root : (types u).parent = none) (rest : Descends types c t u todo) :
      Stage types fails w c t (.defineClass c u :: todo) p
  | creating {u : TypeId} {prototype : Option Handle} {todo : List (Task Obj)} {p : Progress}
      (missing : w.class? c u = none) (inherits : w.Inherits types c u prototype)
      (rest : Descends types c t u todo) :
      Stage types fails w c t (.call (.createClass c u prototype) :: todo) p
  | installing {u : TypeId} {o : ClassObjects} {todo : List (Task Obj)} {p : Progress}
      (installs : (types u).installs = true) (made : w.class? c u = some o)
      (rest : Descends types c t u todo) : Stage types fails w c t (.call (.install c u o) :: todo) p
  | settled {u : TypeId} {o : ClassObjects} {todo : List (Task Obj)} {p : Progress}
      (found : w.class? c u = some o) (brought : p.classObjects = .ok o)
      (rest : Descends types c t u todo) : Stage types fails w c t todo p
  | failed {u : TypeId} {thrown : Value} {todo : List (Task Obj)} {p : Progress} (may : fails)
      (brought : p.classObjects = .error thrown) (rest : Descends types c t u todo) :
      Stage types fails w c t todo p

def Call.Succeeds : (k : Call Obj) → k.Reply → Prop
  | createClass .., r => ∃ o, r = Except.ok o
  | install .., r => r = Except.ok ()
  | _, _ => True

def Call.Holds (types : TypeId → TypeDescriptor) (w : World Obj τ) (c : ContextId) :
    Call Obj → Prop
  | createClass c' t prototype =>
    c' = c → (types t).parent ≠ some t ∧ w.Inherits types c t prototype
  | install c' t o => c' = c → w.class? c t = some o
  | _ => True

theorem Call.Holds.of_makes_none {types : TypeId → TypeDescriptor} {w : World Obj τ} {c : ContextId}
    {k : Call Obj} (no_class : k.makes? c = none) : k.Holds types w c := by
  cases k with
  | createClass c' t prototype =>
    rintro rfl
    simp [makes?] at no_class
  | install c' t o =>
    rintro rfl
    simp [makes?] at no_class
  | _ => trivial

theorem Task.frameCall_makes? (c' c : ContextId) (e : Entry FrameId FrameRequest)
    (timestamp : Double) : (frameCall c' e timestamp : Call Obj).makes? c = none := by
  unfold frameCall
  split <;> rfl

variable [Facility τ] {E : Embedder Obj τ}

namespace Suspended

inductive AtStage (fails : Prop) (w : World Obj τ) (c : ContextId) (s : Suspended E) : Prop
  | lookUp {t : TypeId} (looks : s.procedure = .classObjects c t)
      (stage : Stage E.types fails w c t s.todo s.progress) : AtStage fails w c s
  | other (no_lookUp : ∀ t, s.procedure ≠ .classObjects c t)
      (tasks : ∀ u ∈ s.todo, ¬ u.OfLookUp c) : AtStage fails w c s

inductive Awaits (c : ContextId) (k : Call Obj) (s : Suspended E) : Prop
  | lookUp {t u : TypeId} (looks : s.procedure = .classObjects c t) (makes : k.makes? c = some u)
      (rest : Descends E.types c t u s.todo) : Awaits c k s
  | other (no_lookUp : ∀ t, s.procedure ≠ .classObjects c t)
      (tasks : ∀ u ∈ s.todo, ¬ u.OfLookUp c) (no_class : k.makes? c = none) : Awaits c k s

def Await (c : ContextId) : Call Obj → List (Suspended E) → Prop
  | _, [] => True
  | k, s :: below => s.Awaits c k ∧ Await c s.k below

end Suspended

namespace Execution

inductive Staged (x : Execution E) (fails : Prop) (c : ContextId) : Prop
  | halted (at_end : x.focus = .halted) : Staged x fails c
  | code {k : Call Obj} {a : E.Activity} (at_code : x.focus = .code k a)
      (below : Suspended.Await c k x.below) : Staged x fails c
  | bridge {s : Suspended E} (at_bridge : x.focus = .bridge s) (stage : s.AtStage fails x.world c)
      (below : Suspended.Await c s.k x.below) : Staged x fails c

variable {x y : Execution E} {fails : Prop} {c : ContextId}

theorem Staged.await_of_code (staged : x.Staged fails c) {k : Call Obj} {a : E.Activity}
    (at_code : x.focus = .code k a) : Suspended.Await c k x.below := by
  cases staged with
  | halted at_end => exact nomatch at_code.symm.trans at_end
  | code here below =>
    obtain ⟨rfl, _⟩ := Focus.code.inj (at_code.symm.trans here)
    exact below
  | bridge at_bridge => exact nomatch at_code.symm.trans at_bridge

theorem Staged.of_bridge (staged : x.Staged fails c) {s : Suspended E}
    (at_bridge : x.focus = .bridge s) : s.AtStage fails x.world c ∧ Suspended.Await c s.k x.below := by
  cases staged with
  | halted at_end => exact nomatch at_bridge.symm.trans at_end
  | code at_code => exact nomatch at_bridge.symm.trans at_code
  | bridge here stage below =>
    obtain rfl := Focus.bridge.inj (at_bridge.symm.trans here)
    exact ⟨stage, below⟩

theorem makes?_eq_none_of_await {k : Call Obj} {below : List (Suspended E)}
    (await : Suspended.Await c k below) {k' : Call Obj}
    (mem : .task (.call k') ∈ below.flatMap Suspended.items) : k'.makes? c = none := by
  induction below generalizing k with
  | nil => cases mem
  | cons s below ih =>
    obtain ⟨here, later⟩ := await
    rcases List.mem_append.mp (List.flatMap_cons ▸ mem) with first | rest
    · rcases List.mem_append.mp first with todo | code
      · obtain ⟨t, waits, same⟩ := List.mem_map.mp todo
        obtain rfl := Item.task.inj same
        cases here with
        | lookUp _ _ descends => exact absurd waits descends.not_call
        | other _ tasks => exact Decidable.of_not_not (tasks _ waits)
      · cases List.mem_singleton.mp code
    · exact ih later rest

theorem Staged.atTask_of_makes (staged : x.Staged fails c) {k : Call Obj}
    (mem : .task (.call k) ∈ x.stack) (makes : k.makes? c ≠ none) : x.AtTask (.call k) := by
  cases staged with
  | halted at_end =>
    rw [stack, at_end] at mem
    cases mem
  | code at_code below =>
    rw [stack_of_code at_code] at mem
    rcases List.mem_cons.mp mem with no_task | waits
    · cases no_task
    · exact absurd (makes?_eq_none_of_await below waits) makes
  | @bridge s at_bridge stage below =>
    rw [stack_of_bridge at_bridge] at mem
    rcases List.mem_append.mp mem with todo | later
    · obtain ⟨t, waits, same⟩ := List.mem_map.mp todo
      obtain rfl := Item.task.inj same
      rcases first : s.todo with _ | ⟨u, todo⟩
      · rw [first] at waits
        cases waits
      rw [first] at waits
      rcases List.mem_cons.mp waits with rfl | behind
      · exact atTask_of_bridge at_bridge first
      · cases stage with
        | lookUp looks stage =>
          rw [first] at stage
          generalize s.progress = p at stage
          cases stage with
          | seeking rest | rootless _ rest | creating _ _ rest | installing _ _ rest =>
            exact absurd behind rest.not_call
          | settled _ _ rest | failed _ _ rest => exact absurd waits rest.not_call
        | other no_lookUp tasks =>
          exact absurd makes (tasks (.call k) (first ▸ List.mem_cons_of_mem u behind))
    · rcases List.mem_cons.mp later with no_task | waits
      · cases no_task
      · exact absurd (makes?_eq_none_of_await below waits) makes

/-- A call that makes a class comes from a look-up of the class or of one that descends from it. -/
theorem Staged.lookUp_of_makes (staged : x.Staged fails c) {k : Call Obj}
    (next : x.AtTask (.call k)) {t : TypeId} (makes : k.makes? c = some t) :
    (∃ (s : Suspended E) (u : TypeId) (todo : List (Task Obj)), x.focus = .bridge s ∧
        s.procedure = .classObjects c u ∧ Descends E.types c u t todo) ∧
      ∀ prototype, k = .createClass c t prototype → x.world.class? c t = none := by
  obtain ⟨s, todo, at_bridge, first⟩ := next.bridge
  cases (staged.of_bridge at_bridge).1 with
  | @lookUp u looks stage =>
    rw [first] at stage
    generalize s.progress = p at stage
    cases stage with
    | creating missing inherits rest =>
      obtain rfl := Option.some.inj ((if_pos rfl).symm.trans makes)
      exact ⟨⟨s, u, todo, at_bridge, looks, rest⟩, fun _ _ => missing⟩
    | installing installs made rest =>
      obtain rfl := Option.some.inj ((if_pos rfl).symm.trans makes)
      exact ⟨⟨s, u, todo, at_bridge, looks, rest⟩, fun _ same => nomatch same⟩
    | settled _ _ rest | failed _ _ rest => cases rest
  | other no_lookUp tasks =>
    refine absurd ?_ (tasks (.call k) (first ▸ List.mem_cons_self))
    rw [Task.OfLookUp, makes]
    exact Option.some_ne_none t

/-- The call that a look-up is about to make has been given what the context keeps. -/
theorem Staged.holds (staged : x.Staged fails c) {k : Call Obj} (next : x.AtTask (.call k)) :
    k.Holds E.types x.world c := by
  obtain ⟨s, todo, at_bridge, first⟩ := next.bridge
  cases (staged.of_bridge at_bridge).1 with
  | lookUp looks stage =>
    rw [first] at stage
    generalize s.progress = p at stage
    cases stage with
    | creating missing inherits rest =>
      refine fun _ => ⟨?_, inherits⟩
      intro own
      simp [World.Inherits, own, missing] at inherits
    | installing installs made rest => exact fun _ => made
    | settled _ _ rest | failed _ _ rest => exact nomatch rest
  | other no_lookUp tasks =>
    have elsewhere : ¬ Task.OfLookUp c (.call k) := tasks _ (first ▸ List.mem_cons_self)
    exact .of_makes_none (Decidable.of_not_not elsewhere)

theorem Brings.ofLookUp {t : Task Obj} (brings : x.Brings t) (looks : t.OfLookUp c) :
    (∃ k u resume, x.Requests k (.classObjects c u) resume) ∨
      (∃ u, x.AtTask u ∧ (∀ k, u ≠ .call k) ∧ u.OfLookUp c) ∨
      ∃ k r, x.Returns k r ∧ k.makes? c ≠ none := by
  cases brings with
  | classObjects requests =>
    cases looks
    exact Or.inl ⟨_, _, _, requests⟩
  | parentObjects next | defineClass next =>
    cases looks
    exact Or.inr (Or.inl ⟨_, next, fun _ e => (nomatch e), rfl⟩)
  | createClass defines =>
    obtain ⟨_, makes⟩ := Option.ne_none_iff_exists'.mp looks
    rcases Call.eq_of_makes makes with ⟨_, same⟩ | ⟨_, same⟩
    · cases same
      exact Or.inr (Or.inl ⟨_, defines, fun _ e => (nomatch e), rfl⟩)
    · cases same
  | install returns => exact Or.inr (Or.inr ⟨_, _, returns, looks⟩)
  | frameCall => exact absurd (Task.frameCall_makes? _ _ _ _) looks
  | dropHook | rootSet | rootSetDone | exception | firstJob | nextJob | event | timerCall
  | typeError => exact absurd rfl looks
  | _ => exact looks.elim

end Execution

section Step

variable {x : Execution E} {fails : Prop} {c : ContextId}

/-- The reply of the call that a look-up has made brings it to its next stage. -/
theorem Stage.resume {t u : TypeId} {k : Call Obj} {r : k.Reply} {todo : List (Task Obj)}
    (p : Progress) (valid : x.world.isValid c = true) (makes : k.makes? c = some u)
    (holds : k.Holds E.types x.world c) (may : k.Succeeds r ∨ fails)
    (rest : Descends E.types c t u todo) :
    Stage E.types fails (k.resume E.types x.world p r).world c t
      ((k.resume E.types x.world p r).first ++ todo) (k.resume E.types x.world p r).progress := by
  obtain ⟨a, found, _⟩ := World.isValid_iff.mp valid
  rcases Call.eq_of_makes makes with ⟨prototype, rfl⟩ | ⟨o, rfl⟩
  · rcases r with thrown | o
    · rcases may with ⟨o, succeeds⟩ | may
      · cases succeeds
      · exact .failed may rfl rest
    · have ids : ∀ b : Context, b.id = c → { b with classes := b.classes.insert u o }.id = c :=
        fun _ here => here
      have made : (x.world.update c
          fun b => { b with classes := b.classes.insert u o }).class? c u = some o := by
        rw [World.class?, World.context?_update _ ids, found]
        simp [ClassCache.get?_insert]
      simp only [Call.resume]
      cases installs : (E.types u).installs with
      | true => exact .installing installs made rest
      | false => exact .settled made rfl rest
  · rcases r with thrown | _
    · rcases may with succeeds | may
      · cases succeeds
      · exact .failed may rfl rest
    · exact .settled (holds rfl) rfl rest

variable [Traced Obj]

theorem Stage.define {t u : TypeId} {todo : List (Task Obj)} {p : Progress}
    (keeps : x.KeepsClasses c) (rest : Descends E.types c t u todo)
    (parent : ∀ q, (E.types u).parent = some q →
      (∃ o, p.classObjects = .ok o ∧ x.world.class? c q = some o) ∨
        fails ∧ ∃ thrown, p.classObjects = .error thrown) :
    Stage E.types fails
      ((Task.defineClass c u).run ⟨E.types, E.alive x.state x.world.heap⟩ x.world p).world c t
      (((Task.defineClass c u).run ⟨E.types, E.alive x.state x.world.heap⟩ x.world p).first ++ todo)
      ((Task.defineClass c u).run ⟨E.types, E.alive x.state x.world.heap⟩ x.world p).progress := by
  have found := keeps.look_up u
  have same := keeps.class?_lookUpClass u
  simp only [Task.run]
  split
  · rename_i thrown given
    cases child : (E.types u).parent with
    | none =>
      rw [child] at given
      cases given
    | some q =>
      rw [child] at given
      rcases parent q child with ⟨o, settled, _⟩ | ⟨may, _⟩
      · rw [settled] at given
        cases given
      · exact .failed may rfl rest
  · rename_i prototype given
    generalize x.world.lookUpClass (E.alive x.state x.world.heap) c u = looked at found same
    obtain ⟨hit | hit, w⟩ := looked
    · refine .creating ((same u).trans found.symm) ?_ rest
      unfold World.Inherits
      cases child : (E.types u).parent with
      | none =>
        rw [child] at given
        exact (Except.ok.inj given).symm
      | some q =>
        rw [child] at given
        rcases parent q child with ⟨o, settled, kept⟩ | ⟨_, thrown, failed⟩
        · rw [settled] at given
          exact ⟨o, (same q).trans kept, (Except.ok.inj given).symm⟩
        · rw [failed] at given
          cases given
    · exact .settled ((same u).trans found.symm) rfl rest

theorem Stage.run {t : TypeId} {u : Task Obj} {todo : List (Task Obj)} {p : Progress}
    (keeps : x.KeepsClasses c) (stage : Stage E.types fails x.world c t (u :: todo) p)
    (no_call : ∀ k, u ≠ .call k) :
    Stage E.types fails (u.run ⟨E.types, E.alive x.state x.world.heap⟩ x.world p).world c t
      ((u.run ⟨E.types, E.alive x.state x.world.heap⟩ x.world p).first ++ todo)
      (u.run ⟨E.types, E.alive x.state x.world.heap⟩ x.world p).progress := by
  cases stage with
  | @seeking v _ _ rest =>
    have found := keeps.look_up v
    have same := keeps.class?_lookUpClass v
    simp only [Task.run]
    generalize x.world.lookUpClass (E.alive x.state x.world.heap) c v = looked at found same
    obtain ⟨hit | hit, w⟩ := looked
    · cases child : (E.types v).parent with
      | none => exact .rootless child rest
      | some q => exact .seeking (.child child rest)
    · exact .settled ((same v).trans found.symm) rfl rest
  | rootless root rest =>
    refine .define keeps rest ?_
    intro q child
    cases root.symm.trans child
  | creating | installing => exact absurd rfl (no_call _)
  | settled found brought rest =>
    cases rest with
    | child child rest =>
      refine .define keeps rest ?_
      intro q parent
      obtain rfl := Option.some.inj (child.symm.trans parent)
      exact Or.inl ⟨_, brought, found⟩
  | failed may brought rest =>
    cases rest with
    | child child rest => exact .define keeps rest fun q parent => Or.inr ⟨may, _, brought⟩

end Step

namespace Execution

variable [Traced Obj] {x y : Execution E} {fails : Prop} {c : ContextId}

theorem Stepped.staged (stepped : Stepped x y) (staged : x.Staged fails c)
    (keeps : x.KeepsClasses c) (holds : ∀ k, x.AtCode k → k.Holds E.types x.world c)
    (may : ∀ k r, x.Returns k r → k.makes? c ≠ none → k.Succeeds r ∨ fails) : y.Staged fails c := by
  cases stepped with
  | proceed at_code | command at_code => exact .code rfl (staged.await_of_code at_code)
  | @procedure k a _ _ p resume at_code turn =>
    have requests : x.Requests k p resume := ⟨_, _, _, at_code, turn⟩
    refine .bridge rfl ?_ (staged.await_of_code at_code)
    by_cases looks : ∃ t, p = .classObjects c t
    · obtain ⟨t, rfl⟩ := looks
      exact .lookUp rfl (.seeking .done)
    · refine .other (fun t here => looks ⟨t, here⟩) ?_
      intro u mem of_class
      rcases (brings_start requests mem).ofLookUp of_class with ⟨k', t, resume', asks⟩ | works | ends
      · exact looks ⟨t, requests.unique asks⟩
      · obtain ⟨_, next, _⟩ := works
        exact requests.atCode.not_atTask _ next
      · obtain ⟨_, _, returns, _⟩ := ends
        exact returns.not_requests requests
  | halt => exact .halted rfl
  | @finish k a _ _ r s below at_code turn caller =>
    have called : x.below ≠ [] := caller ▸ List.cons_ne_nil s below
    have returns : x.Returns k r := ⟨_, _, _, at_code, called, turn⟩
    have await := staged.await_of_code at_code
    rw [caller] at await
    refine .bridge rfl ?_ await.2
    cases await.1 with
    | lookUp looks makes rest =>
      have ends := may k r returns (makes ▸ Option.some_ne_none _)
      exact .lookUp looks (.resume _ keeps.valid makes (holds k returns.atCode) ends rest)
    | other no_lookUp tasks no_class =>
      refine .other no_lookUp ?_
      intro u mem of_class
      rcases List.mem_append.mp mem with new | old
      · rcases (brings_resume returns new).ofLookUp of_class with asks | works | ends
        · obtain ⟨_, _, _, requests⟩ := asks
          exact returns.not_requests requests
        · obtain ⟨_, next, _⟩ := works
          exact returns.atCode.not_atTask _ next
        · obtain ⟨k', _, ends, makes⟩ := ends
          obtain ⟨_, top⟩ := returns.atCode
          obtain ⟨_, top'⟩ := ends.atCode
          obtain ⟨same, _⟩ := List.cons.inj (top.symm.trans top')
          rw [← Item.code.inj same] at makes
          exact makes no_class
      · exact tasks u old of_class
  | ended at_bridge done => exact .code rfl (staged.of_bridge at_bridge).2
  | @called s k todo at_bridge next =>
    obtain ⟨stage, below⟩ := staged.of_bridge at_bridge
    refine .code rfl ⟨?_, below⟩
    cases stage with
    | lookUp looks stage =>
      rw [next] at stage
      generalize s.progress = p at stage
      cases stage with
      | creating missing inherits rest => exact .lookUp looks (if_pos rfl) rest
      | installing installs made rest => exact .lookUp looks (if_pos rfl) rest
      | settled _ _ rest | failed _ _ rest => cases rest
    | other no_lookUp tasks =>
      have here : ¬ Task.OfLookUp c (.call k) := tasks _ (next ▸ List.mem_cons_self)
      exact .other no_lookUp (fun u mem => tasks u (next ▸ List.mem_cons_of_mem _ mem))
        (Decidable.of_not_not here)
  | @worked s t todo at_bridge next no_call =>
    obtain ⟨stage, below⟩ := staged.of_bridge at_bridge
    have here := atTask_of_bridge at_bridge next
    refine .bridge rfl ?_ below
    cases stage with
    | lookUp looks stage => exact .lookUp looks ((next ▸ stage).run keeps no_call)
    | other no_lookUp tasks =>
      refine .other no_lookUp ?_
      intro u mem of_class
      rcases List.mem_append.mp mem with new | old
      · rcases (brings_task here no_call new).ofLookUp of_class with asks | works | ends
        · obtain ⟨_, _, _, requests⟩ := asks
          exact requests.atCode.not_atTask _ here
        · obtain ⟨t', next', no_call', of_class'⟩ := works
          obtain ⟨_, top⟩ := here
          obtain ⟨_, top'⟩ := next'
          obtain ⟨same, _⟩ := List.cons.inj (top.symm.trans top')
          rw [← Item.task.inj same] at of_class'
          exact tasks t (next ▸ List.mem_cons_self) of_class'
        · obtain ⟨_, _, returns, _⟩ := ends
          exact returns.atCode.not_atTask _ here
      · exact tasks u (next ▸ List.mem_cons_of_mem _ old) of_class

end Execution

end HostBridge
