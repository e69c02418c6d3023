import HostBridge.Proofs.Timers.Firing
/-!
# After the disposal of a context

Nothing begins in a disposed context: none of its timers fires, and no drain, no frame pass and no
batch of events is started. What is in progress at its disposal goes on, though, so that script of
it may still start: the next event of a batch, the next job of a drain, and a request that the
embedder registers in the disposed context before a frame pass comes to its id.
-/

namespace HostBridge

variable {Obj τ : Type}

/-- The call runs script of the context: a callback, a promise job or the handlers of an event. -/
def Call.ScriptOf (c : ContextId) : Call Obj → Prop
  | function c' .. => c' = c
  | native c' .. => c' = c
  | job c' => c' = c
  | event c' .. => c' = c
  | _ => False

theorem Task.scriptOf_frameCall {c c' : ContextId} {e : Entry FrameId FrameRequest}
    {timestamp : Double} : (frameCall c' e timestamp : Call Obj).ScriptOf c ↔ c' = c := by
  unfold frameCall
  split <;> exact Iff.rfl

theorem Context.dispose_valid (a : Context) : a.dispose.valid = false := by
  cases valid : a.valid <;> simp [dispose, valid]

variable [Facility τ] {E : Embedder Obj τ}

theorem Command.Disposes.context?_perform {w : World Obj τ} {c : ContextId}
    {command : Command Obj τ} (disposes : command.Disposes w c) :
    (command.perform w).world.context? c = (w.context? c).map Context.dispose := by
  cases command with
  | dispose c' =>
    obtain ⟨rfl, live⟩ := disposes
    have found : w.find c' = .ok c' := if_pos (by simpa [World.isLive] using live)
    have each := w.context?_disposeContext c' c'
    simp only [if_true] at each
    simp only [perform, found]
    exact each
  | close =>
    have each := w.context?_close c
    simp only [show c ∈ w.live from disposes, if_true] at each
    exact each
  | disposeContext c' =>
    obtain rfl : c' = c := disposes
    have each := w.context?_disposeContext c' c'
    simp only [if_true] at each
    exact each
  | allocate | write | retain | setThreshold | act | post | listen | leave | createContext
  | setTimer | clearTimer | installTimer | removeTimer | requestFrame | registerFrame | cancelFrame
  | trackUnhandled | trackHandled | reclaim => cases disposes

namespace Execution

variable {x y : Execution E} {c : ContextId} {m n : Nat}

theorem Performs.disposed [Traced Obj] {command : Command Obj τ}
    (performs : (x.run n).Performs command) (disposes : command.Disposes (x.run n).world c)
    {a : Context} (found : (x.run n).world.context? c = some a) : (x.run (n + 1)).Disposed c := by
  refine ⟨a.dispose, ?_, a.dispose_valid⟩
  rw [performs.run_succ, disposes.context?_perform, found, Option.map_some]

theorem Changes.frame {a b : Context} (changes : x.Changes c a b) (invalid : b.valid = false)
    {e : Entry FrameId FrameRequest} (active : e ∈ b.frames.active) :
    a.valid = false ∧ (e ∈ a.frames.active ∨ x.Performs (.registerFrame c e.key e.item)) := by
  cases changes with
  | disposed =>
    cases valid : a.valid with
    | false =>
      rw [Context.dispose, if_neg (by simp [valid])] at active
      exact ⟨rfl, Or.inl active⟩
    | true =>
      rw [Context.dispose, if_pos valid] at active
      cases active
  | frameRequested =>
    have invalid : a.valid = false := invalid
    rw [Context.requestFrame] at active
    simp only [invalid] at active
    exact ⟨invalid, Or.inl active⟩
  | frameRegistered performs =>
    refine ⟨invalid, ?_⟩
    rcases Registry.mem_accept active with old | ⟨_, rfl⟩
    · exact Or.inl old
    · exact Or.inr performs
  | frameCancelled | frameTaken => exact ⟨invalid, Or.inl (Registry.mem_of_mem_remove active)⟩
  | timerSet | timerInstalled | timerRemoved | timerFired | levelSet | timerRetired
  | rejectionTracked | handlerTracked | batchTaken | drainBegun | drainEnded | classesKept
  | reclaimed | kept => exact ⟨invalid, Or.inl active⟩

variable [Traced Obj]

/-- A disposal abandons all requests, so that one that is active has been registered since. -/
theorem registered_of_disposed (blank : x.Blank) {a : Context}
    (found : (x.run n).world.context? c = some a) (invalid : a.valid = false)
    {e : Entry FrameId FrameRequest} (active : e ∈ a.frames.active) :
    ∃ l < n, (x.run l).Disposed c ∧ (x.run l).Performs (.registerFrame c e.key e.item) := by
  induction n generalizing a with
  | zero =>
    rw [run_zero, World.context?, blank.no_context] at found
    cases found
  | succ n ih =>
    have outcome := (x.run_rewrites n).outcome c
    rw [found] at outcome
    generalize before : (x.run n).world.context? c = o at outcome
    cases outcome with
    | created => cases invalid
    | @changed d _ changes =>
      obtain ⟨was_invalid, old | performs⟩ := changes.frame invalid active
      · obtain ⟨l, lt, registers⟩ := ih before was_invalid old
        exact ⟨l, Nat.lt_succ_of_lt lt, registers⟩
      · exact ⟨n, Nat.lt_succ_self n, ⟨d, before, was_invalid⟩, performs⟩

theorem RunsFrame.registered (blank : x.Blank) (disposed : (x.run n).Disposed c)
    {e : Entry FrameId FrameRequest} {timestamp : Double}
    (runs : (x.run n).RunsFrame c e timestamp) :
    ∃ l < n, (x.run l).Disposed c ∧ (x.run l).Performs (.registerFrame c e.key e.item) := by
  obtain ⟨a, found, invalid⟩ := disposed
  have active := runs.active
  rw [World.request?, found] at active
  exact registered_of_disposed blank found invalid (Registry.mem_of_entry active)

omit [Traced Obj] in
/-- A step brings script of a disposed context in a drain, or for a frame request, only. -/
theorem Brings.script {k : Call Obj} (brings : x.Brings (.call k)) (script : k.ScriptOf c)
    (disposed : x.Disposed c) : k = .job c ∧ x.Continues c ∨
      ∃ e timestamp, x.RunsFrame c e timestamp ∧ k = Task.frameCall c e timestamp := by
  have not_valid : x.world.isValid c ≠ true := by simp [disposed.not_valid]
  cases brings with
  | nextJob continues =>
    obtain rfl : _ = c := script
    exact Or.inl ⟨rfl, continues⟩
  | @frameCall c' e timestamp runs =>
    obtain rfl : c' = c := Task.scriptOf_frameCall.mp script
    exact Or.inr ⟨e, timestamp, runs, rfl⟩
  | firstJob _ valid =>
    obtain rfl : _ = c := script
    exact absurd valid not_valid
  | event takes =>
    obtain rfl : _ = c := script
    exact absurd takes.valid not_valid
  | timerCall fires =>
    obtain rfl : _ = c := script
    exact absurd (World.ready?_valid fires.ready) not_valid
  | dropHook | rootSet | rootSetDone | exception | createClass | install | typeError =>
    exact nomatch script

/-- A promise job of the context runs or is about to. -/
def HasJob (x : Execution E) (c : ContextId) : Prop :=
  .task (.call (.job c)) ∈ x.stack ∨ .code (.job c) ∈ x.stack

omit [Traced Obj] in
theorem Continues.hasJob (continues : x.Continues c) : x.HasJob c := by
  obtain ⟨r, returns⟩ := continues
  obtain ⟨_, top⟩ := returns.atCode
  rw [HasJob, top]
  exact Or.inr List.mem_cons_self

theorem Rewrites.hasJob (rewrites : Rewrites x y) (disposed : x.Disposed c) (later : y.HasJob c) :
    x.HasJob c := by
  rcases later with waits | runs
  · rcases rewrites.mem_cases waits with old | ⟨_, same, brings⟩ | ⟨_, same, _⟩
    · exact Or.inl old
    · obtain rfl := Item.task.inj same
      rcases brings.script rfl disposed with ⟨_, continues⟩ | ⟨e, timestamp, _, same⟩
      · exact continues.hasJob
      · have callback : (Call.job c : Call Obj).IsCallback :=
          same ▸ Task.frameCall_isCallback c e timestamp
        exact nomatch callback
    · exact nomatch same
  · rcases rewrites.mem_cases runs with old | ⟨_, same, _⟩ | ⟨_, same, next⟩
    · exact Or.inr old
    · exact nomatch same
    · obtain rfl := Item.code.inj same
      obtain ⟨_, top⟩ := next
      rw [HasJob, top]
      exact Or.inl List.mem_cons_self

theorem hasJob_of_le (disposed : (x.run m).Disposed c) (le : m ≤ n) (later : (x.run n).HasJob c) :
    (x.run m).HasJob c := by
  induction le with
  | refl => exact later
  | @step n le ih => exact ih ((x.run_rewrites n).hasJob (disposed.mono le) later)

theorem frame_mem_of_le (disposed : (x.run m).Disposed c) (le : m ≤ n) {id : FrameId}
    {timestamp : Double} (mem : .task (.frame c id timestamp) ∈ (x.run n).stack) :
    .task (.frame c id timestamp) ∈ (x.run m).stack := by
  rcases brings_of_mem le mem with before | ⟨l, after, _, brings⟩
  · exact before
  · cases brings with
    | frame _ valid =>
      rw [(disposed.mono after).not_valid] at valid
      exact nomatch valid

/-- From the `m`th state on and before the `n`th, no script of the context starts. -/
def Silent (x : Execution E) (c : ContextId) (m n : Nat) : Prop :=
  ∀ l, m ≤ l → l < n → ∀ k : Call Obj, k.ScriptOf c → ¬ (x.run l).AtTask (.call k)

/-- What is in progress for the context at the `m`th state, where it is disposed, leads to no script
before the `n`th. -/
structure NothingLeft (x : Execution E) (c : ContextId) (m n : Nat) : Prop where
  no_call : ∀ k : Call Obj, k.ScriptOf c → .task (.call k) ∉ (x.run m).stack
  no_job : .code (.job c) ∈ (x.run m).stack → ∀ l, m ≤ l → l < n → ¬ (x.run l).Continues c
  no_frame : ∀ (e : Entry FrameId FrameRequest) (timestamp : Double),
    .task (.frame c e.key timestamp) ∈ (x.run m).stack → ∀ j l, j < l → m ≤ l → l < n →
    (x.run j).Disposed c → (x.run j).Performs (.registerFrame c e.key e.item) →
    ¬ (x.run l).RunsFrame c e timestamp

theorem NothingLeft.not_brings (blank : x.Blank) (disposed : (x.run m).Disposed c)
    (nothing : x.NothingLeft c m n) {k : Call Obj} (script : k.ScriptOf c) {l : Nat} (le : m ≤ l)
    (lt : l < n) : ¬ (x.run l).Brings (.call k) := by
  intro brings
  have still := disposed.mono le
  rcases brings.script script still with ⟨rfl, continues⟩ | ⟨e, timestamp, runs, _⟩
  · rcases hasJob_of_le disposed le continues.hasJob with waits | runs
    · exact nothing.no_call (.job c) rfl waits
    · exact nothing.no_job runs l le lt continues
  · obtain ⟨_, top⟩ := runs.next
    have passes := frame_mem_of_le disposed le (top ▸ List.mem_cons_self)
    obtain ⟨j, before, was_disposed, performs⟩ := runs.registered blank still
    exact nothing.no_frame e timestamp passes j l before le lt was_disposed performs runs

theorem NothingLeft.silent (blank : x.Blank) (disposed : (x.run m).Disposed c)
    (nothing : x.NothingLeft c m n) : x.Silent c m n := by
  intro l le lt k script next
  obtain ⟨_, top⟩ := next
  rcases brings_of_mem le (top ▸ List.mem_cons_self) with waits | ⟨j, after, before, brings⟩
  · exact nothing.no_call k script waits
  · exact nothing.not_brings blank disposed script after (Nat.lt_trans before lt) brings

theorem Silent.not_mem (silent : x.Silent c m n) (done : (x.run n).stack = []) {k : Call Obj}
    (script : k.ScriptOf c) {l : Nat} (le : m ≤ l) (before : l ≤ n) :
    .task (.call k) ∉ (x.run l).stack := by
  intro waits
  rcases atTask_of_mem waits before with still | ⟨j, after, lt, next⟩
  · rw [done] at still
    exact nomatch still
  · exact silent j (Nat.le_trans le after) lt k script next

theorem Continues.waits (continues : (x.run n).Continues c) :
    .task (.call (.job c)) ∈ (x.run (n + 1)).stack := by
  obtain ⟨r, returns⟩ := continues
  obtain ⟨p, rest, _, stack⟩ := returns.stack
  rw [stack]
  rcases r with thrown | _ <;> simp [Call.resume]

theorem Silent.nothingLeft (silent : x.Silent c m n) (done : (x.run n).stack = []) (le : m ≤ n) :
    x.NothingLeft c m n := by
  constructor
  · exact fun k script => silent.not_mem done script (Nat.le_refl m) le
  · intro _ l after lt continues
    exact silent.not_mem done (show (Call.job c).ScriptOf c from rfl) (Nat.le_succ_of_le after) lt
      continues.waits
  · intro e timestamp _ j l _ after lt _ _ runs
    obtain ⟨_, _, stack⟩ := runs.stack (x.run_rewrites l)
    exact silent.not_mem done (Task.scriptOf_frameCall.mpr rfl) (Nat.le_succ_of_le after) lt
      (stack ▸ List.mem_cons_self)

/-- A disposed context is silent if what was in progress at its disposal leads to no script, and
when nothing is left to do it is so in that case only. -/
theorem silent_iff_nothing_left (blank : x.Blank) (disposed : (x.run m).Disposed c) (le : m ≤ n) :
    (x.NothingLeft c m n → x.Silent c m n) ∧
      ((x.run n).stack = [] → (x.Silent c m n ↔ x.NothingLeft c m n)) := by
  have silent : x.NothingLeft c m n → x.Silent c m n := (·.silent blank disposed)
  exact ⟨silent, fun done => ⟨(·.nothingLeft done le), silent⟩⟩

def disposeInFrame : Call (List Handle) → List (Order (List Handle) Manual)
  | .function c (.frame ⟨1⟩ _) .. => [.command (.disposeContext c)]
  | _ => []

def disposedInFrame : Execution (plan disposeInFrame) :=
  planned {} _ [.command (.createContext none), .command (.setTimer ⟨1⟩ .repeating .null .zero []),
    .command (.requestFrame ⟨1⟩ (.script .null)), .command (.requestFrame ⟨1⟩ (.native 0)),
    .command (.act .expireAll), .procedure (.frames ⟨1⟩ ⟨0⟩), .procedure .pump,
    .procedure (.drain ⟨1⟩)]

theorem disposed_in_frame_is_silent : (disposedInFrame.run 10).Disposed ⟨1⟩ ∧
    .task (.frame ⟨1⟩ ⟨2⟩ ⟨0⟩) ∈ (disposedInFrame.run 10).stack ∧
    disposedInFrame.Silent ⟨1⟩ 10 22 := by
  have performs : (disposedInFrame.run 9).Performs (.disposeContext ⟨1⟩) := plan_performs rfl
  have disposed : (disposedInFrame.run 10).Disposed ⟨1⟩ := performs.disposed rfl rfl
  have here : (disposedInFrame.run 10).stack =
      [.code (.function ⟨1⟩ (.frame ⟨1⟩ 0) .null .undefined [.number ⟨0⟩]), .task (.drain ⟨1⟩),
        .task (.frame ⟨1⟩ ⟨2⟩ ⟨0⟩), .code .session] := rfl
  have abandoned : ∀ l < 22, 10 ≤ l → (disposedInFrame.run l).world.request? ⟨1⟩ ⟨2⟩ = none := by
    decide +kernel
  refine ⟨disposed, by simp [here], ?_⟩
  apply (silent_iff_nothing_left ⟨rfl, rfl⟩ disposed (by decide)).1
  constructor
  · simp [here]
  · simp [here]
  · intro e timestamp passes j l _ after before _ _ runs
    obtain ⟨named, _⟩ : e.key = ⟨2⟩ ∧ timestamp = ⟨0⟩ := by simpa [here] using passes
    have active := runs.active
    rw [named, abandoned l before after] at active
    exact nomatch active

def disposeInHandler : Call (List Handle) → List (Order (List Handle) Manual)
  | .event c _ _ => [.command (.disposeContext c)]
  | _ => []

def disposedInHandler : Execution (plan disposeInHandler) :=
  planned {} _ [.command (.createContext none), .command (.trackUnhandled ⟨1⟩ ⟨0, 0⟩ .null),
    .command (.trackUnhandled ⟨1⟩ ⟨1, 0⟩ .null), .procedure (.drain ⟨1⟩)]

/-- The second event of the batch is dispatched all the same. -/
theorem disposed_in_handler_is_not_silent : disposedInHandler.Blank ∧
    (disposedInHandler.run 11).Disposed ⟨1⟩ ∧ ¬ disposedInHandler.Silent ⟨1⟩ 11 17 := by
  have performs : (disposedInHandler.run 10).Performs (.disposeContext ⟨1⟩) := plan_performs rfl
  refine ⟨⟨rfl, rfl⟩, performs.disposed rfl rfl, ?_⟩
  intro silent
  have next : (disposedInHandler.run 12).AtTask
      (.call (.event ⟨1⟩ .unhandledRejection ⟨⟨1, 0⟩, .null, true, 1⟩)) := ⟨_, rfl⟩
  apply silent 12 (by decide) (by decide) _ ?_ next
  rfl

end Execution

end HostBridge
