import HostBridge.Host.Manual
import HostBridge.Proofs.Execution.Run
/-!
# Plans

An embedder without a script engine. Its code follows a list of orders, whatever the answers are,
and returns the plainest reply.
-/

namespace HostBridge

variable {Obj τ : Type} [Facility τ]

inductive Order (Obj τ : Type) [Facility τ]
  | command (c : Command Obj τ)
  | procedure (p : Procedure)

/-- Nothing was thrown, no job was left and there was nothing to trace; but no class is made. -/
def Call.plainReply : (k : Call Obj) → k.Reply
  | .session => ()
  | .function .. => .ok .undefined
  | .native .. => ()
  | .job _ => none
  | .report .. => ()
  | .typeError .. => Value.undefined
  | .event .. => ()
  | .createClass .. => .error .undefined
  | .install .. => .ok ()
  | .traceRoots _ => []
  | .traceComplete _ => ()
  | .drop .. => ()

def plan (body : Call Obj → List (Order Obj τ)) : Embedder Obj τ where
  State := Unit
  Activity := List (Order Obj τ)
  Note := Empty
  types _ := { className := "" }
  alive _ heap x := heap.alive x
  enter := body
  next k _ _ orders := match orders with
    | [] => ⟨(), [], .finish k.plainReply⟩
    | .command c :: rest => ⟨(), [], .command c fun _ => rest⟩
    | .procedure p :: rest => ⟨(), [], .procedure p fun _ => rest⟩

namespace Execution

variable {body : Call Obj → List (Order Obj τ)} {x : Execution (plan body)} {k : Call Obj}

def planned (facility : τ) (body : Call Obj → List (Order Obj τ)) (orders : List (Order Obj τ)) :
    Execution (plan body) :=
  start { heap := .withThreshold 1024, facility } () orders

theorem plan_performs {c : Command Obj τ} {rest : List (Order Obj τ)}
    (at_code : x.focus = .code k (.command c :: rest)) : x.Performs c :=
  ⟨k, _, (), [], fun _ => rest, at_code, rfl⟩

theorem plan_requests {p : Procedure} {rest : List (Order Obj τ)}
    (at_code : x.focus = .code k (.procedure p :: rest)) : x.Requests k p fun _ => rest :=
  ⟨_, (), [], at_code, rfl⟩

def lastRequest? (x : Execution (plan body)) : Option (Call Obj × Procedure) :=
  match x.focus with
  | .code k ([.procedure p] : List (Order Obj τ)) => some (k, p)
  | _ => none

theorem plan_requests_last {p : Procedure} (last : x.lastRequest? = some (k, p)) :
    x.Requests k p fun _ => [] := by
  unfold lastRequest? at last
  split at last
  case h_1 at_code =>
    cases last
    exact plan_requests at_code
  case h_2 => cases last

theorem plan_performed {c : Command Obj τ} (performs : x.Performs c) :
    ∃ (k : Call Obj) (rest : List (Order Obj τ)), x.focus = .code k (.command c :: rest) := by
  rcases performs with ⟨k, orders, state, notes, resume, at_code, turn⟩
  have move := congrArg Turn.move turn
  cases orders with
  | nil => exact nomatch move
  | cons order rest =>
    cases order with
    | command d =>
      have same : d = c := (Move.command.inj move).1
      rw [same] at at_code
      exact ⟨k, rest, at_code⟩
    | procedure q => exact nomatch move

theorem not_performs_of_no_orders (at_code : x.focus = .code k ([] : List (Order Obj τ)))
    {c : Command Obj τ} : ¬ x.Performs c := by
  intro performs
  rcases plan_performed performs with ⟨k', rest, ordered⟩
  have same := (Focus.code.inj (at_code.symm.trans ordered)).2
  exact nomatch same

theorem plan_requested {p : Procedure} {resume : p.Answer → (plan body).Activity}
    (requests : x.Requests k p resume) :
    ∃ rest : List (Order Obj τ), x.focus = .code k (.procedure p :: rest) := by
  rcases requests with ⟨orders, state, notes, at_code, turn⟩
  have move := congrArg Turn.move turn
  cases orders with
  | nil => exact nomatch move
  | cons order rest =>
    cases order with
    | command c => exact nomatch move
    | procedure q =>
      have same : q = p := (Move.procedure.inj move).1
      rw [same] at at_code
      exact ⟨rest, at_code⟩

theorem not_requests_of_no_orders (at_code : x.focus = .code k ([] : List (Order Obj τ)))
    {k' : Call Obj} {p : Procedure} {resume : p.Answer → (plan body).Activity} :
    ¬ x.Requests k' p resume := by
  intro requests
  rcases plan_requested requests with ⟨rest, ordered⟩
  have same := (Focus.code.inj (at_code.symm.trans ordered)).2
  exact nomatch same

def order? (x : Execution (plan body)) : Option (Order Obj τ) :=
  match x.focus with
  | .code _ (orders : List (Order Obj τ)) => orders.head?
  | _ => none

theorem Performs.order? {c : Command Obj τ} (performs : x.Performs c) :
    x.order? = some (.command c) := by
  obtain ⟨k, rest, at_code⟩ := plan_performed performs
  simp only [Execution.order?, at_code, List.head?_cons]

theorem Requests.order? {p : Procedure} {resume : p.Answer → (plan body).Activity}
    (requests : x.Requests k p resume) : x.order? = some (.procedure p) := by
  obtain ⟨rest, at_code⟩ := plan_requested requests
  simp only [Execution.order?, at_code, List.head?_cons]

end Execution

end HostBridge
