import HostBridge.Host.Facility
/-!
# The queue of fires

Posted fires wait here until the script thread pumps them. Whoever wants to wait for fires looks at
the queue, and pumps if there is anything in it. Else it listens: it takes the permit that the last
post may have left and looks again, or it falls asleep until a post wakes it. A post that wakes
nobody leaves a permit; there is never more than one, and it may be stale, its fire pumped by
someone else.
-/

namespace HostBridge

inductive Waiter
  | absent
  | looking
  | listening
  | asleep
  deriving DecidableEq, Repr, Inhabited

structure FireQueue where
  waiting : List Fire := []
  permit : Bool := false
  waiter : Waiter := .absent
  deriving DecidableEq, Repr, Inhabited

namespace FireQueue

def length (q : FireQueue) : Nat := q.waiting.length

def isEmpty (q : FireQueue) : Bool := q.waiting.isEmpty

/-- Posts fires one after the other: the first wakes a sleeper, and every other leaves a permit. -/
def post (q : FireQueue) : List Fire → FireQueue
  | [] => q
  | fires@(_ :: more) =>
    let wakes := q.waiter = .asleep
    { waiting := q.waiting ++ fires
      permit := q.permit || !wakes || !more.isEmpty
      waiter := if wakes then .looking else q.waiter }

theorem post_waiting (q : FireQueue) (fires : List Fire) :
    (q.post fires).waiting = q.waiting ++ fires := by
  cases fires with
  | nil => exact (List.append_nil _).symm
  | cons => rfl

def drained (q : FireQueue) : FireQueue := { q with waiting := [] }

def step (q : FireQueue) : FireQueue × List Fire :=
  match q.waiter with
  | .looking =>
    if q.isEmpty then ({ q with waiter := .listening }, [])
    else ({ q.drained with waiter := .absent }, q.waiting)
  | .listening =>
    if q.permit then ({ q with permit := false, waiter := .looking }, [])
    else ({ q with waiter := .asleep }, [])
  | .absent => (q, [])
  | .asleep => (q, [])

/-- The steps of a waiter that has found the queue empty and falls asleep: a permit makes it look
once more. -/
def listen (q : FireQueue) : FireQueue := { q with permit := false, waiter := .asleep }

def leave (q : FireQueue) : FireQueue := { q with waiter := .absent }

end FireQueue

end HostBridge
