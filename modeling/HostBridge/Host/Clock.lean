import HostBridge.Host.Facility
/-!
# The clock facility

Timers on a clock of whole milliseconds. Every timer that is scheduled starts an alarm of its own,
and a table says which alarm times which target. An alarm rings when the clock has reached the
instant it is due. One that rings once strikes its target from the table and ends; a repeating one
is then due again one period later, and a period is at least a millisecond. To cancel a target or
to schedule it again aborts the alarm that the table has for it.
-/

namespace HostBridge

/-- What a repeating alarm does that is late, which is not for the facility to say: how often it rings
at once, and when it is due next. -/
structure Lateness where
  rings (due period now : Nat) : Nat
  due (due period now : Nat) : Nat

structure Alarm where
  number : Nat
  target : Target
  due : Nat
  period : Option Nat
  deriving DecidableEq, Repr

structure Chime where
  instant : Nat
  alarm : Nat
  target : Target
  deriving DecidableEq, Repr

structure Clock (late : Lateness) where
  now : Nat := 0
  alarms : List Alarm := []
  table : List (Target × Nat) := []
  started : Nat := 0
  deriving DecidableEq, Repr, Inhabited

def Chime.fire (x : Chime) : Fire := ⟨x.target, none⟩

namespace Alarm

variable (late : Lateness) (a : Alarm) (now : Nat)

def rings : Nat :=
  if now < a.due then 0
  else match a.period with
    | none => 1
    | some p => if now = a.due then 1 else late.rings a.due p now

def chimes : List Chime := List.replicate (a.rings late now) ⟨now, a.number, a.target⟩

def after : Option Alarm :=
  if now < a.due then some a
  else a.period.map fun p => { a with due := if now = a.due then a.due + p else late.due a.due p now }

end Alarm

namespace Clock

variable {late : Lateness}

def number? (c : Clock late) (t : Target) : Option Nat := (c.table.find? (·.1 = t)).map (·.2)

def struck (c : Clock late) (ts : List Target) : List (Target × Nat) := c.table.filter (·.1 ∉ ts)

def abort (alarms : List Alarm) (n : Option Nat) : List Alarm :=
  alarms.filter fun a => n ≠ some a.number

def pending (c : Clock late) : Nat := c.table.length

def cancel (c : Clock late) (t : Target) : Clock late :=
  { c with alarms := abort c.alarms (c.number? t), table := c.struck [t] }

def newAlarm (c : Clock late) (t : Target) (delay : Duration) (repeats : Bool) : Alarm where
  number := c.started
  target := t
  due := c.now + delay.millis
  period := if repeats then some (max delay.millis 1) else none

def schedule (c : Clock late) (t : Target) (delay : Duration) (repeats : Bool) : Clock late :=
  let begun := c.newAlarm t delay repeats
  { c with
    alarms := abort (c.alarms ++ [begun]) (c.number? t)
    table := c.struck [t] ++ [(t, begun.number)]
    started := c.started + 1 }

def inOrder (c : Clock late) : List Alarm := c.alarms.mergeSort fun a b => decide (a.due ≤ b.due)

def ending (c : Clock late) (now : Nat) : List Target :=
  (c.alarms.filter fun a => a.after late now = none).map Alarm.target

def ring (c : Clock late) : Clock late × List Chime :=
  ({ c with
      alarms := c.alarms.filterMap (·.after late c.now)
      table := c.struck (c.ending c.now) },
    c.inOrder.flatMap (·.chimes late c.now))

def nextDue (c : Clock late) : Option Nat := (c.alarms.map Alarm.due).min?

def jump (c : Clock late) (instant : Nat) : Clock late × List Chime := { c with now := instant }.ring

def sleepUntil (c : Clock late) (limit : Nat) : Clock late × List Chime :=
  match c.nextDue with
  | none => c.jump limit
  | some due =>
    if _h : c.now < due ∧ due ≤ limit then
      let rung := c.jump due
      let slept := sleepUntil rung.1 limit
      (slept.1, rung.2 ++ slept.2)
    else c.jump limit
termination_by limit - c.now
decreasing_by
  show limit - due < limit - c.now
  omega

def sleep (c : Clock late) (d : Duration) : Clock late × List Chime :=
  let rung := c.ring
  let slept := rung.1.sleepUntil (c.now + d.millis)
  (slept.1, rung.2 ++ slept.2)

/-- Moves the clock to the first due instant before `limit` and rings. Without one it only moves to
`limit`: what is due just then rings too late for who has waited. -/
def waitUntil (c : Clock late) (limit : Nat) : Clock late × List Chime :=
  match c.nextDue with
  | some due => if due < limit then c.jump (max due c.now) else ({ c with now := limit }, [])
  | none => ({ c with now := limit }, [])

inductive Act
  | settle
  | sleep (d : Duration)
  | advance (d : Duration)
  | wait (d : Duration)
  deriving DecidableEq, Repr

def act (c : Clock late) : Act → Clock late × List Chime
  | .settle => c.ring
  | .sleep d => c.sleep d
  | .advance d => c.jump (c.now + d.millis)
  | .wait d => c.waitUntil (c.now + d.millis)

instance : Facility (Clock late) where
  Act := Act
  schedule := schedule
  cancel := cancel
  perform c a :=
    let (c, chimes) := c.act a
    (c, chimes.map Chime.fire)

end Clock

end HostBridge
