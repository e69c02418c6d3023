import HostBridge.Host.Facility
/-!
# The manual facility

Nothing expires by itself: the embedder expires a target, with or without an error, and the fire is
posted if the target is scheduled. A one-shot timer is scheduled no more after its fire.
-/

namespace HostBridge

structure Scheduled where
  target : Target
  delay : Duration
  repeats : Bool
  deriving DecidableEq, Repr

/-- The scheduled timers, at most one for each target, in the order of their first scheduling. -/
structure Manual where
  scheduled : List Scheduled := []
  deriving DecidableEq, Repr, Inhabited

namespace Manual

def get? (m : Manual) (t : Target) : Option Scheduled := m.scheduled.find? (·.target = t)

def isScheduled (m : Manual) (t : Target) : Bool := m.scheduled.any (·.target = t)

def targets (m : Manual) : List Target := m.scheduled.map Scheduled.target

/-- A target that is scheduled already keeps its place. -/
def schedule (m : Manual) (t : Target) (delay : Duration) (repeats : Bool) : Manual :=
  let entry := ⟨t, delay, repeats⟩
  if m.isScheduled t then ⟨m.scheduled.map fun s => if s.target = t then entry else s⟩
  else ⟨m.scheduled ++ [entry]⟩

def cancel (m : Manual) (t : Target) : Manual := ⟨m.scheduled.eraseP (·.target = t)⟩

def expire (m : Manual) (f : Fire) : Manual × List Fire :=
  match m.get? f.target with
  | some s => (if s.repeats then m else m.cancel f.target, [f])
  | none => (m, [])

def expireEach (m : Manual) : List Target → Manual × List Fire
  | [] => (m, [])
  | t :: rest =>
    let (m, now) := m.expire ⟨t, none⟩
    let (m, later) := expireEach m rest
    (m, now ++ later)

def expireAll (m : Manual) : Manual × List Fire := m.expireEach m.targets

inductive Act
  | expire (f : Fire)
  | expireAll
  deriving DecidableEq, Repr

instance : Facility Manual where
  Act := Act
  schedule := schedule
  cancel := cancel
  perform m
    | .expire f => m.expire f
    | .expireAll => m.expireAll

end Manual

end HostBridge
