import HostBridge.Host.Clock
import HostBridge.Host.Manual
/-!
# A choice of facilities

Either facility, so that one embedder can run with both. An act of the other facility does nothing.
-/

namespace HostBridge

/-- Up to 5 milliseconds late an alarm makes up for what it has missed, and keeps its rhythm. Later it
rings once, and a new rhythm begins. -/
def Lateness.delayed : Lateness where
  rings due period now := if due + 5 < now then 1 else (now - due) / period + 1
  due due period now :=
    if due + 5 < now then now + period else due + ((now - due) / period + 1) * period

inductive AnyFacility
  | manual (m : Manual)
  | clock (c : Clock .delayed)
  deriving Repr

namespace AnyFacility

def manual? : AnyFacility → Option Manual
  | manual m => some m
  | clock _ => none

def clock? : AnyFacility → Option (Clock .delayed)
  | manual _ => none
  | clock c => some c

inductive Act
  | manual (a : Manual.Act)
  | clock (a : Clock.Act)
  deriving DecidableEq, Repr

instance : Facility AnyFacility where
  Act := Act
  schedule f t delay repeats := match f with
    | manual m => manual (m.schedule t delay repeats)
    | clock c => clock (c.schedule t delay repeats)
  cancel f t := match f with
    | manual m => manual (m.cancel t)
    | clock c => clock (c.cancel t)
  perform f a := match f, a with
    | manual m, .manual a =>
      let (m, fires) := Facility.perform m a
      (manual m, fires)
    | clock c, .clock a =>
      let (c, fires) := Facility.perform c a
      (clock c, fires)
    | f, _ => (f, [])

end AnyFacility

end HostBridge
