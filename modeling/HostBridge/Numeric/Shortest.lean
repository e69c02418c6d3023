import HostBridge.Numeric.Double
/-!
# Shortest decimal text

The fewest digits that read back as the same double and, of those, the ones nearest to it. The reals
that round to `m * 2 ^ q` form an interval around it, whose ends belong to it exactly when `m` is
even; the search goes through ever finer decimal grids and takes the first with a point in the
interval.
-/

namespace HostBridge

structure Decimal where
  digits : Nat
  exponent : Int
  deriving DecidableEq, Repr

inductive Tie
  | up
  | toEven
  deriving DecidableEq, Repr

def Tie.down : Tie → Nat → Bool
  | .up, _ => false
  | .toEven, d => d % 2 = 0

namespace Shortest

/-- The reals that round to a double: `low / unit` to `high / unit` around `value / unit`. -/
structure Interval where
  low : Nat
  value : Nat
  high : Nat
  unit : Nat
  closed : Bool

/-- The gap below a power of two is half the gap above it. -/
def interval (m : Nat) (q : Int) : Interval :=
  let below := if m = Nat.pow 2 52 ∧ q ≠ -1074 then 1 else 2
  let scale := Nat.pow 2 (q - 2).toNat
  { low := (4 * m - below) * scale, value := 4 * m * scale, high := (4 * m + 2) * scale
    unit := Nat.pow 2 (2 - q).toNat, closed := m % 2 = 0 }

def Interval.holds (i : Interval) (d : Nat) : Bool :=
  if i.closed then decide (i.low ≤ d ∧ d ≤ i.high) else decide (i.low < d ∧ d < i.high)

def Interval.onGrid (i : Interval) (g : Int) : Interval :=
  let up := Nat.pow 10 (-g).toNat
  { i with
    low := i.low * up, value := i.value * up, high := i.high * up, unit := i.unit * Nat.pow 10 g.toNat }

def Interval.pointOn (i : Interval) (tie : Tie) (g : Int) : Option Decimal :=
  let i := i.onGrid g
  let down := i.value / i.unit
  match i.holds (down * i.unit), i.holds ((down + 1) * i.unit) with
  | true, true =>
    let rest := 2 * (i.value - down * i.unit)
    some ⟨if rest < i.unit ∨ rest = i.unit ∧ tie.down down then down else down + 1, g⟩
  | true, false => some ⟨down, g⟩
  | false, true => some ⟨down + 1, g⟩
  | false, false => none

def Interval.coarsest (i : Interval) : Int :=
  if i.unit ≤ i.value then (Nat.toDigits 10 (i.value / i.unit)).length
  else 2 - (Nat.toDigits 10 (i.unit / i.value)).length

/-- Seventeen digits always read back, and the coarsest grid may lie two above the first digit. -/
def digits (tie : Tie) (m : Nat) (q : Int) : Decimal :=
  let i := interval m q
  let found := (List.range 20).findSome? fun (finer : Nat) => i.pointOn tie (i.coarsest - finer)
  found.getD ⟨m * Nat.pow 2 q.toNat, 0⟩

end Shortest

end HostBridge
