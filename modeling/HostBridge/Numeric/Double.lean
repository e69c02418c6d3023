/-!
# Double-precision numbers

A number is kept as its 64 bits, so that the sign of zero and the payload of a NaN survive.
`kind` reads the bits as mantissa times a power of two, `ofRatio` goes the other way and rounds to
nearest, ties to even.
-/

namespace HostBridge

structure Double where
  bits : UInt64
  deriving DecidableEq, Repr, Inhabited

namespace Double

/-- What the bits stand for, the sign apart: `finite m q` is `m * 2 ^ q`. -/
inductive Kind
  | nan
  | infinite
  | finite (mantissa : Nat) (exponent : Int)
  deriving DecidableEq, Repr

def negative (d : Double) : Bool := d.bits.toNat / Nat.pow 2 63 == 1

def kind (d : Double) : Kind :=
  let fraction := d.bits.toNat % Nat.pow 2 52
  match d.bits.toNat / Nat.pow 2 52 % Nat.pow 2 11 with
  | 0 => .finite fraction (-1074)
  | 2047 => if fraction = 0 then .infinite else .nan
  | field => .finite (Nat.pow 2 52 + fraction) (field - 1075)

def signBit (negative : Bool) : Nat := if negative then Nat.pow 2 63 else 0

def zero (negative : Bool) : Double := ⟨UInt64.ofNat (signBit negative)⟩

def roundDiv (num den : Nat) : Nat :=
  let down := num / den
  let rest := 2 * (num % den)
  if rest < den then down
  else if den < rest then down + 1
  else down + down % 2

def scaledRound (num den : Nat) (q : Int) : Nat :=
  if 0 ≤ q then roundDiv num (den * Nat.pow 2 q.toNat)
  else roundDiv (num * Nat.pow 2 (-q).toNat) den

/-- The double nearest to `num / den`, ties to even; `none` when it is out of range. -/
def ofRatio (negative : Bool) (num den : Nat) : Option Double :=
  if num = 0 then some (zero negative)
  else
    -- `num / den` lies in `(2 ^ (top - 1), 2 ^ (top + 1))`
    let top : Int := (Nat.log2 num : Int) - Nat.log2 den
    let q := if scaledRound num den (top - 52) < Nat.pow 2 52 then top - 53 else top - 52
    let q := max q (-1074)
    let m := scaledRound num den q
    -- a subnormal has exponent field zero, and rounding up carries into the next binade by itself
    let field := (q + 1074).toNat
    let bits := if m < Nat.pow 2 52 then m else field * Nat.pow 2 52 + m
    if 2047 * Nat.pow 2 52 ≤ bits then none else some ⟨UInt64.ofNat (signBit negative + bits)⟩

def ofDecimal (negative : Bool) (digits : Nat) (exponent : Int) : Option Double :=
  if digits = 0 then some (zero negative)
  else
    let magnitude := (Nat.toDigits 10 digits).length + exponent
    if 310 < magnitude then none
    else if magnitude < -330 then some (zero negative)
    else if 0 ≤ exponent then ofRatio negative (digits * Nat.pow 10 exponent.toNat) 1
    else ofRatio negative digits (Nat.pow 10 (-exponent).toNat)

end Double

end HostBridge
