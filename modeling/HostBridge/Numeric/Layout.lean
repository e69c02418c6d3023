import HostBridge.Numeric.Shortest
/-!
# Layout of decimal numbers

Two written forms of a double, both with its shortest digits: `plain` never uses an exponent,
writes integers without a point and takes the larger of two equally near digits, `literal` always
shows that the number is a fraction or carries an exponent and takes the even one.
-/

namespace HostBridge

namespace Decimal

def text (n : Nat) : List Char := Nat.toDigits 10 n

def zeros (n : Nat) : List Char := List.replicate n '0'

def leading (d : Decimal) : Int := (text d.digits).length + d.exponent - 1

def positional (d : Decimal) : List Char :=
  let digits := text d.digits
  if 0 ≤ d.exponent then digits ++ zeros d.exponent.toNat
  else
    let places := (-d.exponent).toNat
    if places < digits.length then
      digits.take (digits.length - places) ++ '.' :: digits.drop (digits.length - places)
    else '0' :: '.' :: zeros (places - digits.length) ++ digits

def scientific (d : Decimal) : List Char :=
  let mantissa := match text d.digits with
    | first :: second :: rest => first :: '.' :: second :: rest
    | digits => digits
  let power := text d.leading.natAbs
  mantissa ++ 'e' :: (if d.leading < 0 then '-' else '+') :: zeros (2 - power.length) ++ power

end Decimal

namespace Double

def signed (d : Double) (magnitude : List Char) : String :=
  String.ofList (if d.negative then '-' :: magnitude else magnitude)

/-- Shortest digits in positional notation; the sign of zero is kept, that of a NaN is not. -/
def plain (d : Double) : String :=
  match d.kind with
  | .nan => "NaN"
  | .infinite => d.signed "inf".toList
  | .finite 0 _ => d.signed ['0']
  | .finite m q => d.signed (Shortest.digits .up m q).positional

/-- From `10 ^ (-5)` up to `10 ^ 16` positional with at least one place, beyond that scientific. -/
def literal (d : Double) : String :=
  match d.kind with
  | .nan => "NaN"
  | .infinite => d.signed "inf".toList
  | .finite 0 _ => d.signed "0.0".toList
  | .finite m q =>
    let decimal := Shortest.digits .toEven m q
    if -5 ≤ decimal.leading ∧ decimal.leading ≤ 15 then
      d.signed (decimal.positional ++ if 0 ≤ decimal.exponent then ".0".toList else [])
    else d.signed decimal.scientific

end Double

end HostBridge
