/-!
# Durations

Whole milliseconds. A duration is written in the largest of the units s and ms in which it is at
least one, with its decimal places and without trailing zeros; zero is `0ns`.
-/

namespace HostBridge

structure Duration where
  millis : Nat
  deriving DecidableEq, Repr, Inhabited

namespace Duration

def zero : Duration := ⟨0⟩

def longer (a b : Duration) : Duration := ⟨max a.millis b.millis⟩

def places (thousandths : Nat) : List Char :=
  let digits := Nat.toDigits 10 thousandths
  let padded := List.replicate (3 - digits.length) '0' ++ digits
  match (padded.reverse.dropWhile (· == '0')).reverse with
  | [] => []
  | digits => '.' :: digits

def describe (d : Duration) : String :=
  if d.millis = 0 then "0ns"
  else if d.millis < 1000 then s!"{d.millis}ms"
  else String.ofList (Nat.toDigits 10 (d.millis / 1000) ++ places (d.millis % 1000) ++ ['s'])

end Duration

end HostBridge
