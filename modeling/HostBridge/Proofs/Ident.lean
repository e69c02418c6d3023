import HostBridge.Ident
import Mathlib.Algebra.Group.Nat.Defs
/-!
# Numbers that follow one another

The numbers go up one by one, and the largest is followed by one.
-/

namespace HostBridge

theorem nextNumber_toNat {n : UInt32} (more : n.toNat + 1 < 2 ^ 32) :
    (nextNumber n).toNat = n.toNat + 1 := by
  have sum : (n + 1).toNat = n.toNat + 1 := by
    rw [UInt32.toNat_add]
    exact Nat.mod_eq_of_lt more
  have not_zero : n + 1 ≠ 0 := by
    intro zero
    rw [zero] at sum
    exact nomatch sum
  rw [nextNumber, if_neg not_zero, sum]

theorem nextNumber_toNat_last {n : UInt32} (last : n.toNat + 1 = 2 ^ 32) :
    (nextNumber n).toNat = 1 := by
  have zero : n + 1 = 0 := by
    apply UInt32.toNat_inj.mp
    have sum : (n + 1).toNat = (n.toNat + 1) % 2 ^ 32 := UInt32.toNat_add n 1
    rw [sum, last]
    rfl
  rw [nextNumber, if_pos zero]
  rfl

end HostBridge
