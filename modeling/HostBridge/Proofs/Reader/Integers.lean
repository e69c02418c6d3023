import HostBridge.Proofs.Reader.Skipping
/-!
# Reading unsigned integers

An unsigned integer is given by its digits alone. Every other value is a fault: another kind of value,
a sign, places, an exponent, or more than fits.
-/

namespace HostBridge.Reader

open Json

variable {cs : List Char}

theorem found_unsigned (w : Whole) (fits : w.value < 2 ^ 64) :
    (scanned { whole := w }).found false = .ok (.integer w.value) := by
  have value : natOf (w.digits.map digit) = w.value := natOf_digits w.digits
  have fits : w.value < Nat.pow 2 64 := fits
  simp only [scanned, NumberText.found, Option.map_none, value, if_pos fits, Bool.false_eq_true,
    if_false]

/-- A number that is written otherwise is out of range, a double or a negative integer. -/
theorem found_other (n : Numeral) (other : (Json.number n).unsigned? 64 = none) (m : Nat) :
    (scanned n).found n.negative ≠ .ok (.integer m) := by
  obtain ⟨negative, whole, places, power⟩ := n
  have value : natOf (whole.digits.map digit) = whole.value := natOf_digits whole.digits
  intro found
  unfold NumberText.found at found
  simp only [scanned, value] at found
  -- what has neither places nor an exponent has a sign or is too large
  split at found
  · rename_i no_places no_power
    split at found
    · split at found
      · rename_i within
        simp only [Except.ok.injEq, Found.integer.injEq] at found
        omega
      · split at found <;> cases found
    · rename_i positive
      split at found
      · rename_i small
        cases places with
        | some ds => cases no_places
        | none =>
          cases power with
          | some p => cases no_power
          | none =>
            cases Bool.eq_false_of_not_eq_true positive
            cases (if_pos small).symm.trans other
      · split at found <;> cases found
  · split at found <;> cases found

theorem unsigned_other (bits : Nat) {found : Except Fault Found}
    (other : ∀ m : Nat, found ≠ .ok (.integer m)) :
    ∃ fault, found >>= unsigned bits = .error fault := by
  cases found with
  | error fault => exact ⟨fault, rfl⟩
  | ok x =>
    cases x with
    | integer i =>
      have negative : ¬ 0 ≤ i := fun natural =>
        other i.toNat (congrArg (Except.ok ∘ Found.integer) (Int.toNat_of_nonneg natural).symm)
      exact ⟨_, if_neg fun fits => negative fits.1⟩
    | _ => exact ⟨_, rfl⟩

theorem unsigned_natural (bits m : Nat) : unsigned bits (.integer m) =
    if m < 2 ^ bits then .ok m else .error (.invalidValue m (.unsigned bits)) := by
  by_cases fits : m < 2 ^ bits
  · rw [if_pos fits]
    refine if_pos ⟨Int.natCast_nonneg m, ?_⟩
    exact Int.ofNat_lt.mpr fits
  · rw [if_neg fits]
    exact if_neg fun within => fits (Int.ofNat_lt.mp within.2)

theorem unsigned?_eq_some {bits m : Nat} {n : Numeral} : (Json.number n).unsigned? bits = some m ↔
    n = { whole := n.whole } ∧ n.whole.value = m ∧ m < 2 ^ bits := by
  obtain ⟨negative, whole, places, power⟩ := n
  cases negative with
  | true => simp [unsigned?]
  | false =>
    cases places with
    | some ds => simp [unsigned?]
    | none =>
      cases power with
      | some p => simp [unsigned?]
      | none =>
        simp only [unsigned?, Option.ite_none_right_eq_some, Option.some.injEq, true_and]
        exact ⟨fun ⟨fits, same⟩ => ⟨same, same ▸ fits⟩, fun ⟨same, fits⟩ => ⟨same ▸ fits, same⟩⟩

theorem readNumber_magnitude (n : Numeral) (negative : Bool) (ends : Ends cs) :
    readNumber negative (n.magnitude ++ cs) = ((scanned n).found negative).map fun x => (x, cs) := by
  rw [readNumber, readNumberText_magnitude n ends]
  show (scanned n).found negative >>= (fun x => .ok (x, cs)) = _
  cases (scanned n).found negative with
  | error fault => rfl
  | ok x => rfl

theorem readUnsigned_number (bits : Nat) (n : Numeral) (b : List Blank) (ends : Ends cs) :
    readUnsigned bits (blanks b ++ (n.text ++ cs)) =
      ((scanned n).found n.negative >>= unsigned bits).map fun m => (m, cs) := by
  have start : readUnsigned bits (blanks b ++ (n.text ++ cs)) =
      readNumber n.negative (n.magnitude ++ cs) >>= fun p =>
        unsigned bits p.1 >>= fun m => .ok (m, p.2) := by
    rcases numeral_cons n with ⟨negative, text⟩ | ⟨positive, d, t, text, magnitude⟩
    · rw [text, negative, readUnsigned, List.cons_append, trim_blanks_cons b (c := '-') rfl]
      rfl
    · rw [text, positive, magnitude, readUnsigned, List.cons_append,
        trim_blanks_cons b (isBlank_digit d)]
      refine (if_pos (.inr (isDigit_digit d))).trans ?_
      rw [if_neg (digit_ne d (c := '-') rfl)]
  rw [start, readNumber_magnitude n n.negative ends]
  cases (scanned n).found n.negative with
  | error fault => rfl
  | ok x =>
    show (unsigned bits x >>= fun m => .ok (m, cs)) = (unsigned bits x).map fun m => (m, cs)
    cases unsigned bits x with
    | error fault => rfl
    | ok m => rfl

theorem readUnsigned_numeral {bits : Nat} (within : bits ≤ 64) (n : Numeral) (b : List Blank)
    (ends : Ends cs) :
    Answers (readUnsigned bits (blanks b ++ (n.text ++ cs))) ((Json.number n).unsigned? bits) cs := by
  have small : 2 ^ bits ≤ 2 ^ 64 := Nat.pow_le_pow_right (by decide) within
  have natural : ∀ m, n = { whole := n.whole } → n.whole.value = m → m < 2 ^ 64 →
      (scanned n).found n.negative >>= unsigned bits = unsigned bits (.integer m) := by
    intro m plain same fits
    rw [plain, ← same, found_unsigned n.whole (same ▸ fits)]
    rfl
  rw [readUnsigned_number bits n b ends]
  cases read : (Json.number n).unsigned? bits with
  | some m =>
    obtain ⟨plain, same, fits⟩ := unsigned?_eq_some.mp read
    rw [natural m plain same (Nat.lt_of_lt_of_le fits small), unsigned_natural, if_pos fits]
    rfl
  | none =>
    cases wide : (Json.number n).unsigned? 64 with
    | some m =>
      obtain ⟨plain, same, fits⟩ := unsigned?_eq_some.mp wide
      have large : ¬ m < 2 ^ bits := by
        intro less
        cases (unsigned?_eq_some.mpr ⟨plain, same, less⟩).symm.trans read
      rw [natural m plain same fits, unsigned_natural, if_neg large]
      exact ⟨_, rfl⟩
    | none =>
      obtain ⟨fault, refused⟩ := unsigned_other bits (found_other n wide)
      rw [refused]
      exact ⟨fault, rfl⟩

theorem readUnsigned_other {bits : Nat} {c : Char} {t : List Char} (starts : trim cs = c :: t)
    (other : ¬ (c = '-' ∨ c.isDigit = true)) : ∃ fault, readUnsigned bits cs = .error fault := by
  rw [readUnsigned, starts]
  exact ⟨_, if_neg other⟩

theorem readUnsigned_text {bits : Nat} (within : bits ≤ 64) (v : Json) (b : List Blank)
    (ends : Ends cs) :
    Answers (readUnsigned bits (blanks b ++ (v.text ++ cs))) (v.unsigned? bits) cs := by
  obtain ⟨c, t, starts, first⟩ := trim_value v b cs
  cases v with
  | number n => exact readUnsigned_numeral within n b ends
  | word w => cases w <;> exact readUnsigned_other starts (first ▸ by decide)
  | _ => exact readUnsigned_other starts (first ▸ by decide)

end HostBridge.Reader
