import HostBridge.Proofs.Reader.Strings
import Mathlib.Data.List.Induction
/-!
# Reading numerals

A numeral is read whole if nothing stands behind it that could belong to it, and the digits are worth
what they are written for. With that it is known what each value may start with.
-/

namespace HostBridge.Reader

open Json

def NoDigit (cs : List Char) : Prop := ∀ c ∈ cs.head?, c.isDigit = false

/-- Nothing comes next that could belong to a number. -/
def Ends (cs : List Char) : Prop :=
  ∀ c ∈ cs.head?, c.isDigit = false ∧ c ≠ '.' ∧ c ≠ 'e' ∧ c ≠ 'E'

theorem Ends.noDigit {cs : List Char} (ends : Ends cs) : NoDigit cs := fun c mem => (ends c mem).1

theorem isDigit_digit (d : Fin 10) : (digit d).isDigit = true := by
  revert d
  decide

theorem digit_ne (d : Fin 10) {c : Char} (other : c.isDigit = false) : digit d ≠ c := by
  rintro rfl
  rw [isDigit_digit] at other
  cases other

theorem isBlank_digit (d : Fin 10) : isBlank (digit d) = false := by
  revert d
  decide

theorem takeWhile_digits (ds : List (Fin 10)) {cs : List Char} (stops : NoDigit cs) :
    (ds.map digit ++ cs).takeWhile Char.isDigit = ds.map digit := by
  rw [List.takeWhile_append_of_pos (by simp [isDigit_digit])]
  cases cs with
  | nil => simp
  | cons c cs => simp [stops c rfl]

theorem dropWhile_digits (ds : List (Fin 10)) {cs : List Char} (stops : NoDigit cs) :
    (ds.map digit ++ cs).dropWhile Char.isDigit = cs := by
  rw [List.dropWhile_append_of_pos (by simp [isDigit_digit])]
  cases cs with
  | nil => rfl
  | cons c cs => simp [stops c rfl]

def scanned (n : Numeral) : NumberText where
  whole := n.whole.digits.map digit
  places := n.places.map Digits.text
  power := n.power.map fun p => (decide (p.sign = some .minus), p.digits.text)

variable {atEnd : Fault} {cs : List Char}

theorem readWhole_digits (w : Whole) (stops : NoDigit cs) :
    readWhole atEnd (w.digits.map digit ++ cs) = .ok (w.digits.map digit, cs) := by
  cases w with
  | zero =>
    cases cs with
    | nil => rfl
    | cons c cs =>
      show (if c.isDigit then _ else _) = _
      rw [if_neg (by simp [stops c rfl])]
      rfl
  | nonzero first rest =>
    have not_zero : digit first.succ ≠ '0' := by
      revert first
      decide
    simp only [Whole.digits, List.map_cons, List.cons_append]
    rw [readWhole, if_pos (isDigit_digit _), takeWhile_digits _ stops, dropWhile_digits _ stops]
    exact not_zero

theorem digits_read {α : Type} (ds : Digits) (stops : NoDigit cs) (f : List Char → α) :
    (if (digit ds.first).isDigit then
        (.ok (f ((ds.text ++ cs).takeWhile Char.isDigit), (ds.text ++ cs).dropWhile Char.isDigit) :
          Read α)
      else .error .invalidNumber) = .ok (f ds.text, cs) := by
  rw [if_pos (isDigit_digit _), Digits.text, takeWhile_digits _ stops, dropWhile_digits _ stops]

theorem readPlaces_digits (ds : Digits) (stops : NoDigit cs) :
    readPlaces atEnd ('.' :: (ds.text ++ cs)) = .ok (some ds.text, cs) :=
  digits_read ds stops some

theorem readPlaces_none (no_point : ∀ c ∈ cs.head?, c ≠ '.') :
    readPlaces atEnd cs = .ok (none, cs) := by
  rw [readPlaces]
  rintro rest rfl
  exact no_point '.' rfl rfl

theorem readPower_power (p : Power) (stops : NoDigit cs) :
    readPower atEnd (p.text ++ cs) =
      .ok (some (decide (p.sign = some .minus), p.digits.text), cs) := by
  obtain ⟨upper, sign, ds⟩ := p
  have mark : (if upper then 'E' else 'e') = 'e' ∨ (if upper then 'E' else 'e') = 'E' := by
    cases upper <;> simp
  have not_plus : digit ds.first ≠ '+' := digit_ne _ rfl
  have not_minus : digit ds.first ≠ '-' := digit_ne _ rfl
  cases sign with
  | none =>
    have digits := digits_read ds stops fun digits => some (false, digits)
    simp only [Digits.text, List.map_cons, List.cons_append] at digits
    simpa [readPower, Power.text, Digits.text, mark, not_plus, not_minus] using digits
  | some sign =>
    cases sign with
    | plus =>
      refine Eq.trans (if_pos mark) ?_
      exact digits_read ds stops fun digits => some (false, digits)
    | minus =>
      refine Eq.trans (if_pos mark) ?_
      exact digits_read ds stops fun digits => some (true, digits)

theorem readPower_none (no_power : ∀ c ∈ cs.head?, c ≠ 'e' ∧ c ≠ 'E') :
    readPower atEnd cs = .ok (none, cs) := by
  cases cs with
  | nil => rfl
  | cons c cs =>
    obtain ⟨not_e, not_E⟩ := no_power c rfl
    simp [readPower, not_e, not_E]

/-- Reads a whole numeral, part by part; each part has to stop where the next one starts. -/
theorem readNumberText_magnitude (n : Numeral) (ends : Ends cs) :
    readNumberText atEnd (n.magnitude ++ cs) = .ok (scanned n, cs) := by
  obtain ⟨negative, whole, places, power⟩ := n
  have mark_e : ∀ upper : Bool, (if upper then 'E' else 'e').isDigit = false ∧
      (if upper then 'E' else 'e') ≠ '.' := by decide
  have power_read : readPower atEnd (power.elim [] Power.text ++ cs) =
      .ok (power.map fun p => (decide (p.sign = some .minus), p.digits.text), cs) := by
    cases power with
    | none => exact readPower_none fun c mem => (ends c mem).2.2
    | some p => exact readPower_power p ends.noDigit
  have power_starts : ∀ c ∈ (power.elim [] Power.text ++ cs).head?, c.isDigit = false ∧ c ≠ '.' := by
    cases power with
    | none => exact fun c mem => ⟨(ends c mem).1, (ends c mem).2.1⟩
    | some p =>
      rintro c ⟨rfl⟩
      exact mark_e p.upper
  have places_read : readPlaces atEnd
      ((places.elim [] fun ds => '.' :: ds.text) ++ (power.elim [] Power.text ++ cs)) =
        .ok (places.map Digits.text, power.elim [] Power.text ++ cs) := by
    cases places with
    | none => exact readPlaces_none fun c mem => (power_starts c mem).2
    | some ds => exact readPlaces_digits ds fun c mem => (power_starts c mem).1
  have places_start :
      NoDigit ((places.elim [] fun ds => '.' :: ds.text) ++ (power.elim [] Power.text ++ cs)) := by
    cases places with
    | none => exact fun c mem => (power_starts c mem).1
    | some ds =>
      rintro c ⟨rfl⟩
      rfl
  simp only [readNumberText, Numeral.magnitude, List.append_assoc, readWhole_digits whole places_start,
    places_read, power_read, bind, Except.bind, scanned]

theorem natOf_digits (ds : List (Fin 10)) :
    natOf (ds.map digit) = Nat.ofDigits 10 (ds.map Fin.val).reverse := by
  have digit_value : ∀ d : Fin 10, (digit d).toNat - 48 = d := by decide
  induction ds using List.reverseRecOn with
  | nil => rfl
  | append_singleton ds d ih =>
    rw [natOf] at ih
    simp [natOf, ih, digit_value, Nat.ofDigits_cons]
    ring

theorem numeral_cons (n : Numeral) :
    (n.negative = true ∧ n.text = '-' :: n.magnitude) ∨
      n.negative = false ∧ ∃ d cs, n.text = digit d :: cs ∧ n.magnitude = digit d :: cs := by
  obtain ⟨negative, whole, places, power⟩ := n
  cases negative with
  | true => exact .inl ⟨rfl, rfl⟩
  | false =>
    cases whole with
    | zero => exact .inr ⟨rfl, 0, _, rfl, rfl⟩
    | nonzero first rest => exact .inr ⟨rfl, first.succ, _, rfl, rfl⟩

def Starts (c : Char) : Json → Prop
  | .word .null => c = 'n'
  | .word .true => c = 't'
  | .word .false => c = 'f'
  | .number _ => c = '-' ∨ c.isDigit = true
  | .string _ => c = '"'
  | .emptyList _ | .list _ => c = '['
  | .emptyObject _ | .object _ => c = '\x7b'

theorem value_starts (v : Json) (cs : List Char) :
    ∃ c t, v.text ++ cs = c :: t ∧ isBlank c = false ∧ Starts c v := by
  cases v with
  | word w => cases w <;> exact ⟨_, _, rfl, rfl, rfl⟩
  | number n =>
    rw [Json.text]
    rcases numeral_cons n with ⟨_, text⟩ | ⟨_, d, t, text, _⟩
    · exact ⟨'-', n.magnitude ++ cs, by rw [text]; rfl, rfl, .inl rfl⟩
    · exact ⟨digit d, t ++ cs, by rw [text]; rfl, isBlank_digit d, .inr (isDigit_digit d)⟩
  | string _ => exact ⟨_, _, rfl, rfl, rfl⟩
  | emptyList _ => exact ⟨_, _, rfl, rfl, rfl⟩
  | list _ => exact ⟨_, _, rfl, rfl, rfl⟩
  | emptyObject _ => exact ⟨_, _, rfl, rfl, rfl⟩
  | object _ => exact ⟨_, _, rfl, rfl, rfl⟩

theorem trim_value (v : Json) (b : List Blank) (cs : List Char) :
    ∃ c t, trim (blanks b ++ (v.text ++ cs)) = c :: t ∧ Starts c v := by
  obtain ⟨c, t, text, ink, starts⟩ := value_starts v cs
  exact ⟨c, t, by rw [text, trim_blanks_cons b ink], starts⟩

theorem not_starts (v : Json) : ¬ Starts ']' v := by
  cases v with
  | word w => cases w <;> simp [Starts]
  | number n => simp [Starts]
  | _ => simp [Starts]

end HostBridge.Reader
