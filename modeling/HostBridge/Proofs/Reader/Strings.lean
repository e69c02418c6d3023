import HostBridge.Reader.Records
import HostBridge.Proofs.Deserializer.Json
/-!
# Reading words and strings

What is read from the front of a written word or string, whatever text comes behind it.
-/

namespace HostBridge.Reader

open Json

/-- What is read is the value, and the rest is left; without a value there is a fault. -/
def Answers {α : Type} (result : Except Fault (α × List Char)) (value : Option α)
    (rest : List Char) : Prop :=
  match value with
  | some a => result = .ok (a, rest)
  | none => ∃ fault, result = .error fault

namespace Answers

variable {α β : Type} {result : Except Fault (α × List Char)} {value : Option α}
  {rest rest' : List Char}

theorem fault {f : Fault} : Answers (α := α) (.error f) none rest := ⟨f, rfl⟩

theorem map (answers : Answers result value rest) (f : α → β) :
    Answers (result.map fun (a, rest) => (f a, rest)) (value.map f) rest := by
  cases value with
  | some a =>
    rw [show result = _ from answers]
    rfl
  | none =>
    obtain ⟨fault, refused⟩ := answers
    exact ⟨fault, by rw [refused]; rfl⟩

theorem bind {next : α × List Char → Except Fault (β × List Char)} {g : α → Option β}
    (answers : Answers result value rest)
    (continues : ∀ a, value = some a → Answers (next (a, rest)) (g a) rest') :
    Answers (result >>= next) (value.bind g) rest' := by
  cases value with
  | some a =>
    rw [show result = _ from answers]
    exact continues a rfl
  | none =>
    obtain ⟨fault, refused⟩ := answers
    exact ⟨fault, by rw [refused]; rfl⟩

end Answers

@[simp] theorem isBlank_char (b : Blank) : isBlank b.char = true := by
  cases b <;> rfl

theorem trim_blanks (b : List Blank) (cs : List Char) : trim (blanks b ++ cs) = trim cs :=
  List.dropWhile_append_of_pos (by simp [blanks])

theorem trim_cons {c : Char} {cs : List Char} (ink : isBlank c = false) : trim (c :: cs) = c :: cs :=
  List.dropWhile_cons_of_neg (by simp [ink])

theorem trim_blanks_cons (b : List Blank) {c : Char} {cs : List Char} (ink : isBlank c = false) :
    trim (blanks b ++ c :: cs) = c :: cs := by
  rw [trim_blanks, trim_cons ink]

theorem expectWord_append (ws rest : List Char) : expectWord ws (ws ++ rest) = .ok rest := by
  induction ws with
  | nil => rfl
  | cons w ws ih => simp [expectWord, ih]

theorem hexDigit?_char (d : HexDigit) : hexDigit? d.char = some d.value.val := by
  obtain ⟨value, upper⟩ := d
  revert value upper
  decide

theorem hexQuad_text (u : CodeUnit) (cs : List Char) : hexQuad (u.text ++ cs) = .ok u.value := by
  simp only [CodeUnit.text, List.cons_append, List.nil_append, hexQuad, hexDigit?_char, CodeUnit.value,
    Except.ok.injEq]
  ring

theorem isLeading_value (u : CodeUnit) : isLeading u.value = decide u.Leads := by
  rw [isLeading, ← Bool.decide_and]
  exact decide_eq_decide.mpr (by unfold CodeUnit.Leads; omega)

theorem isTrailing_value (u : CodeUnit) : isTrailing u.value = decide u.Trails := by
  rw [isTrailing, ← Bool.decide_and]
  exact decide_eq_decide.mpr (by unfold CodeUnit.Trails; omega)

theorem not_trails_of_leads {u : CodeUnit} (first : u.Leads) : ¬ u.Trails :=
  fun second => Nat.not_lt.mpr second.1 first.2

theorem escape_short (s : Short) (cs : List Char) : escape (s.mark :: cs) = .ok (s.char, 1) := by
  cases s <;> rfl

theorem skipString_plain (c : Plain) (cs : List Char) : skipString (c.val :: cs) = skipString cs := by
  obtain ⟨c, visible, not_quote, not_backslash⟩ := c
  rw [skipString, if_neg (Nat.not_lt.mpr visible)]
  · exact not_quote
  · exact not_backslash

theorem readString_plain (c : Plain) (cs : List Char) :
    readString (c.val :: cs) = (readString cs).map fun (text, rest) => (c.val :: text, rest) := by
  obtain ⟨c, visible, not_quote, not_backslash⟩ := c
  rw [readString, if_neg (Nat.not_lt.mpr visible)]
  · exact not_quote
  · exact not_backslash

section

variable (s : List Letter) (cs : List Char)

theorem written_plain (c : Plain) : written (.plain c :: s) ++ cs = c.val :: (written s ++ cs) := rfl

theorem written_short (e : Short) :
    written (.short e :: s) ++ cs = '\\' :: e.mark :: (written s ++ cs) := rfl

theorem written_unit (u : CodeUnit) :
    written (.unit u :: s) ++ cs = '\\' :: 'u' :: (u.text ++ (written s ++ cs)) := rfl

end

theorem skipString_written (s : List Letter) (rest : List Char) :
    skipString (written s ++ '"' :: rest) = .ok rest := by
  induction s with
  | nil =>
    show skipString ('"' :: rest) = _
    rw [skipString]
  | cons l s ih =>
    cases l with
    | plain c => rw [written_plain, skipString_plain, ih]
    | short e =>
      have one : skipEscape (e.mark :: (written s ++ '"' :: rest)) = .ok 1 := by cases e <;> rfl
      rw [written_short, skipString, one]
      exact ih
    | unit u =>
      have five : skipEscape ('u' :: (u.text ++ (written s ++ '"' :: rest))) = .ok 5 := by
        rw [skipEscape, hexQuad_text]
        rfl
      rw [written_unit, skipString, five]
      exact ih

theorem unicodeEscape_single {u : CodeUnit} (alone : ¬ (u.Trails ∨ u.Leads)) (cs : List Char) :
    unicodeEscape (u.text ++ cs) = .ok (Char.ofNat u.value, 4) := by
  obtain ⟨not_second, not_first⟩ := not_or.mp alone
  simp [unicodeEscape, hexQuad_text, isTrailing_value, isLeading_value, not_second, not_first, bind,
    Except.bind]

theorem unicodeEscape_trails {u : CodeUnit} (second : u.Trails) (cs : List Char) :
    unicodeEscape (u.text ++ cs) = .error .loneSurrogate := by
  simp [unicodeEscape, hexQuad_text, isTrailing_value, second, bind, Except.bind]

theorem unicodeEscape_leads {u : CodeUnit} (first : u.Leads) (v : CodeUnit) (cs : List Char) :
    unicodeEscape (u.text ++ '\\' :: 'u' :: (v.text ++ cs)) =
      if v.Trails then .ok (u.pair v, 10) else .error .loneSurrogate := by
  have not_second := not_trails_of_leads first
  have behind : (u.text ++ '\\' :: 'u' :: (v.text ++ cs)).drop 4 = '\\' :: 'u' :: (v.text ++ cs) := rfl
  by_cases paired : v.Trails
  · simp [unicodeEscape, hexQuad_text, isTrailing_value, isLeading_value, not_second, first, paired,
      behind, bind, Except.bind, CodeUnit.pair]
  · simp [unicodeEscape, hexQuad_text, isTrailing_value, isLeading_value, not_second, first, paired,
      behind, bind, Except.bind]

theorem unicodeEscape_lone {u : CodeUnit} (first : u.Leads) {cs : List Char}
    (no_unit : ∀ t, cs ≠ '\\' :: 'u' :: t) : ∃ fault, unicodeEscape (u.text ++ cs) = .error fault := by
  have not_second := not_trails_of_leads first
  have behind : (u.text ++ cs).drop 4 = cs := rfl
  simp only [unicodeEscape, hexQuad_text, isTrailing_value, isLeading_value, not_second, first, behind,
    bind, Except.bind, decide_false, decide_true, Bool.not_true, Bool.false_eq_true, if_false]
  split
  · exact ⟨_, rfl⟩
  · exact ⟨_, rfl⟩
  · exact absurd rfl (no_unit _)
  · exact ⟨_, rfl⟩

theorem readString_short (e : Short) (cs : List Char) :
    readString ('\\' :: e.mark :: cs) =
      (readString cs).map fun (text, rest) => (e.char :: text, rest) := by
  rw [readString, escape_short]
  rfl

theorem readString_unit {cs : List Char} {c : Char} {n : Nat} (found : unicodeEscape cs = .ok (c, n)) :
    readString ('\\' :: 'u' :: cs) =
      (readString (cs.drop n)).map fun (text, rest) => (c :: text, rest) := by
  have found : escape ('u' :: cs) = .ok (c, n + 1) := by
    show (unicodeEscape cs).map _ = _
    rw [found]
    rfl
  rw [readString, found]
  rfl

theorem readString_no_unit {cs : List Char} (refused : ∃ fault, unicodeEscape cs = .error fault) :
    ∃ fault, readString ('\\' :: 'u' :: cs) = .error fault := by
  obtain ⟨fault, refused⟩ := refused
  have refused : escape ('u' :: cs) = .error fault := by
    show (unicodeEscape cs).map _ = _
    rw [refused]
    rfl
  exact ⟨fault, by rw [readString, refused]⟩

theorem written_no_unit {s : List Letter} (no_unit : ∀ v s', s ≠ .unit v :: s') (rest t : List Char) :
    written s ++ '"' :: rest ≠ '\\' :: 'u' :: t := by
  match s, no_unit with
  | [], _ => exact fun same => absurd (List.cons.inj same).1 (by decide)
  | .plain c :: _, _ => exact fun same => absurd (List.cons.inj same).1 c.property.2.2
  | .short e :: _, _ =>
    intro same
    have mark : e.mark = 'u' := (List.cons.inj (List.cons.inj same).2).1
    revert mark
    cases e <;> decide
  | .unit v :: s', no_unit => exact absurd rfl (no_unit v s')

/-- A string is read as its characters, and not at all with half of a surrogate pair in it. -/
theorem readString_written (s : List Letter) (rest : List Char) :
    Answers (readString (written s ++ '"' :: rest)) (decode s) rest := by
  fun_induction decode s with
  | case1 =>
    show readString ('"' :: rest) = _
    rw [readString]
  | case2 c s ih =>
    rw [written_plain, readString_plain]
    exact ih.map (c.val :: ·)
  | case3 e s ih =>
    rw [written_short, readString_short]
    exact ih.map (e.char :: ·)
  -- two code units: the first one trails, leads to the other or not, or stands for itself
  | case4 u v s second => exact readString_no_unit ⟨_, unicodeEscape_trails second _⟩
  | case5 u v s _ first paired ih =>
    have escaped := unicodeEscape_leads first v (written s ++ '"' :: rest)
    rw [if_pos paired] at escaped
    rw [written_unit, written_unit, readString_unit escaped]
    exact ih.map (u.pair v :: ·)
  | case6 u v s _ first unpaired =>
    have refused := unicodeEscape_leads first v (written s ++ '"' :: rest)
    rw [if_neg unpaired] at refused
    exact readString_no_unit ⟨_, refused⟩
  | case7 u v s not_second not_first ih =>
    rw [written_unit, readString_unit (unicodeEscape_single (not_or.mpr ⟨not_second, not_first⟩) _)]
    exact ih.map (Char.ofNat u.value :: ·)
  -- a code unit with something else behind it
  | case8 u s no_unit half =>
    rcases half with second | first
    · exact readString_no_unit ⟨_, unicodeEscape_trails second _⟩
    · exact readString_no_unit (unicodeEscape_lone first (written_no_unit no_unit rest))
  | case9 u s no_unit whole ih =>
    rw [written_unit, readString_unit (unicodeEscape_single whole _)]
    exact ih.map (Char.ofNat u.value :: ·)

end HostBridge.Reader
