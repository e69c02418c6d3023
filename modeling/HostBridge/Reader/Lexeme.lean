import HostBridge.Reader.Fault
/-!
# Words of a text

Blanks, names, strings and numbers, each read from the front of the text. What is read is returned
with the rest of the text, which is shorter: `skipString_length` and its like say so.
-/

namespace HostBridge.Reader

abbrev Read (α : Type) := Except Fault (α × List Char)

def isBlank (c : Char) : Bool := c == ' ' || c == '\n' || c == '\t' || c == '\r'

def trim (cs : List Char) : List Char := cs.dropWhile isBlank

theorem trim_length (cs : List Char) : (trim cs).length ≤ cs.length :=
  (List.dropWhile_sublist _).length_le

def expectWord : List Char → List Char → Except Fault (List Char)
  | [], cs => .ok cs
  | _ :: _, [] => .error .endOfValue
  | w :: ws, c :: cs => if c = w then expectWord ws cs else .error .expectedIdent

theorem expectWord_length {ws cs rest : List Char} (h : expectWord ws cs = .ok rest) :
    rest.length ≤ cs.length := by
  fun_induction expectWord ws cs with
  | case1 cs =>
    cases h
    exact Nat.le_refl _
  | case2 => cases h
  | case3 w ws cs ih => exact Nat.le_succ_of_le (ih h)
  | case4 => cases h

def hexDigit? (c : Char) : Option Nat :=
  if c.isDigit then some (c.toNat - 48)
  else if 'a' ≤ c ∧ c ≤ 'f' then some (c.toNat - 87)
  else if 'A' ≤ c ∧ c ≤ 'F' then some (c.toNat - 55)
  else none

/-- The number of four hexadecimal digits. The digits are four bytes: with fewer bytes left the text
has ended, with others the escape is wrong. -/
def hexQuad (cs : List Char) : Except Fault Nat :=
  match cs with
  | a :: b :: c :: d :: _ =>
    match hexDigit? a, hexDigit? b, hexDigit? c, hexDigit? d with
    | some a, some b, some c, some d => .ok (((a * 16 + b) * 16 + c) * 16 + d)
    | _, _, _, _ => .error .invalidEscape
  | cs => if cs.foldl (· + ·.utf8Size) 0 < 4 then .error .endOfString else .error .invalidEscape

def isLeading (n : Nat) : Bool := 0xd800 ≤ n && n ≤ 0xdbff

def isTrailing (n : Nat) : Bool := 0xdc00 ≤ n && n ≤ 0xdfff

def unicodeEscape (cs : List Char) : Except Fault (Char × Nat) := do
  let n ← hexQuad cs
  if isTrailing n then .error .loneSurrogate
  else if !isLeading n then .ok (Char.ofNat n, 4)
  else match cs.drop 4 with
    | [] => .error .endOfString
    | '\\' :: [] => .error .endOfString
    | '\\' :: 'u' :: rest =>
      let m ← hexQuad rest
      if isTrailing m then .ok (Char.ofNat (0x10000 + (n - 0xd800) * 0x400 + (m - 0xdc00)), 10)
      else .error .loneSurrogate
    | _ => .error .endOfHexEscape

def escape (cs : List Char) : Except Fault (Char × Nat) :=
  match cs with
  | [] => .error .endOfString
  | '"' :: _ => .ok ('"', 1)
  | '\\' :: _ => .ok ('\\', 1)
  | '/' :: _ => .ok ('/', 1)
  | 'b' :: _ => .ok ('\x08', 1)
  | 'f' :: _ => .ok ('\x0c', 1)
  | 'n' :: _ => .ok ('\n', 1)
  | 'r' :: _ => .ok ('\r', 1)
  | 't' :: _ => .ok ('\t', 1)
  | 'u' :: rest => (unicodeEscape rest).map fun (c, n) => (c, n + 1)
  | _ => .error .invalidEscape

/-- How many characters an escape takes whose character is of no interest: a surrogate may stand
alone. -/
def skipEscape (cs : List Char) : Except Fault Nat :=
  match cs with
  | 'u' :: rest => (hexQuad rest).map fun _ => 5
  | cs => (escape cs).map Prod.snd

def readString (cs : List Char) : Read (List Char) :=
  match cs with
  | [] => .error .endOfString
  | '"' :: cs => .ok ([], cs)
  | '\\' :: cs =>
    match escape cs with
    | .error fault => .error fault
    | .ok (c, n) => (readString (cs.drop n)).map fun (text, rest) => (c :: text, rest)
  | c :: cs =>
    if c.toNat < 0x20 then .error .controlCharacter
    else (readString cs).map fun (text, rest) => (c :: text, rest)
termination_by cs.length
decreasing_by
  all_goals simp only [List.length_drop, List.length_cons]; omega

def skipString (cs : List Char) : Except Fault (List Char) :=
  match cs with
  | [] => .error .endOfString
  | '"' :: cs => .ok cs
  | '\\' :: cs =>
    match skipEscape cs with
    | .error fault => .error fault
    | .ok n => skipString (cs.drop n)
  | c :: cs => if c.toNat < 0x20 then .error .controlCharacter else skipString cs
termination_by cs.length
decreasing_by
  all_goals simp only [List.length_drop, List.length_cons]; omega

theorem map_ok {ε α β : Type} {f : α → β} {x : Except ε α} {b : β} (h : x.map f = .ok b) :
    ∃ a, x = .ok a ∧ f a = b := by
  cases x with
  | error e => cases h
  | ok a => exact ⟨a, rfl, by cases h; rfl⟩

theorem skipString_length {cs rest : List Char} (h : skipString cs = .ok rest) :
    rest.length < cs.length := by
  fun_induction skipString cs with
  | case1 => cases h
  | case2 => cases h; simp
  | case3 => cases h
  | case4 cs n _ ih =>
    have := ih h
    simp only [List.length_drop, List.length_cons] at this ⊢
    omega
  | case5 => cases h
  | case6 c cs _ _ _ ih =>
    have := ih h
    simp only [List.length_cons]
    omega

/-- A number as it is written: the digits before the point, those behind it, and the exponent with
its sign. -/
structure NumberText where
  whole : List Char
  places : Option (List Char) := none
  power : Option (Bool × List Char) := none
  deriving DecidableEq, Repr

/-- Reads the exponent, if there is one. `atEnd` is the fault of a text that ends too early. -/
def readPower (atEnd : Fault) (cs : List Char) : Read (Option (Bool × List Char)) :=
  match cs with
  | e :: rest =>
    if e = 'e' ∨ e = 'E' then
      let (negative, rest) := match rest with
        | '+' :: rest => (false, rest)
        | '-' :: rest => (true, rest)
        | rest => (false, rest)
      match rest with
      | [] => .error atEnd
      | c :: _ =>
        if c.isDigit then
          .ok (some (negative, rest.takeWhile Char.isDigit), rest.dropWhile Char.isDigit)
        else .error .invalidNumber
    else .ok (none, cs)
  | [] => .ok (none, [])

def readPlaces (atEnd : Fault) (cs : List Char) : Read (Option (List Char)) :=
  match cs with
  | '.' :: rest =>
    match rest with
    | [] => .error atEnd
    | c :: _ =>
      if c.isDigit then .ok (some (rest.takeWhile Char.isDigit), rest.dropWhile Char.isDigit)
      else .error .invalidNumber
  | cs => .ok (none, cs)

def readWhole (atEnd : Fault) (cs : List Char) : Read (List Char) :=
  match cs with
  | [] => .error atEnd
  | '0' :: rest =>
    match rest with
    | c :: _ => if c.isDigit then .error .invalidNumber else .ok (['0'], rest)
    | [] => .ok (['0'], [])
  | c :: rest =>
    if c.isDigit then .ok (c :: rest.takeWhile Char.isDigit, rest.dropWhile Char.isDigit)
    else .error .invalidNumber

def readNumberText (atEnd : Fault) (cs : List Char) :
    Except Fault (NumberText × List Char) := do
  let (whole, cs) ← readWhole atEnd cs
  let (places, cs) ← readPlaces atEnd cs
  let (power, cs) ← readPower atEnd cs
  .ok (⟨whole, places, power⟩, cs)

theorem dropWhile_length (cs : List Char) : (cs.dropWhile Char.isDigit).length ≤ cs.length :=
  (List.dropWhile_sublist _).length_le

theorem readWhole_length {atEnd : Fault} {cs rest whole : List Char}
    (h : readWhole atEnd cs = .ok (whole, rest)) : rest.length < cs.length := by
  unfold readWhole at h
  split at h
  · cases h
  · split at h
    · split at h
      · cases h
      · cases h; simp
    · cases h; simp
  · split at h
    · cases h
      exact Nat.lt_succ_of_le (dropWhile_length _)
    · cases h

theorem readPlaces_length {atEnd : Fault} {cs rest : List Char} {places : Option (List Char)}
    (h : readPlaces atEnd cs = .ok (places, rest)) : rest.length ≤ cs.length := by
  unfold readPlaces at h
  split at h
  · split at h
    · cases h
    · split at h
      · cases h
        exact Nat.le_succ_of_le (dropWhile_length _)
      · cases h
  · cases h
    exact Nat.le_refl _

theorem readPower_length {atEnd : Fault} {cs rest : List Char}
    {power : Option (Bool × List Char)} (h : readPower atEnd cs = .ok (power, rest)) :
    rest.length ≤ cs.length := by
  unfold readPower at h
  split at h
  · rename_i e tail
    split at h
    · have drop : ∀ t : List Char, t.length ≤ tail.length →
          (t.dropWhile Char.isDigit).length ≤ (e :: tail).length := fun t ht =>
        Nat.le_succ_of_le (Nat.le_trans (dropWhile_length t) ht)
      split at h
      rename_i pair negative t heq
      have ht : t.length ≤ tail.length := by
        split at heq <;> (cases heq; simp)
      split at h
      · cases h
      · split at h
        · cases h
          exact drop _ ht
        · cases h
    · cases h
      exact Nat.le_refl _
  · cases h
    exact Nat.le_refl _

theorem readNumberText_length {atEnd : Fault} {cs rest : List Char} {n : NumberText}
    (h : readNumberText atEnd cs = .ok (n, rest)) : rest.length < cs.length := by
  unfold readNumberText at h
  simp only [bind, Except.bind] at h
  split at h
  · cases h
  · rename_i v₁ h₁
    split at h
    · cases h
    · rename_i v₂ h₂
      split at h
      · cases h
      · rename_i v₃ h₃
        obtain ⟨_, _⟩ := v₁
        obtain ⟨_, _⟩ := v₂
        obtain ⟨_, _⟩ := v₃
        cases h
        exact Nat.lt_of_le_of_lt (readPower_length h₃)
          (Nat.lt_of_le_of_lt (readPlaces_length h₂) (readWhole_length h₁))

def natOf (digits : List Char) : Nat := digits.foldl (fun n c => n * 10 + (c.toNat - 48)) 0

/-- What a number stands for: an integer if it has neither point nor exponent and fits in 64 bits,
else a double. Minus zero is a double. -/
def NumberText.found (n : NumberText) (negative : Bool) : Except Fault Found :=
  let places := n.places.getD []
  let power : Int := match n.power with
    | some (true, digits) => -(natOf digits : Int)
    | some (false, digits) => natOf digits
    | none => 0
  let digits := natOf (n.whole ++ places)
  let float := match Double.ofDecimal negative digits (power - places.length) with
    | some d => .ok (.float d)
    | none => .error .numberOutOfRange
  match n.places, n.power with
  | none, none =>
    let m := natOf n.whole
    if negative then if 1 ≤ m ∧ m ≤ Nat.pow 2 63 then .ok (.integer (-m)) else float
    else if m < Nat.pow 2 64 then .ok (.integer m) else float
  | _, _ => float

def readNumber (negative : Bool) (cs : List Char) : Except Fault (Found × List Char) := do
  let (n, cs) ← readNumberText .endOfValue cs
  let found ← n.found negative
  .ok (found, cs)

end HostBridge.Reader
