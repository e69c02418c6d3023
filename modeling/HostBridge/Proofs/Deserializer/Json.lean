import Mathlib.Data.Nat.Digits.Defs
/-!
# Texts of objects

The grammar of JSON texts, as trees that hold every letter that may be written: blanks, escapes and
the digits of numbers. `text` is what a tree is written as, `decode` and `value` what is meant by it.
-/

namespace HostBridge.Json

/-! ## Blanks -/

inductive Blank
  | space
  | newline
  | tab
  | return
  deriving DecidableEq, Repr

def Blank.char : Blank → Char
  | space => ' '
  | newline => '\n'
  | tab => '\t'
  | .return => '\r'

def blanks (b : List Blank) : List Char := b.map Blank.char

/-! ## Strings -/

structure HexDigit where
  value : Fin 16
  upper : Bool := false
  deriving DecidableEq, Repr

def HexDigit.char (d : HexDigit) : Char :=
  if d.value < 10 then Char.ofNat (48 + d.value)
  else if d.upper then Char.ofNat (55 + d.value)
  else Char.ofNat (87 + d.value)

structure CodeUnit where
  a : HexDigit
  b : HexDigit
  c : HexDigit
  d : HexDigit
  deriving DecidableEq, Repr

namespace CodeUnit

def text (u : CodeUnit) : List Char := [u.a.char, u.b.char, u.c.char, u.d.char]

def value (u : CodeUnit) : Nat :=
  16 ^ 3 * u.a.value + 16 ^ 2 * u.b.value + 16 * u.c.value + u.d.value

def Leads (u : CodeUnit) : Prop := 0xd800 ≤ u.value ∧ u.value < 0xdc00

def Trails (u : CodeUnit) : Prop := 0xdc00 ≤ u.value ∧ u.value < 0xe000

instance (u : CodeUnit) : Decidable u.Leads := inferInstanceAs (Decidable (_ ∧ _))

instance (u : CodeUnit) : Decidable u.Trails := inferInstanceAs (Decidable (_ ∧ _))

def pair (u v : CodeUnit) : Char :=
  Char.ofNat (0x10000 + (u.value - 0xd800) * 0x400 + (v.value - 0xdc00))

end CodeUnit

inductive Short
  | quote
  | backslash
  | slash
  | backspace
  | formFeed
  | newline
  | return
  | tab
  deriving DecidableEq, Repr

namespace Short

def mark : Short → Char
  | quote => '"'
  | backslash => '\\'
  | slash => '/'
  | backspace => 'b'
  | formFeed => 'f'
  | newline => 'n'
  | .return => 'r'
  | tab => 't'

def char : Short → Char
  | quote => '"'
  | backslash => '\\'
  | slash => '/'
  | backspace => '\x08'
  | formFeed => '\x0c'
  | newline => '\n'
  | .return => '\r'
  | tab => '\t'

end Short

def IsPlain (c : Char) : Prop := 0x20 ≤ c.toNat ∧ c ≠ '"' ∧ c ≠ '\\'

instance (c : Char) : Decidable (IsPlain c) := inferInstanceAs (Decidable (_ ∧ _))

def Plain : Type := { c : Char // IsPlain c }

inductive Letter
  | plain (c : Plain)
  | short (s : Short)
  | unit (u : CodeUnit)

def Letter.text : Letter → List Char
  | plain c => [c.val]
  | short s => ['\\', s.mark]
  | unit u => '\\' :: 'u' :: u.text

def written (s : List Letter) : List Char := s.flatMap Letter.text

/-- The characters of a string. Half of a surrogate pair does not stand for a character. -/
def decode : List Letter → Option (List Char)
  | [] => some []
  | .plain c :: s => (decode s).map (c.val :: ·)
  | .short e :: s => (decode s).map (e.char :: ·)
  | .unit u :: .unit v :: s =>
    if u.Trails then none
    else if u.Leads then if v.Trails then (decode s).map (u.pair v :: ·) else none
    else (decode (.unit v :: s)).map (Char.ofNat u.value :: ·)
  | .unit u :: s =>
    if u.Trails ∨ u.Leads then none else (decode s).map (Char.ofNat u.value :: ·)

/-! ## Numbers -/

def digit (d : Fin 10) : Char := Char.ofNat (48 + d)

inductive Whole
  | zero
  | nonzero (first : Fin 9) (rest : List (Fin 10))
  deriving DecidableEq, Repr

namespace Whole

def digits : Whole → List (Fin 10)
  | zero => [0]
  | nonzero first rest => first.succ :: rest

def value (w : Whole) : Nat := Nat.ofDigits 10 (w.digits.map Fin.val).reverse

end Whole

structure Digits where
  first : Fin 10
  rest : List (Fin 10)
  deriving DecidableEq, Repr

def Digits.text (ds : Digits) : List Char := (ds.first :: ds.rest).map digit

inductive Sign
  | plus
  | minus
  deriving DecidableEq, Repr

def Sign.char : Sign → Char
  | plus => '+'
  | minus => '-'

structure Power where
  upper : Bool
  sign : Option Sign
  digits : Digits
  deriving DecidableEq, Repr

def Power.text (p : Power) : List Char :=
  (if p.upper then 'E' else 'e') :: (p.sign.toList.map Sign.char ++ p.digits.text)

structure Numeral where
  negative : Bool := false
  whole : Whole
  places : Option Digits := none
  power : Option Power := none
  deriving DecidableEq, Repr

namespace Numeral

def magnitude (n : Numeral) : List Char :=
  n.whole.digits.map digit ++
    ((n.places.elim [] fun ds => '.' :: ds.text) ++ n.power.elim [] Power.text)

def text (n : Numeral) : List Char := if n.negative then '-' :: n.magnitude else n.magnitude

end Numeral

/-! ## Values -/

inductive Word
  | null
  | true
  | false
  deriving DecidableEq, Repr

def Word.text : Word → List Char
  | null => "null".toList
  | .true => "true".toList
  | .false => "false".toList

structure Key where
  before : List Blank := []
  name : List Letter
  after : List Blank := []

def Key.text (k : Key) : List Char :=
  blanks k.before ++ '"' :: written k.name ++ '"' :: blanks k.after ++ [':']

end Json

mutual

inductive Json
  | word (w : Json.Word)
  | number (n : Json.Numeral)
  | string (s : List Json.Letter)
  | emptyList (inside : List Json.Blank)
  | list (elements : Json.Elements)
  | emptyObject (inside : List Json.Blank)
  | object (members : Json.Members)

inductive Json.Elements
  | last (before : List Json.Blank) (value : Json) (after : List Json.Blank)
  | cons (before : List Json.Blank) (value : Json) (after : List Json.Blank) (rest : Json.Elements)

inductive Json.Members
  | last (key : Json.Key) (before : List Json.Blank) (value : Json) (after : List Json.Blank)
  | cons (key : Json.Key) (before : List Json.Blank) (value : Json) (after : List Json.Blank)
    (rest : Json.Members)

end

namespace Json

def unsigned? (bits : Nat) : Json → Option Nat
  | number ⟨false, whole, none, none⟩ => if whole.value < 2 ^ bits then some whole.value else none
  | _ => none

def name? : Json → Option (List Char)
  | string s => decode s
  | object (.last key _ (word .null) _) => decode key.name
  | _ => none

mutual

def text : Json → List Char
  | .word w => w.text
  | .number n => n.text
  | .string s => '"' :: written s ++ ['"']
  | .emptyList inside => '[' :: blanks inside ++ [']']
  | .list elements => '[' :: elements.text ++ [']']
  | .emptyObject inside => '\x7b' :: blanks inside ++ ['\x7d']
  | .object members => '\x7b' :: members.text ++ ['\x7d']

def Elements.text : Elements → List Char
  | .last before value after => blanks before ++ value.text ++ blanks after
  | .cons before value after rest =>
    blanks before ++ value.text ++ blanks after ++ ',' :: rest.text

def Members.text : Members → List Char
  | .last key before value after => key.text ++ blanks before ++ value.text ++ blanks after
  | .cons key before value after rest =>
    key.text ++ blanks before ++ value.text ++ blanks after ++ ',' :: rest.text

end

abbrev Member := List Letter × Json

def Members.entries : Members → List Member
  | last key _ value _ => [(key.name, value)]
  | cons key _ value _ rest => (key.name, value) :: rest.entries

def valuesOf (key : String) : List Member → List Json
  | [] => []
  | (name, value) :: entries =>
    if decode name = some key.toList then value :: valuesOf key entries else valuesOf key entries

structure Document where
  before : List Blank := []
  object : List Blank ⊕ Members
  after : List Blank := []

namespace Document

def text (d : Document) : String :=
  String.ofList (blanks d.before ++ (d.object.elim Json.emptyObject Json.object).text ++ blanks d.after)

def entries (d : Document) : List Member := d.object.elim (fun _ => []) Members.entries

def values (d : Document) (key : String) : List Json := valuesOf key d.entries

end Document

/-! ## Documents without blanks -/

def Members.ofEntries (e : Member) : List Member → Members
  | [] => last { name := e.1 } [] e.2 []
  | e' :: entries => cons { name := e.1 } [] e.2 [] (ofEntries e' entries)

def Document.ofEntries : List Member → Document
  | [] => { object := .inl [] }
  | e :: entries => { object := .inr (Members.ofEntries e entries) }

@[simp] theorem Members.entries_ofEntries (e : Member) (entries : List Member) :
    (Members.ofEntries e entries).entries = e :: entries := by
  induction entries generalizing e with
  | nil => rfl
  | cons e' entries ih => exact congrArg (e :: ·) (ih e')

@[simp] theorem Document.entries_ofEntries (entries : List Member) :
    (Document.ofEntries entries).entries = entries := by
  cases entries with
  | nil => rfl
  | cons e entries => exact Members.entries_ofEntries e entries

end HostBridge.Json
