import HostBridge.Deserializer
import HostBridge.Reader.Skip
/-!
# Reading records

A deserializer for the bridge to run with. The text of a record is an object with the fields in any
order, or a list with the fields by position. It is read from left to right, and the first fault found
is the answer.
-/

namespace HostBridge.Reader

/-- The fault of a value that is not what was expected; the value itself may be faulty. -/
def unexpected (expected : Expected) (cs : List Char) : Fault :=
  let found : Except Fault Found := match cs with
    | 'n' :: rest => (expectWord "ull".toList rest).map fun _ => .null
    | 't' :: rest => (expectWord "rue".toList rest).map fun _ => .boolean true
    | 'f' :: rest => (expectWord "alse".toList rest).map fun _ => .boolean false
    | '-' :: rest => (readNumber true rest).map Prod.fst
    | '"' :: rest => (readString rest).map fun (text, _) => .string (String.ofList text)
    | '[' :: _ => .ok .sequence
    | '\x7b' :: _ => .ok .map
    | c :: rest =>
      if c.isDigit then (readNumber false (c :: rest)).map Prod.fst else .error .expectedValue
    | [] => .error .expectedValue
  match found with
  | .ok found => .invalidType found expected
  | .error fault => fault

def unsigned (bits : Nat) : Found → Except Fault Nat
  | .integer n =>
    if 0 ≤ n ∧ n < Nat.pow 2 bits then .ok n.toNat else .error (.invalidValue n (.unsigned bits))
  | found => .error (.invalidType found (.unsigned bits))

def readUnsigned (bits : Nat) (cs : List Char) : Except Fault (Nat × List Char) := do
  match trim cs with
  | [] => .error .endOfValue
  | c :: rest =>
    if c = '-' ∨ c.isDigit then
      let (found, rest) ← if c = '-' then readNumber true rest else readNumber false (c :: rest)
      let n ← unsigned bits found
      .ok (n, rest)
    else .error (unexpected (.unsigned bits) (c :: rest))

def readNull (cs : List Char) : Except Fault (List Char) :=
  match trim cs with
  | [] => .error .endOfValue
  | 'n' :: rest => expectWord "ull".toList rest
  | cs => .error (unexpected .unit cs)

section

variable {α : Type} (names : List (String × α))

def named? (name : List Char) : Option α :=
  (names.find? (·.1 = String.ofList name)).map Prod.snd

def readVariantName (cs : List Char) : Except Fault (α × List Char) := do
  match trim cs with
  | [] => .error .endOfValue
  | '"' :: rest =>
    let (name, rest) ← readString rest
    match named? names name with
    | some a => .ok (a, rest)
    | none => .error (.unknownVariant (String.ofList name) (names.map Prod.fst))
  | cs => .error (unexpected .variantName cs)

/-- A variant is its name, or an object with the name as its one key and null behind it. -/
def readVariant (cs : List Char) : Except Fault (α × List Char) := do
  match trim cs with
  | [] => .error .endOfValue
  | '\x7b' :: rest =>
    let (a, rest) ← readVariantName names rest
    let rest ← colon rest
    let rest ← readNull rest
    match trim rest with
    | '\x7d' :: rest => .ok (a, rest)
    | [] => .error .endOfObject
    | _ => .error .expectedValue
  | '"' :: rest => readVariantName names ('"' :: rest)
  | _ => .error .expectedValue

end

def readShape : {α : Type} → Shape α → List Char → Read α
  | _, .u32, cs => (readUnsigned 32 cs).map fun (n, rest) => (UInt32.ofNat n, rest)
  | _, .u64, cs => (readUnsigned 64 cs).map fun (n, rest) => (UInt64.ofNat n, rest)
  | _, .variant names, cs => readVariant names cs
  | _, .map f shape, cs => (readShape shape cs).map fun (a, rest) => (f a, rest)

/-- A record that is being read, and the keys of the fields that have been given. -/
structure Draft (α : Type) where
  record : α
  given : List String := []

inductive KeyAt
  | key (rest : List Char)
  | closed (rest : List Char)

def nextKey (first : Bool) (cs : List Char) : Except Fault KeyAt :=
  match trim cs with
  | [] => .error .endOfObject
  | '\x7d' :: rest => .ok (.closed rest)
  | c :: rest =>
    if first then if c = '"' then .ok (.key rest) else .error .keyMustBeString
    else if c = ',' then
      match trim rest with
      | [] => .error .endOfValue
      | '"' :: rest => .ok (.key rest)
      | '\x7d' :: _ => .error .trailingComma
      | _ => .error .keyMustBeString
    else .error .expectedObjectCommaOrEnd

def nextElement (first : Bool) (cs : List Char) : Except Fault (Option (List Char)) :=
  match trim cs with
  | [] => .error .endOfList
  | ']' :: _ => .ok none
  | c :: rest =>
    if first then .ok (some (c :: rest))
    else if c = ',' then
      match trim rest with
      | [] => .error .endOfValue
      | ']' :: _ => .error .trailingComma
      | rest => .ok (some rest)
    else .error .expectedListCommaOrEnd

def endList (cs : List Char) : Except Fault (List Char) :=
  match trim cs with
  | [] => .error .endOfList
  | ']' :: rest => .ok rest
  | ',' :: rest =>
    match trim rest with
    | ']' :: _ => .error .trailingComma
    | _ => .error .trailingCharacters
  | _ => .error .trailingCharacters

variable {α : Type}

def readField (f : Field α) (x : Draft α) (cs : List Char) : Except Fault (Draft α × List Char) :=
  (readShape f.shape cs).map fun (a, rest) =>
    ({ record := f.put a x.record, given := f.key :: x.given }, rest)

def readElements (first : Bool) (x : Draft α) :
    List (Field α) → List Char → Except Fault (Draft α × List Char)
  | [], cs => .ok (x, cs)
  | f :: fields, cs => do
    match ← nextElement first cs with
    | none => .ok (x, cs)
    | some cs =>
      let (x, rest) ← readField f x cs
      readElements false x fields rest

variable (schema : Schema α)

def start : Draft α where
  record := schema.default

/-- Reads what follows a key: its colon and its value. A key given twice is noticed before both. -/
def readEntry (x : Draft α) (key : List Char) (cs : List Char) :
    Except Fault (Draft α × List Char) :=
  match schema.fields.find? (·.key = String.ofList key) with
  | some f => if f.key ∈ x.given then .error (.duplicateField f.key) else colon cs >>= readField f x
  | none => (colon cs >>= skipValue []).map fun rest => (x, rest)

/-- Reads the entries of an object behind its opening brace. No more than `entries` are read, and a
text has at least as many characters as entries. -/
def readEntries (entries : Nat) (first : Bool) (x : Draft α) (cs : List Char) :
    Except Fault (Draft α × List Char) :=
  match entries with
  | 0 => .error .endOfObject
  | entries + 1 => do
    match ← nextKey first cs with
    | .closed rest => .ok (x, rest)
    | .key rest =>
      let (key, rest) ← readString rest
      let (x, rest) ← readEntry schema x key rest
      readEntries entries false x rest

def readDraft (cs : List Char) : Except Fault (Draft α × List Char) := do
  match trim cs with
  | [] => .error .endOfValue
  | '[' :: rest =>
    let (x, rest) ← readElements true (start schema) schema.fields rest
    let rest ← endList rest
    .ok (x, rest)
  | '\x7b' :: rest => readEntries schema (rest.length + 1) true (start schema) rest
  | cs => .error (unexpected (.record schema.name) cs)

def read (text : String) : Except Fault α := do
  let (x, rest) ← readDraft schema text.toList
  if (trim rest).isEmpty then .ok x.record else .error .trailingCharacters

end HostBridge.Reader

namespace HostBridge

def reader : Deserializer where
  fromText schema text := (Reader.read schema text).mapError Reader.Fault.message

end HostBridge
