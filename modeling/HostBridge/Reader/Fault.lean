import HostBridge.Numeric.Layout
import HostBridge.Text.Quoted
/-!
# Faults of a text

What can be wrong with the text of a record: its syntax, or a value of another kind than the one
expected there.
-/

namespace HostBridge.Reader

inductive Found
  | null
  | boolean (b : Bool)
  | integer (n : Int)
  | float (d : Double)
  | string (s : String)
  | sequence
  | map
  deriving DecidableEq, Repr

inductive Expected
  | record (name : String)
  | variantName
  | unit
  | unsigned (bits : Nat)
  deriving DecidableEq, Repr

inductive Fault
  | endOfValue
  | endOfObject
  | endOfList
  | endOfString
  | expectedColon
  | expectedListCommaOrEnd
  | expectedObjectCommaOrEnd
  | expectedIdent
  | expectedValue
  | invalidEscape
  | invalidNumber
  | numberOutOfRange
  | controlCharacter
  | keyMustBeString
  | loneSurrogate
  | trailingComma
  | trailingCharacters
  | endOfHexEscape
  | invalidType (found : Found) (expected : Expected)
  | invalidValue (n : Int) (expected : Expected)
  | unknownVariant (name : String) (expected : List String)
  | duplicateField (name : String)
  deriving DecidableEq, Repr

def Found.describe : Found → String
  | null => "null"
  | boolean b => if b then "boolean `true`" else "boolean `false`"
  | integer n => "integer `" ++ toString n ++ "`"
  | float d => "floating point `" ++ d.literal ++ "`"
  | string s => "string " ++ quoted s
  | sequence => "sequence"
  | map => "map"

def Expected.describe : Expected → String
  | record name => "struct " ++ name
  | variantName => "variant identifier"
  | unit => "unit"
  | unsigned bits => "u" ++ toString bits

def oneOf : List String → String
  | [] => "there are no variants"
  | [a] => "expected `" ++ a ++ "`"
  | [a, b] => "expected `" ++ a ++ "` or `" ++ b ++ "`"
  | names => "expected one of " ++ ", ".intercalate (names.map fun a => "`" ++ a ++ "`")

def Fault.message : Fault → String
  | endOfValue => "EOF while parsing a value"
  | endOfObject => "EOF while parsing an object"
  | endOfList => "EOF while parsing a list"
  | endOfString => "EOF while parsing a string"
  | expectedColon => "expected `:`"
  | expectedListCommaOrEnd => "expected `,` or `]`"
  | expectedObjectCommaOrEnd => "expected `,` or `\x7d`"
  | expectedIdent => "expected ident"
  | expectedValue => "expected value"
  | invalidEscape => "invalid escape"
  | invalidNumber => "invalid number"
  | numberOutOfRange => "number out of range"
  | controlCharacter => "control character (\\u0000-\\u001F) found while parsing a string"
  | keyMustBeString => "key must be a string"
  | loneSurrogate => "lone leading surrogate in hex escape"
  | trailingComma => "trailing comma"
  | trailingCharacters => "trailing characters"
  | endOfHexEscape => "unexpected end of hex escape"
  | invalidType found expected =>
    "invalid type: " ++ found.describe ++ ", expected " ++ expected.describe
  | invalidValue n expected =>
    "invalid value: " ++ (Found.integer n).describe ++ ", expected " ++ expected.describe
  | unknownVariant name expected => "unknown variant `" ++ name ++ "`, " ++ oneOf expected
  | duplicateField name => "duplicate field `" ++ name ++ "`"

end HostBridge.Reader
