import HostBridge.Handle
import HostBridge.Numeric.Layout
import HostBridge.Text.Quoted
/-!
# Script values

Values that cross between script and native code. Primitives are carried inline; an object is a
handle into the script heap, and objects alone concern the collector. Two values are the same
exactly when they are equal: a number is its bits, so a NaN is the same as itself and the two zeros
differ.
-/

namespace HostBridge

inductive Value
  | undefined
  | null
  | boolean (b : Bool)
  | number (n : Double)
  | string (s : String)
  | object (h : Handle)
  deriving DecidableEq, Repr, Inhabited

namespace Value

def same (a b : Value) : Bool := decide (a = b)

def isNullish : Value → Bool
  | undefined | null => true
  | _ => false

def object? : Value → Option Handle
  | object h => some h
  | _ => none

def number? : Value → Option Double
  | number n => some n
  | _ => none

def string? : Value → Option String
  | string s => some s
  | _ => none

def describe : Value → String
  | undefined => "undefined"
  | null => "null"
  | boolean b => if b then "true" else "false"
  | number n => n.plain
  | string s => quoted s
  | object h => s!"[object {h.describe}]"

end Value

end HostBridge
