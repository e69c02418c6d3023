/-!
# Mutation options

What an observer wants to hear of, as a set of seven flags.
-/

namespace HostBridge.Mutation

structure Options where
  bits : UInt8
  deriving DecidableEq, Repr, Inhabited

namespace Options

def empty : Options := ⟨0⟩
def childList : Options := ⟨1⟩
def attributes : Options := ⟨2⟩
def characterData : Options := ⟨4⟩
def subtree : Options := ⟨8⟩
def attributeOldValue : Options := ⟨16⟩
def characterDataOldValue : Options := ⟨32⟩
def attributeFilter : Options := ⟨64⟩

def isEmpty (o : Options) : Bool := o.bits == 0

def contains (o p : Options) : Bool := o.bits &&& p.bits == p.bits

def intersects (o p : Options) : Bool := o.bits &&& p.bits != 0

def union (o p : Options) : Options := ⟨o.bits ||| p.bits⟩

def flags : List (Options × String) :=
  [(childList, "CHILD_LIST"), (attributes, "ATTRIBUTES"), (characterData, "CHARACTER_DATA"),
    (subtree, "SUBTREE"), (attributeOldValue, "ATTRIBUTE_OLD_VALUE"),
    (characterDataOldValue, "CHARACTER_DATA_OLD_VALUE"), (attributeFilter, "ATTRIBUTE_FILTER")]

def describe (o : Options) : String :=
  let set := (flags.filter fun (flag, _) => o.contains flag).map Prod.snd
  "MutationObserverOptions(" ++ String.intercalate " | " set ++ ")"

end Options

inductive Kind
  | childList
  | attributes
  | characterData
  deriving DecidableEq, Repr, Inhabited

namespace Kind

def option : Kind → Options
  | childList => .childList
  | attributes => .attributes
  | characterData => .characterData

def name : Kind → String
  | childList => "childList"
  | attributes => "attributes"
  | characterData => "characterData"

end Kind

end HostBridge.Mutation
