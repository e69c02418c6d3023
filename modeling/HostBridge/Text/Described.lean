/-!
# Descriptions

The one-line text that describes a value to a developer: a name with the fields in braces, each as
`name: value`. A description may leave fields out and says so by two dots.
-/

namespace HostBridge

namespace Described

def fields (fields : List (String × String)) : String :=
  String.intercalate ", " (fields.map fun (name, value) => name ++ ": " ++ value)

def record (name : String) (fs : List (String × String)) : String :=
  name ++ " \x7b " ++ fields fs ++ " \x7d"

def excerpt (name : String) (fs : List (String × String)) : String :=
  name ++ " \x7b " ++ fields fs ++ ", .. \x7d"

def wrapped (name value : String) : String := name ++ "(" ++ value ++ ")"

def option : Option String → String
  | none => "None"
  | some value => wrapped "Some" value

end Described

end HostBridge
