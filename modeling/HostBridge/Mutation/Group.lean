import HostBridge.Mutation.Registry
/-!
# Interest groups

The observers that are interested in one mutation of a node: those registered on the node itself and
those registered on an ancestor with its subtree. A record goes to all of them; who has not asked for
the old value gets it without, and all of those get the same record.
-/

namespace HostBridge.Mutation

/-- The interests in a mutation of the first node of a chain; the others are its ancestors, the
nearest first. -/
def interests (chain : List Registrations) (kind : Kind) (attributeName : Option String) :
    Interests :=
  match chain with
  | [] => {}
  | target :: ancestors =>
    ancestors.foldl (fun m r => r.collect m kind attributeName false)
      (target.collect {} kind attributeName true)

structure Group where
  members : Interests
  oldValueFlag : Options
  deriving DecidableEq, Repr

structure NameMismatch where
  isAttribute : Bool
  named : Bool
  deriving DecidableEq, Repr

def NameMismatch.message (m : NameMismatch) : String :=
  let text (b : Bool) := if b then "true" else "false"
  "assertion `left == right` failed: attribute name must be given exactly for attribute mutations\n" ++
    "  left: " ++ text m.isAttribute ++ "\n right: " ++ text m.named

namespace Group

def create? (chain : List Registrations) (kind : Kind) (oldValueFlag : Options)
    (attributeName : Option String) : Except NameMismatch (Option Group) :=
  let isAttribute := kind == .attributes
  if isAttribute != attributeName.isSome then .error ⟨isAttribute, attributeName.isSome⟩
  else
    let members := interests chain kind attributeName
    .ok (if members.isEmpty then none else some ⟨members, oldValueFlag⟩)

def oldValueFlagOf : Kind → Options
  | .childList => .empty
  | .attributes => .attributeOldValue
  | .characterData => .characterDataOldValue

def forMutation (chain : List Registrations) (kind : Kind) (attributeName : String) :
    Option Group :=
  let name := if kind == .attributes then some attributeName else none
  (create? chain kind (oldValueFlagOf kind) name).toOption.join

def wantsOldValue (g : Group) (options : Options) : Bool := options.intersects g.oldValueFlag

def isOldValueRequested (g : Group) : Bool := g.members.members.any fun (_, o) => g.wantsOldValue o

def needsCopy (g : Group) (r : Record) : Bool :=
  r.oldValue.isSome && g.members.members.any fun (_, o) => !g.wantsOldValue o

def enqueue (g : Group) (o : Observers) (r : Record) : Observers :=
  let copy := r.withoutOldValue o.records
  let o := if g.needsCopy r then { o with records := o.records + 1 } else o
  g.members.members.foldl
    (fun o (observer, options) => o.enqueue observer (if g.wantsOldValue options then r else copy)) o

end Group

end HostBridge.Mutation
