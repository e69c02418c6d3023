/-!
# Deserializers

The bridge reads a record from a text by a deserializer that it does not define. It tells the
deserializer what it declares of the record: its default, its fields with their keys, and how the
values of the fields are given.
-/

namespace HostBridge

/-- How the values of a type are given in a text. -/
inductive Shape : Type → Type 1
  | u32 : Shape UInt32
  | u64 : Shape UInt64
  | variant {α : Type} (names : List (String × α)) : Shape α
  | map {α β : Type} (f : α → β) (shape : Shape α) : Shape β

structure Field (α : Type) where
  Value : Type
  key : String
  shape : Shape Value
  get : α → Value
  put : Value → α → α

/-- What is declared of a record. It has no parts but its fields, and each is apart from the others. -/
structure Schema (α : Type) where
  name : String
  default : α
  fields : List (Field α)
  distinct : (fields.map Field.key).Nodup
  get_put : ∀ f ∈ fields, ∀ a x, f.get (f.put a x) = a
  get_put_other : ∀ f ∈ fields, ∀ g ∈ fields, g.key ≠ f.key → ∀ a x, g.get (f.put a x) = g.get x
  ext : ∀ x y, (∀ f ∈ fields, f.get x = f.get y) → x = y

/-- A deserializer makes a record of a whole text, or it says what is wrong with the text. -/
structure Deserializer where
  fromText : {α : Type} → Schema α → String → Except String α

end HostBridge
