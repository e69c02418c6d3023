import HostBridge.Deserializer
import HostBridge.Proofs.Deserializer.Json
/-!
# Documented deserializers

What may be relied on of a deserializer that is given the text of an object. It goes through the
entries in their order, so this is said of one more entry behind others, whatever blanks, escapes and
values the text holds.
-/

namespace HostBridge

open Json

def Shape.value? : {α : Type} → Shape α → Json → Option α
  | _, .u32, v => (v.unsigned? 32).map UInt32.ofNat
  | _, .u64, v => (v.unsigned? 64).map UInt64.ofNat
  | _, .variant names, v =>
    v.name?.bind fun name => (names.find? (·.1 = String.ofList name)).map Prod.snd
  | _, .map f shape, v => (shape.value? v).map f

namespace Deserializer

variable (de : Deserializer) {α : Type} (s : Schema α)

def Refuses (d : Document) : Prop := ∃ fault, de.fromText s d.text = .error fault

/-- What `d'` is read as, which has one more entry than `d`. -/
structure Enters (d d' : Document) (name : List Letter) (v : Json) : Prop where
  faulty : de.Refuses s d → de.Refuses s d'
  /-- A key with half of a surrogate pair is no text. -/
  nameless : decode name = none → de.Refuses s d'
  skipped : ∀ key, decode name = some key → (∀ f ∈ s.fields, key ≠ f.key.toList) →
    ∀ x, de.fromText s d.text = .ok x → de.fromText s d'.text = .ok x
  taken : ∀ f ∈ s.fields, decode name = some f.key.toList → d.values f.key = [] →
    ∀ a, f.shape.value? v = some a →
    ∀ x, de.fromText s d.text = .ok x → de.fromText s d'.text = .ok (f.put a x)
  other : ∀ f ∈ s.fields, decode name = some f.key.toList → f.shape.value? v = none →
    de.Refuses s d'
  duplicate : ∀ f ∈ s.fields, decode name = some f.key.toList → d.values f.key ≠ [] →
    de.Refuses s d'

structure Documented : Prop where
  defaults : ∀ {α : Type} (s : Schema α) (d : Document), d.entries = [] →
    de.fromText s d.text = .ok s.default
  entry : ∀ {α : Type} (s : Schema α) (d d' : Document) (name : List Letter) (v : Json),
    d'.entries = d.entries ++ [(name, v)] → de.Enters s d d' name v

end Deserializer

end HostBridge
