import HostBridge.Proofs.Deserializer.Reading
import HostBridge.Proofs.Reader.Entries
/-!
# The reader is documented

The reader that the bridge runs with does what is documented of deserializers.
-/

namespace HostBridge.Reader

open Json

variable {α : Type} {s : Schema α} {x y : Draft α} {f : Field α} {entries : List Member}
  {name : List Letter} {key : List Char} {v : Json}

theorem enter?_skipped (undeclared : ∀ f ∈ s.fields, key ≠ f.key.toList) :
    x.enter? s key v = some x := by
  have absent : s.fields.find? (·.key = String.ofList key) = none := by
    refine List.find?_eq_none.mpr fun f mem same => undeclared f mem ?_
    rw [of_decide_eq_true same, String.toList_ofList]
  rw [Draft.enter?, absent]
  rfl

theorem enter?_own (mem : f ∈ s.fields) : x.enter? s f.key.toList v =
    if f.key ∈ x.given then none else (f.shape.value? v).map (x.put f) := by
  rw [Draft.enter?, String.ofList_toList, Keyed.find?_of_mem s.distinct mem]
  rfl

theorem enterAll?_snoc : x.enterAll? s (entries ++ [(name, v)]) =
    (x.enterAll? s entries).bind fun x => (decode name).bind fun key => x.enter? s key v := by
  induction entries generalizing x with
  | nil => simp [Draft.enterAll?]
  | cons e entries ih => simp only [List.cons_append, Draft.enterAll?, Option.bind_assoc, ih]

theorem enter?_cases (entered : x.enter? s key v = some y) :
    (y = x ∧ ∀ f ∈ s.fields, key ≠ f.key.toList) ∨
      ∃ f ∈ s.fields, ∃ a, key = f.key.toList ∧ y = x.put f a := by
  by_cases declared : ∃ f ∈ s.fields, key = f.key.toList
  · obtain ⟨f, mem, rfl⟩ := declared
    rw [enter?_own mem] at entered
    split at entered
    · cases entered
    · obtain ⟨a, _, rfl⟩ := Option.map_eq_some_iff.mp entered
      exact .inr ⟨f, mem, a, rfl, rfl⟩
  · have undeclared : ∀ f ∈ s.fields, key ≠ f.key.toList := fun f mem same => declared ⟨f, mem, same⟩
    rw [enter?_skipped undeclared] at entered
    cases entered
    exact .inl ⟨rfl, undeclared⟩

/-- The draft knows which fields have been given. -/
theorem mem_given (entered : (start s).enterAll? s entries = some x) (mem : f ∈ s.fields) :
    f.key ∈ x.given ↔ valuesOf f.key entries ≠ [] := by
  induction entries using List.reverseRecOn generalizing x with
  | nil =>
    cases entered
    simp [start, valuesOf]
  | append_singleton entries e ih =>
    obtain ⟨name, v⟩ := e
    rw [enterAll?_snoc] at entered
    obtain ⟨y, before, entered⟩ := Option.bind_eq_some_iff.mp entered
    obtain ⟨key, decoded, entered⟩ := Option.bind_eq_some_iff.mp entered
    rcases enter?_cases entered with ⟨rfl, undeclared⟩ | ⟨g, _, a, rfl, rfl⟩
    · rw [valuesOf_other fun own => undeclared f mem (Option.some.inj (decoded.symm.trans own))]
      exact ih before
    · by_cases same : f.key = g.key
      · rw [same, valuesOf_own decoded]
        simp [Draft.put]
      · rw [valuesOf_other (not_own decoded same)]
        simp [Draft.put, same, ih before]

end HostBridge.Reader

namespace HostBridge

open Json Reader

variable {α : Type} {s : Schema α} {d d' : Document} {r : α}

theorem fromText_reader (s : Schema α) (text : String) :
    reader.fromText s text = (read s text).mapError Fault.message := rfl

theorem reader_eq_ok : reader.fromText s d.text = .ok r ↔
    ∃ x, (start s).enterAll? s d.entries = some x ∧ x.record = r := by
  rw [← Option.map_eq_some_iff, ← read_text, fromText_reader]
  cases read s d.text <;> simp [Except.mapError, Except.toOption]

theorem reader_refuses : reader.Refuses s d ↔ (start s).enterAll? s d.entries = none := by
  rw [← Option.map_eq_none_iff (f := Draft.record), ← read_text, Deserializer.Refuses,
    fromText_reader]
  cases read s d.text <;> simp [Except.mapError, Except.toOption]

theorem reader_documented : reader.Documented where
  defaults s d no_entries := by
    refine reader_eq_ok.mpr ⟨start s, ?_, rfl⟩
    rw [no_entries]
    rfl
  entry s d d' name v more := by
    have entered : (start s).enterAll? s d'.entries =
        ((start s).enterAll? s d.entries).bind fun x =>
          (decode name).bind fun key => x.enter? s key v := by
      rw [more, enterAll?_snoc]
    -- a field's own entry: refused if the draft has one already
    have own : ∀ f ∈ s.fields, decode name = some f.key.toList →
        (start s).enterAll? s d'.entries = ((start s).enterAll? s d.entries).bind fun x =>
          if d.values f.key = [] then (f.shape.value? v).map (x.put f) else none := by
      intro f mem decoded
      rw [entered, decoded]
      refine Option.bind_congr fun x before => ?_
      rw [Option.bind_some, enter?_own mem, Document.values]
      simp only [mem_given before mem, ne_eq, ite_not]
    constructor
    case faulty =>
      intro refused
      rw [reader_refuses, entered, reader_refuses.mp refused]
      rfl
    case nameless =>
      intro half
      rw [reader_refuses, entered, half]
      simp
    case skipped =>
      intro key decoded undeclared r read
      obtain ⟨x, before, rfl⟩ := reader_eq_ok.mp read
      refine reader_eq_ok.mpr ⟨x, ?_, rfl⟩
      rw [entered, before, decoded]
      exact enter?_skipped undeclared
    case taken =>
      intro f mem decoded unset a stands r read
      obtain ⟨x, before, rfl⟩ := reader_eq_ok.mp read
      refine reader_eq_ok.mpr ⟨x.put f a, ?_, rfl⟩
      rw [own f mem decoded, before, Option.bind_some, if_pos unset, stands]
      rfl
    case other =>
      intro f mem decoded stands
      rw [reader_refuses, own f mem decoded, stands]
      simp
    case duplicate =>
      intro f mem decoded set
      rw [reader_refuses, own f mem decoded]
      simp [set]

end HostBridge
