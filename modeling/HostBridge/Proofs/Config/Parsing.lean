import HostBridge.Config.Parsing
import HostBridge.Proofs.Reader.Records
/-!
# Parsing configurations

With a documented deserializer, the text of an object is parsed as the configuration that it says: the
fields that are given once, with values of their shapes, and the defaults for the others. Every other
object is refused. A configuration written as an object is parsed as itself again.
-/

namespace HostBridge.Json

namespace Whole

def snoc : Whole → Fin 10 → Whole
  | zero, ⟨0, _⟩ => zero
  | zero, ⟨d + 1, small⟩ => nonzero ⟨d, Nat.lt_of_succ_lt_succ small⟩ []
  | nonzero first rest, d => nonzero first (rest ++ [d])

def ofNat (n : Nat) : Whole :=
  (Nat.digits 10 n).foldr (fun d w => w.snoc ⟨d % 10, Nat.mod_lt d (by decide)⟩) zero

theorem value_snoc (w : Whole) (d : Fin 10) : (w.snoc d).value = d + 10 * w.value := by
  cases w with
  | zero =>
    obtain ⟨d, small⟩ := d
    cases d with
    | zero => rfl
    | succ d => simp [snoc, value, digits]
  | nonzero first rest => simp [snoc, value, digits, Nat.ofDigits_cons]

theorem value_ofNat (n : Nat) : (ofNat n).value = n := by
  have folded : ∀ ds : List Nat, (∀ d ∈ ds, d < 10) →
      (ds.foldr (fun d w => w.snoc ⟨d % 10, Nat.mod_lt d (by decide)⟩) zero).value =
        Nat.ofDigits 10 ds := by
    intro ds small
    induction ds with
    | nil => rfl
    | cons d ds ih =>
      obtain ⟨digit, small⟩ := List.forall_mem_cons.mp small
      simp only [List.foldr_cons, value_snoc, ih small, Nat.ofDigits_cons, Nat.mod_eq_of_lt digit]
  rw [ofNat, folded _ fun d mem => Nat.digits_lt_base (by decide) mem, Nat.ofDigits_digits]

end Whole

def natural (n : Nat) : Json := .number { whole := .ofNat n }

theorem unsigned?_natural {bits n : Nat} (fits : n < 2 ^ bits) :
    (natural n).unsigned? bits = some n := by
  show (if (Whole.ofNat n).value < 2 ^ bits then some (Whole.ofNat n).value else none) = _
  rw [Whole.value_ofNat, if_pos fits]

def HexDigit.ofNat (n : Nat) : HexDigit := { value := ⟨n % 16, Nat.mod_lt n (by decide)⟩ }

def CodeUnit.ofNat (n : Nat) : CodeUnit :=
  ⟨.ofNat (n / 16 ^ 3), .ofNat (n / 16 ^ 2), .ofNat (n / 16), .ofNat n⟩

/-- A text as it is; what would need an escape is left out. -/
def spelled (text : String) : List Letter :=
  text.toList.filterMap fun c => if plain : IsPlain c then some (.plain ⟨c, plain⟩) else none

theorem decode_spelled {text : String}
    (plain : text.toList.all (fun c => decide (IsPlain c)) = true) :
    decode (spelled text) = some text.toList := by
  unfold spelled
  generalize text.toList = cs at plain ⊢
  induction cs with
  | nil => rfl
  | cons c cs ih =>
    obtain ⟨first, others⟩ := Bool.and_eq_true_iff.mp plain
    rw [List.filterMap_cons_some (dif_pos (of_decide_eq_true first))]
    show (decode _).map (c :: ·) = _
    rw [ih others]
    rfl

end HostBridge.Json

namespace HostBridge.Config

open Json

def Refused (de : Deserializer) (d : Document) : Prop :=
  ∃ fault, parse de d.text = .error (.invalidConfig fault)

structure Parses (de : Deserializer) (d : Document) : Prop where
  ok_iff : ∀ c, parse de d.text = .ok c ↔ Means declared d.entries c
  reads : (∀ e ∈ d.entries, (decode e.1).isSome) →
    (∀ f ∈ declared.fields, ∃ a, f.Sets (d.values f.key) (f.get {}) a) →
    ∃ c, parse de d.text = .ok c
  twice : ∀ f ∈ declared.fields, 1 < (d.values f.key).length → Refused de d
  other : ∀ f ∈ declared.fields, ∀ v ∈ d.values f.key, f.shape.value? v = none → Refused de d

variable {de : Deserializer} {d : Document} {c : Config}

theorem parse_ok_iff (documented : de.Documented) :
    parse de d.text = .ok c ↔ Means declared d.entries c := by
  rw [← documented.ok_iff, parse]
  cases de.fromText declared d.text <;> simp [Except.mapError]

theorem refused_of_not_means (documented : de.Documented)
    (silent : ∀ c, ¬ Means declared d.entries c) : Refused de d := by
  obtain ⟨fault, refused⟩ := documented.refuses silent
  exact ⟨fault, by rw [parse, refused]; rfl⟩

theorem parses (documented : de.Documented) (d : Document) : Parses de d where
  ok_iff _ := parse_ok_iff documented
  reads named given := by
    obtain ⟨c, sets⟩ := declared.exists_record given
    exact ⟨c, (parse_ok_iff documented).mpr ⟨named, sets⟩⟩
  twice f mem more := by
    refine refused_of_not_means documented fun c means => ?_
    rcases means.fields f mem with ⟨none, _⟩ | ⟨v, one, _⟩
    · rw [Document.values, none] at more
      cases more
    · rw [Document.values, one] at more
      exact absurd more (Nat.lt_irrefl 1)
  other f mem v given other := by
    refine refused_of_not_means documented fun c means => ?_
    rcases means.fields f mem with ⟨none, _⟩ | ⟨v', one, stands⟩
    · rw [Document.values, none] at given
      cases given
    · rw [Document.values, one, List.mem_singleton] at given
      rw [given, stands] at other
      cases other

def rendered (c : Config) : Document := .ofEntries
  [(spelled policyField.key, .string (spelled c.policy.name)),
   (spelled levelField.key, natural c.maxLevel.toNat),
   (spelled timeoutField.key, natural c.minTimeout.millis)]

theorem decode_key {f : Field Config} (mem : f ∈ declared.fields) :
    decode (spelled f.key) = some f.key.toList := by
  have plain : declared.fields.all fun f => f.key.toList.all fun c => decide (IsPlain c) := by decide
  exact decode_spelled (List.all_eq_true.mp plain f mem)

theorem policy_of_name (p : RejectionPolicy) :
    policyField.shape.value? (.string (spelled p.name)) = some p := by
  have decoded : decode (spelled p.name) = some p.name.toList :=
    decode_spelled (by cases p <;> decide)
  simp only [policyField, Shape.value?, name?, decoded, Option.bind_some, String.ofList_toList]
  cases p <;> decide

theorem level_of_natural (n : UInt32) : levelField.shape.value? (natural n.toNat) = some n := by
  show ((natural n.toNat).unsigned? 32).map UInt32.ofNat = some n
  rw [unsigned?_natural n.toNat_lt]
  exact congrArg some UInt32.ofNat_toNat

theorem timeout_of_natural {d : Duration} (fits : d.millis < 2 ^ 64) :
    timeoutField.shape.value? (natural d.millis) = some d := by
  show (((natural d.millis).unsigned? 64).map UInt64.ofNat).map Config.millis = some d
  rw [unsigned?_natural fits]
  exact congrArg some (congrArg Duration.mk (UInt64.toNat_ofNat_of_lt' fits))

theorem values_rendered (c : Config) :
    (rendered c).values policyField.key = [.string (spelled c.policy.name)] ∧
      (rendered c).values levelField.key = [natural c.maxLevel.toNat] ∧
      (rendered c).values timeoutField.key = [natural c.minTimeout.millis] := by
  have policy : decode (spelled policyField.key) = _ := decode_key (.head _)
  have level : decode (spelled levelField.key) = _ := decode_key (.tail _ (.head _))
  have timeout : decode (spelled timeoutField.key) = _ := decode_key (.tail _ (.tail _ (.head _)))
  have apart : policyField.key ≠ levelField.key ∧ policyField.key ≠ timeoutField.key ∧
      levelField.key ≠ timeoutField.key := by decide
  simp [Document.values, rendered, valuesOf, policy, level, timeout, String.toList_inj, apart,
    apart.1.symm, apart.2.1.symm, apart.2.2.symm]

theorem rendered_means {c : Config} (fits : c.minTimeout.millis < 2 ^ 64) :
    Means declared (rendered c).entries c := by
  obtain ⟨policy, level, timeout⟩ := values_rendered c
  constructor
  · have named : ∀ f ∈ declared.fields, (decode (spelled f.key)).isSome := fun f mem => by
      rw [decode_key mem]
      rfl
    rw [rendered, Document.entries_ofEntries]
    simpa [declared] using named
  · refine List.forall_mem_cons.mpr ⟨?_, List.forall_mem_cons.mpr ⟨?_, List.forall_mem_singleton.mpr ?_⟩⟩
    · exact .inr ⟨_, policy, policy_of_name c.policy⟩
    · exact .inr ⟨_, level, level_of_natural c.maxLevel⟩
    · exact .inr ⟨_, timeout, timeout_of_natural fits⟩

/-- With a documented deserializer, every object is parsed as what it says, and every configuration is
parsed back from its rendering. -/
theorem configurations_are_parsed (de : Deserializer) (documented : de.Documented) :
    (∀ d : Document, Parses de d) ∧ ∀ (p : RejectionPolicy) (level : UInt32) (timeout : UInt64),
      parse de (rendered ⟨p, level, millis timeout⟩).text = .ok ⟨p, level, millis timeout⟩ :=
  ⟨parses documented, fun _ _ timeout =>
    (parse_ok_iff documented).mpr (rendered_means timeout.toNat_lt)⟩

/-- The fields in another order, one key with an escape, and a key that is skipped with a list. The
list holds half of a surrogate pair, and a number that is out of range. -/
def mixed : Document where
  before := [.newline]
  object := .inr <|
    .cons { name := spelled timeoutField.key, after := [.space] } [.space]
      (natural 18446744073709551615) [.tab] <|
    .cons { before := [.space], name := [.short .quote] } [.newline]
      (.list <|
        .cons [] (.object <| .last { name := spelled policyField.key } []
          (.string [.unit (.ofNat 0xd800)]) []) [.space] <|
        .last [.space]
          (.number ⟨false, .ofNat 1, none, some ⟨true, none, ⟨.last 9, [.last 9, .last 9]⟩⟩⟩) []) [] <|
    .last { name := .unit (.ofNat 0x72) :: spelled "ejection_policy" } []
      (.object <| .last { name := spelled "once" } [.space] (.word .null) []) [.return]

theorem mixed_means : Means declared mixed.entries
    { policy := .once, minTimeout := millis 18446744073709551615 } := by
  constructor
  · have named : mixed.entries.all fun e => (decode e.1).isSome := by decide +kernel
    exact List.all_eq_true.mp named
  · refine List.forall_mem_cons.mpr ⟨?_, List.forall_mem_cons.mpr ⟨?_, List.forall_mem_singleton.mpr ?_⟩⟩
    · exact .inr ⟨_, rfl, rfl⟩
    · exact .inl ⟨rfl, rfl⟩
    · exact .inr ⟨_, rfl, timeout_of_natural (by decide)⟩

theorem mixed_object_is_parsed : reader.Documented ∧
    mixed.text = "\n\x7b\"min_nested_timeout_ms\" : 18446744073709551615\t, \"\\\"\":\n" ++
      "[\x7b\"rejection_policy\":\"\\ud800\"\x7d , 1E999]," ++
      "\"\\u0072ejection_policy\":\x7b\"once\": null\x7d\r\x7d" ∧
    parse reader mixed.text =
      .ok { policy := .once, minTimeout := millis 18446744073709551615 } := by
  have parsed := (configurations_are_parsed reader reader_documented).1 mixed
  exact ⟨reader_documented, by decide +kernel, (parsed.ok_iff _).mpr mixed_means⟩

example : (rendered {}).text = "\x7b\"rejection_policy\":\"every_drain\"," ++
    "\"max_timer_nesting_level\":5,\"min_nested_timeout_ms\":4\x7d" := by
  decide +kernel

end HostBridge.Config
