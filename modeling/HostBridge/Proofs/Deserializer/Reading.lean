import HostBridge.Proofs.Deserializer.Documented
import HostBridge.Proofs.Keyed
import Mathlib.Data.List.Induction
/-!
# What is read of an object

A documented deserializer reads an object as the record that its entries say, entry by entry, and
refuses it if they say none.
-/

namespace HostBridge

open Json

variable {α : Type} {s : Schema α} {entries : List Member} {name : List Letter} {v : Json} {x y : α}

/-- A field is what its only value stands for, or its default if it has no value. -/
def Field.Sets (f : Field α) (values : List Json) (default a : f.Value) : Prop :=
  values = [] ∧ a = default ∨ ∃ v, values = [v] ∧ f.shape.value? v = some a

structure Means (s : Schema α) (entries : List Member) (x : α) : Prop where
  named : ∀ e ∈ entries, (decode e.1).isSome
  fields : ∀ f ∈ s.fields, f.Sets (valuesOf f.key entries) (f.get s.default) (f.get x)

theorem valuesOf_append (key : String) (entries more : List Member) :
    valuesOf key (entries ++ more) = valuesOf key entries ++ valuesOf key more := by
  induction entries with
  | nil => rfl
  | cons e entries ih =>
    obtain ⟨name, v⟩ := e
    simp only [List.cons_append, valuesOf, ih]
    split <;> rfl

theorem valuesOf_own {key : String} (own : decode name = some key.toList) :
    valuesOf key (entries ++ [(name, v)]) = valuesOf key entries ++ [v] := by
  rw [valuesOf_append, valuesOf, if_pos own, valuesOf]

theorem valuesOf_other {key : String} (other : decode name ≠ some key.toList) :
    valuesOf key (entries ++ [(name, v)]) = valuesOf key entries := by
  rw [valuesOf_append, valuesOf, if_neg other, valuesOf, List.append_nil]

theorem named_snoc : (∀ e ∈ entries ++ [(name, v)], (decode e.1).isSome) ↔
    (∀ e ∈ entries, (decode e.1).isSome) ∧ (decode name).isSome := by
  rw [List.forall_mem_append, List.forall_mem_singleton]

namespace Field

variable {f : Field α} {values : List Json} {default a b : f.Value}

theorem Sets.unique (one : f.Sets values default a) (two : f.Sets values default b) : a = b := by
  rcases one with ⟨none, rfl⟩ | ⟨v, one, stands⟩ <;> rcases two with ⟨none', rfl⟩ | ⟨v', two, stands'⟩
  · rfl
  · rw [none] at two
    cases two
  · rw [none'] at one
    cases one
  · cases one.symm.trans two
    exact Option.some.inj (stands.symm.trans stands')

theorem sets_snoc : f.Sets (values ++ [v]) default a ↔ values = [] ∧ f.shape.value? v = some a := by
  constructor
  · rintro (⟨none, _⟩ | ⟨v', one, stands⟩)
    · exact absurd none (by simp)
    · obtain ⟨none, same⟩ := List.append_eq_singleton_iff.mp one |>.resolve_right (by simp)
      cases same
      exact ⟨none, stands⟩
  · rintro ⟨rfl, stands⟩
    exact .inr ⟨v, rfl, stands⟩

end Field

theorem Means.unique (one : Means s entries x) (two : Means s entries y) : x = y :=
  s.ext x y fun f mem => (one.fields f mem).unique (two.fields f mem)

theorem means_nil : Means s [] x ↔ x = s.default := by
  constructor
  · intro means
    refine s.ext _ _ fun f mem => ?_
    exact (means.fields f mem).unique (.inl ⟨rfl, rfl⟩)
  · rintro rfl
    exact ⟨fun _ mem => (List.not_mem_nil mem).elim, fun f _ => .inl ⟨rfl, rfl⟩⟩

theorem means_skipped (named : (decode name).isSome)
    (undeclared : ∀ f ∈ s.fields, decode name ≠ some f.key.toList) :
    Means s (entries ++ [(name, v)]) x ↔ Means s entries x := by
  constructor
  · intro means
    refine ⟨(named_snoc.mp means.named).1, fun f mem => ?_⟩
    rw [← valuesOf_other (undeclared f mem)]
    exact means.fields f mem
  · intro means
    refine ⟨named_snoc.mpr ⟨means.named, named⟩, fun f mem => ?_⟩
    rw [valuesOf_other (undeclared f mem)]
    exact means.fields f mem

theorem Schema.eq_or_apart {f g : Field α} (memf : f ∈ s.fields) (memg : g ∈ s.fields) :
    g = f ∨ g.key ≠ f.key := by
  by_cases keys : g.key = f.key
  · exact .inl (List.inj_on_of_nodup_map s.distinct memg memf keys)
  · exact .inr keys

section

variable {f g : Field α} (own : decode name = some f.key.toList) (mem : f ∈ s.fields)
include own

theorem not_own (other : g.key ≠ f.key) : decode name ≠ some g.key.toList :=
  fun same => other (String.toList_inj.mp (Option.some.inj (own.symm.trans same))).symm

include mem

/-- A field's own entry sets it, and the others are as the entries before say. -/
theorem means_own : Means s (entries ++ [(name, v)]) x ↔
    valuesOf f.key entries = [] ∧ ∃ a y, f.shape.value? v = some a ∧ Means s entries y ∧
      x = f.put a y := by
  constructor
  · intro means
    have set := means.fields f mem
    rw [valuesOf_own own, Field.sets_snoc] at set
    obtain ⟨unset, stands⟩ := set
    refine ⟨unset, f.get x, f.put (f.get s.default) x, stands, ⟨(named_snoc.mp means.named).1, ?_⟩, ?_⟩
    · intro g memg
      rcases s.eq_or_apart mem memg with rfl | apart
      · exact .inl ⟨unset, s.get_put g mem _ _⟩
      · rw [s.get_put_other f mem g memg apart, ← valuesOf_other (v := v) (not_own own apart)]
        exact means.fields g memg
    · refine s.ext _ _ fun g memg => ?_
      rcases s.eq_or_apart mem memg with rfl | apart
      · exact (s.get_put g mem _ _).symm
      · rw [s.get_put_other f mem g memg apart, s.get_put_other f mem g memg apart]
  · rintro ⟨unset, a, y, stands, means, rfl⟩
    have named : (decode name).isSome := by rw [own]; rfl
    refine ⟨named_snoc.mpr ⟨means.named, named⟩, fun g memg => ?_⟩
    rcases s.eq_or_apart mem memg with rfl | apart
    · rw [valuesOf_own own, s.get_put g mem]
      exact Field.sets_snoc.mpr ⟨unset, stands⟩
    · rw [valuesOf_other (not_own own apart), s.get_put_other f mem g memg apart]
      exact means.fields g memg

end

theorem Means.init (means : Means s (entries ++ [(name, v)]) x) : ∃ y, Means s entries y := by
  by_cases declared : ∃ f ∈ s.fields, decode name = some f.key.toList
  · obtain ⟨f, mem, own⟩ := declared
    obtain ⟨_, _, y, _, before, _⟩ := (means_own own mem).mp means
    exact ⟨y, before⟩
  · have undeclared : ∀ f ∈ s.fields, decode name ≠ some f.key.toList :=
      fun f mem own => declared ⟨f, mem, own⟩
    exact ⟨x, (means_skipped (named_snoc.mp means.named).2 undeclared).mp means⟩

namespace Deserializer

variable {de : Deserializer} {d d' : Document}

def Reads (de : Deserializer) (s : Schema α) (d : Document) : Prop :=
  (∃ x, de.fromText s d.text = .ok x ∧ Means s d.entries x) ∨
    de.Refuses s d ∧ ∀ x, ¬ Means s d.entries x

theorem Enters.reads (enters : de.Enters s d d' name v) (more : d'.entries = d.entries ++ [(name, v)])
    (reads : de.Reads s d) : de.Reads s d' := by
  unfold Reads
  rw [more]
  rcases reads with ⟨x, read, means⟩ | ⟨refused, silent⟩
  · cases decoded : decode name with
    | none =>
      refine .inr ⟨enters.nameless decoded, fun y means => ?_⟩
      have named := (named_snoc.mp means.named).2
      rw [decoded] at named
      cases named
    | some key =>
      by_cases declared : ∃ f ∈ s.fields, key = f.key.toList
      · obtain ⟨f, mem, rfl⟩ := declared
        by_cases unset : valuesOf f.key d.entries = []
        · cases stands : f.shape.value? v with
          | some a =>
            refine .inl ⟨f.put a x, enters.taken f mem decoded unset a stands x read, ?_⟩
            exact (means_own decoded mem).mpr ⟨unset, a, x, stands, means, rfl⟩
          | none =>
            refine .inr ⟨enters.other f mem decoded stands, fun y means => ?_⟩
            obtain ⟨_, a, _, stands', _⟩ := (means_own decoded mem).mp means
            cases stands.symm.trans stands'
        · refine .inr ⟨enters.duplicate f mem decoded unset, fun y means => ?_⟩
          exact unset ((means_own decoded mem).mp means).1
      · have undeclared : ∀ f ∈ s.fields, key ≠ f.key.toList := fun f mem own =>
          declared ⟨f, mem, own⟩
        refine .inl ⟨x, enters.skipped key decoded undeclared x read, ?_⟩
        refine (means_skipped (by rw [decoded]; rfl) fun f mem own => ?_).mpr means
        exact undeclared f mem (Option.some.inj (decoded.symm.trans own))
  · refine .inr ⟨enters.faulty refused, fun x means => ?_⟩
    obtain ⟨y, before⟩ := means.init
    exact silent y before

namespace Documented

variable (documented : de.Documented)
include documented

/-- Every object is read as what it means, or refused. -/
theorem reads (s : Schema α) (d : Document) : de.Reads s d := by
  obtain ⟨entries, is_entries⟩ : ∃ entries, d.entries = entries := ⟨_, rfl⟩
  -- The entries before the last one are read in a text of their own.
  induction entries using List.reverseRecOn generalizing d with
  | nil =>
    refine .inl ⟨s.default, documented.defaults s d is_entries, ?_⟩
    rw [is_entries]
    exact means_nil.mpr rfl
  | append_singleton entries e ih =>
    have before : (Document.ofEntries entries).entries = entries := Document.entries_ofEntries entries
    have more : d.entries = (Document.ofEntries entries).entries ++ [(e.1, e.2)] := by
      rw [before, is_entries]
    exact (documented.entry s _ d e.1 e.2 more).reads more (ih _ before)

theorem ok_iff : de.fromText s d.text = .ok x ↔ Means s d.entries x := by
  rcases documented.reads s d with ⟨y, read, means⟩ | ⟨⟨fault, refused⟩, silent⟩
  · rw [read, Except.ok.injEq]
    exact ⟨fun same => same ▸ means, fun other => means.unique other⟩
  · rw [refused]
    exact ⟨fun same => (by cases same), fun means => absurd means (silent x)⟩

theorem refuses (silent : ∀ x, ¬ Means s d.entries x) : de.Refuses s d := by
  rcases documented.reads s d with ⟨x, _, means⟩ | ⟨refused, _⟩
  · exact absurd means (silent x)
  · exact refused

end Documented

end Deserializer

theorem Schema.exists_record (s : Schema α) {P : (f : Field α) → f.Value → Prop}
    (values : ∀ f ∈ s.fields, ∃ a, P f a) : ∃ x, ∀ f ∈ s.fields, P f (f.get x) := by
  have partly : ∀ fields : List (Field α), fields ⊆ s.fields → (fields.map Field.key).Nodup →
      ∃ x, ∀ f ∈ fields, P f (f.get x) := by
    intro fields within distinct
    induction fields with
    | nil => exact ⟨s.default, fun _ mem => (List.not_mem_nil mem).elim⟩
    | cons f fields ih =>
      obtain ⟨mem, within⟩ := List.cons_subset.mp within
      obtain ⟨fresh, distinct⟩ := List.nodup_cons.mp distinct
      obtain ⟨x, set⟩ := ih within distinct
      obtain ⟨a, stands⟩ := values f mem
      refine ⟨f.put a x, List.forall_mem_cons.mpr ⟨(s.get_put f mem a x).symm ▸ stands, ?_⟩⟩
      intro g memg
      have apart : g.key ≠ f.key := Keyed.ne_of_fresh fresh memg
      rw [s.get_put_other f mem g (within memg) apart]
      exact set g memg
  exact partly s.fields (List.Subset.refl _) s.distinct

end HostBridge
