import HostBridge.Proofs.Keyed
import HostBridge.Proofs.Reader.Values
/-!
# Reading entries

The entries of an object are entered one after the other into a draft of the record, up to the closing
bracket.
-/

namespace HostBridge.Reader

open Json

variable {α : Type} {s : Schema α} {cs rest : List Char} {first : Bool} {x x' : Draft α}

def Draft.put (x : Draft α) (f : Field α) (a : f.Value) : Draft α where
  record := f.put a x.record
  given := f.key :: x.given

def Draft.enter? (s : Schema α) (x : Draft α) (key : List Char) (v : Json) : Option (Draft α) :=
  (s.fields.find? (·.key = String.ofList key)).elim (some x) fun f =>
    if f.key ∈ x.given then none else (f.shape.value? v).map (x.put f)

def Draft.enterAll? (s : Schema α) (x : Draft α) : List Member → Option (Draft α)
  | [] => some x
  | (name, v) :: entries =>
    (decode name).bind fun key => (x.enter? s key v).bind fun x => x.enterAll? s entries

theorem readEntry_text (s : Schema α) (x : Draft α) (key : List Char) (v : Json)
    (after b : List Blank) (ends : Ends cs) :
    Answers (readEntry s x key (blanks after ++ ':' :: (blanks b ++ (v.text ++ cs))))
      (x.enter? s key v) cs := by
  unfold readEntry Draft.enter?
  cases s.fields.find? (·.key = String.ofList key) with
  | some f =>
    simp only [Option.elim_some, colon_blanks]
    split
    · exact Answers.fault
    · exact (readShape_text f.shape v b ends).map (x.put f)
  | none =>
    simp only [Option.elim_none, colon_blanks]
    show ((skipValue [] _).map fun rest => (x, rest)) = _
    rw [skipValue_text v [] b cs ends, skipRest_nil]
    rfl

def keyAt (k : Key) (cs : List Char) : KeyAt :=
  .key (written k.name ++ '"' :: (blanks k.after ++ ':' :: cs))

theorem nextKey_first (k : Key) (cs : List Char) : nextKey true (k.text ++ cs) = .ok (keyAt k cs) := by
  simp only [nextKey, trim_key, if_true]
  rfl

theorem nextKey_comma (b : List Blank) (k : Key) (cs : List Char) :
    nextKey false (blanks b ++ ',' :: (k.text ++ cs)) = .ok (keyAt k cs) := by
  simp [nextKey, trim_blanks_cons b (c := ',') rfl, trim_key, keyAt]

theorem nextKey_closed (first : Bool) (b : List Blank) (cs : List Char) :
    nextKey first (blanks b ++ '\x7d' :: cs) = .ok (.closed cs) := by
  simp only [nextKey, trim_blanks_cons b (c := '\x7d') rfl]

theorem readEntries_closed (n : Nat) (first : Bool) (x : Draft α) (b : List Blank) (cs : List Char) :
    readEntries s (n + 1) first x (blanks b ++ '\x7d' :: cs) = .ok (x, cs) := by
  rw [readEntries, nextKey_closed]
  rfl

theorem readEntries_entry {n : Nat} {k : Key} {b : List Blank} {v : Json} {text : List Char}
    {entries : List Member}
    (starts : nextKey first text = .ok (keyAt k (blanks b ++ (v.text ++ cs)))) (ends : Ends cs)
    (continues : ∀ x : Draft α, Answers (readEntries s n false x cs) (x.enterAll? s entries) rest) :
    Answers (readEntries s (n + 1) first x text) (x.enterAll? s ((k.name, v) :: entries)) rest := by
  rw [readEntries, starts]
  refine (readString_written k.name _).bind fun key _ => ?_
  exact (readEntry_text s x key v k.after b ends).bind fun x _ => continues x

/-- The entries of an object are read up to its closing bracket. -/
theorem readEntries_members (ms : Members) {n : Nat} (enough : ms.entries.length < n) {first : Bool}
    (lead : List Char) (starts : ∀ k cs, nextKey first (lead ++ (Key.text k ++ cs)) = .ok (keyAt k cs))
    (x : Draft α) (cs : List Char) :
    Answers (readEntries s n first x (lead ++ (ms.text ++ '\x7d' :: cs))) (x.enterAll? s ms.entries)
      cs := by
  cases n with
  | zero => cases enough
  | succ n =>
    cases ms with
    | last key before v after =>
      simp only [Members.text, List.append_assoc]
      refine readEntries_entry (starts key _) (ends_blanks after (.inr (.inr rfl))) fun x => ?_
      cases n with
      | zero => exact absurd enough (Nat.lt_irrefl 1)
      | succ n => exact readEntries_closed n false x after cs
    | cons key before v after rest =>
      simp only [Members.text, List.append_assoc, List.cons_append]
      refine readEntries_entry (starts key _) (ends_blanks after (.inl rfl)) fun x => ?_
      have behind := readEntries_members rest (Nat.lt_of_succ_lt_succ enough) (blanks after ++ [','])
        (fun k cs => by simpa using nextKey_comma after k cs) x cs
      simpa using behind

theorem length_entries_le (ms : Members) : ms.entries.length ≤ ms.text.length := by
  cases ms with
  | last key before v after =>
    simp [Members.entries, Members.text, Key.text]
    omega
  | cons key before v after rest =>
    have := length_entries_le rest
    simp [Members.entries, Members.text, Key.text]
    omega

theorem readDraft_text (s : Schema α) (d : Document) :
    Answers (readDraft s d.text.toList) ((start s).enterAll? s d.entries) (blanks d.after) := by
  obtain ⟨before, object, after⟩ := d
  simp only [Document.text, String.toList_ofList, Document.entries]
  cases object with
  | inl inside =>
    simp only [Sum.elim_inl, Json.text, List.append_assoc, List.cons_append, List.nil_append]
    rw [readDraft, trim_blanks_cons before (c := '\x7b') rfl]
    exact readEntries_closed _ true (start s) inside (blanks after)
  | inr ms =>
    have enough : ms.entries.length < (ms.text ++ '\x7d' :: blanks after).length + 1 := by
      have := length_entries_le ms
      rw [List.length_append]
      omega
    simp only [Sum.elim_inr, Json.text, List.append_assoc, List.cons_append, List.nil_append]
    rw [readDraft, trim_blanks_cons before (c := '\x7b') rfl]
    exact readEntries_members ms enough [] nextKey_first (start s) (blanks after)

/-- A whole text is read as the record of its last draft. -/
theorem read_text (s : Schema α) (d : Document) :
    (read s d.text).toOption = ((start s).enterAll? s d.entries).map Draft.record := by
  have drafted := readDraft_text s d
  have blank : trim (blanks d.after) = [] := by
    rw [← List.append_nil (blanks d.after), trim_blanks]
    rfl
  cases entered : (start s).enterAll? s d.entries with
  | some x =>
    rw [entered] at drafted
    rw [read, show readDraft s d.text.toList = _ from drafted]
    simp [bind, Except.bind, blank, Except.toOption]
  | none =>
    rw [entered] at drafted
    obtain ⟨fault, refused⟩ := drafted
    rw [read, refused]
    rfl

end HostBridge.Reader
