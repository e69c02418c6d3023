import HostBridge.Proofs.Deserializer.Documented
import HostBridge.Proofs.Reader.Integers
/-!
# Reading values

A value is read as what it stands for, whatever text comes behind it, and refused if it is of another
shape.
-/

namespace HostBridge.Reader

open Json

variable {cs : List Char}

theorem readNull_null (b : List Blank) (cs : List Char) :
    readNull (blanks b ++ (Word.null.text ++ cs)) = .ok cs := by
  have starts : trim (blanks b ++ (Word.null.text ++ cs)) = 'n' :: ("ull".toList ++ cs) :=
    trim_blanks_cons b rfl
  simp only [readNull, starts, expectWord_append]

theorem readNull_other {c : Char} {t : List Char} (starts : trim cs = c :: t) (no_null : c ≠ 'n') :
    ∃ fault, readNull cs = .error fault := by
  rw [readNull, starts]
  split
  · exact ⟨_, rfl⟩
  · rename_i same
    exact absurd (List.cons.inj same).1 no_null
  · exact ⟨_, rfl⟩

theorem readNull_ne {v : Json} (other : v ≠ .word .null) (b : List Blank) (cs : List Char) :
    ∃ fault, readNull (blanks b ++ (v.text ++ cs)) = .error fault := by
  obtain ⟨c, t, starts, first⟩ := trim_value v b cs
  refine readNull_other starts ?_
  rintro rfl
  cases v with
  | word w =>
    cases w with
    | null => exact other rfl
    | _ => simp [Starts] at first
  | _ => simp [Starts] at first

theorem name?_last {key : Key} {before after : List Blank} {v : Json} (other : v ≠ .word .null) :
    (Json.object (.last key before v after)).name? = none := by
  cases v with
  | word w =>
    cases w with
    | null => exact absurd rfl other
    | _ => rfl
  | _ => rfl

section

variable {α : Type} {names : List (String × α)}

theorem readVariantName_string (s : List Letter) (b : List Blank) (cs : List Char) :
    Answers (readVariantName names (blanks b ++ '"' :: (written s ++ '"' :: cs)))
      ((decode s).bind (named? names)) cs := by
  rw [readVariantName, trim_blanks_cons b (c := '"') rfl]
  refine (readString_written s cs).bind fun name _ => ?_
  dsimp only
  cases named? names name with
  | some a => rfl
  | none => exact ⟨_, rfl⟩

section

variable {c : Char} {t : List Char} (starts : trim cs = c :: t)
include starts

theorem readVariantName_other (no_string : c ≠ '"') :
    ∃ fault, readVariantName names cs = .error fault := by
  rw [readVariantName, starts]
  split
  · exact ⟨_, rfl⟩
  · rename_i same
    exact absurd (List.cons.inj same).1 no_string
  · exact ⟨_, rfl⟩

theorem readVariant_other (no_string : c ≠ '"') (no_object : c ≠ '\x7b') :
    ∃ fault, readVariant names cs = .error fault := by
  rw [readVariant, starts]
  split
  · exact ⟨_, rfl⟩
  · rename_i same
    exact absurd (List.cons.inj same).1 no_object
  · rename_i same
    exact absurd (List.cons.inj same).1 no_string
  · exact ⟨_, rfl⟩

end

theorem readVariant_string (s : List Letter) (b : List Blank) (cs : List Char) :
    Answers (readVariant names (blanks b ++ '"' :: (written s ++ '"' :: cs)))
      ((decode s).bind (named? names)) cs := by
  rw [readVariant, trim_blanks_cons b (c := '"') rfl]
  exact readVariantName_string s [] cs

theorem readVariant_emptyObject (inside b : List Blank) (cs : List Char) :
    ∃ fault, readVariant names (blanks b ++ '\x7b' :: (blanks inside ++ '\x7d' :: cs)) =
      .error fault := by
  have closes : trim (blanks inside ++ '\x7d' :: cs) = '\x7d' :: cs := trim_blanks_cons inside rfl
  obtain ⟨fault, refused⟩ : ∃ fault,
      readVariantName names (blanks inside ++ '\x7d' :: cs) = .error fault :=
    readVariantName_other closes (by decide)
  refine ⟨fault, ?_⟩
  simp only [readVariant, trim_blanks_cons b (c := '\x7b') rfl, refused]
  rfl

section

variable {key : Key} {more rest t : List Char} {c : Char} (b : List Blank)

theorem readVariant_null (null : readNull more = .ok rest) (behind : trim rest = c :: t) :
    Answers (readVariant names (blanks b ++ '\x7b' :: (key.text ++ more)))
      (if c = '\x7d' then (decode key.name).bind (named? names) else none) t := by
  have next : ((decode key.name).bind (named? names)).bind
      (fun a => if c = '\x7d' then some a else none) =
        if c = '\x7d' then (decode key.name).bind (named? names) else none := by
    split <;> simp
  rw [readVariant, trim_blanks_cons b (c := '\x7b') rfl, ← next]
  simp only [Key.text, List.append_assoc, List.cons_append, List.nil_append]
  refine (readVariantName_string key.name key.before _).bind fun a _ => ?_
  simp only [colon_blanks, null, behind, bind, Except.bind]
  split
  · rename_i closes
    rw [if_pos (List.cons.inj closes).1]
    exact congrArg (fun t => Except.ok (a, t)) (List.cons.inj closes).2.symm
  · rename_i ended
    cases ended
  · rename_i goes_on _
    have other : c ≠ '\x7d' := fun closes => goes_on t (by rw [closes])
    rw [if_neg other]
    exact Answers.fault

theorem readVariant_refused (refused : ∃ fault, readNull more = .error fault) :
    ∃ fault, readVariant names (blanks b ++ '\x7b' :: (key.text ++ more)) = .error fault := by
  obtain ⟨fault, refused⟩ := refused
  have nothing : ((decode key.name).bind (named? names)).bind (fun _ => (none : Option α)) = none :=
    Option.bind_fun_none _
  show Answers _ none []
  rw [readVariant, trim_blanks_cons b (c := '\x7b') rfl, ← nothing]
  simp only [Key.text, List.append_assoc, List.cons_append, List.nil_append]
  refine (readVariantName_string key.name key.before _).bind fun a _ => ?_
  simp only [colon_blanks, refused, bind, Except.bind]
  exact Answers.fault

end

theorem readVariant_object (ms : Members) (b : List Blank) (cs : List Char) :
    Answers (readVariant names (blanks b ++ '\x7b' :: (ms.text ++ '\x7d' :: cs)))
      ((Json.object ms).name?.bind (named? names)) cs := by
  cases ms with
  | last key before v after =>
    simp only [Members.text, List.append_assoc]
    by_cases null : v = .word .null
    · rw [null]
      exact readVariant_null b (readNull_null before _) (trim_blanks_cons after rfl)
    · rw [name?_last null]
      exact readVariant_refused b (readNull_ne null before _)
  | cons key before v after rest =>
    simp only [Members.text, List.append_assoc, List.cons_append]
    by_cases null : v = .word .null
    · rw [null]
      exact readVariant_null b (readNull_null before _) (trim_blanks_cons after (c := ',') rfl)
    · exact readVariant_refused b (readNull_ne null before _)

theorem readVariant_text (v : Json) (b : List Blank) (cs : List Char) :
    Answers (readVariant names (blanks b ++ (v.text ++ cs))) (v.name?.bind (named? names)) cs := by
  obtain ⟨c, t, starts, first⟩ := trim_value v b cs
  cases v with
  | string s =>
    simp only [Json.text, List.append_assoc, List.cons_append, List.nil_append]
    exact readVariant_string s b cs
  | emptyObject inside =>
    simp only [Json.text, List.append_assoc, List.cons_append, List.nil_append]
    exact readVariant_emptyObject inside b cs
  | object ms =>
    simp only [Json.text, List.append_assoc, List.cons_append, List.nil_append]
    exact readVariant_object ms b cs
  | number n =>
    have other : c ≠ '"' ∧ c ≠ '\x7b' := by
      constructor
      all_goals
        rintro rfl
        simp [Starts] at first
    exact readVariant_other starts other.1 other.2
  | word w => cases w <;> exact readVariant_other starts (first ▸ by decide) (first ▸ by decide)
  | _ => exact readVariant_other starts (first ▸ by decide) (first ▸ by decide)

end

theorem readShape_text {α : Type} (shape : Shape α) (v : Json) (b : List Blank) (ends : Ends cs) :
    Answers (readShape shape (blanks b ++ (v.text ++ cs))) (shape.value? v) cs := by
  induction shape with
  | u32 => exact (readUnsigned_text (by decide) v b ends).map UInt32.ofNat
  | u64 => exact (readUnsigned_text (by decide) v b ends).map UInt64.ofNat
  | variant names => exact readVariant_text v b cs
  | map f shape ih => exact ih.map f

end HostBridge.Reader
