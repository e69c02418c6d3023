import HostBridge.Proofs.Reader.Numerals
/-!
# Skipping values

A value that is skipped is passed over exactly: what is left is the text behind it, whatever the value
holds and however deep it is nested.
-/

namespace HostBridge.Reader

open Json

variable {stack : List Bracket} {cs rest t behind : List Char} {c : Char}

theorem skipValue_scalar (starts : trim cs = c :: rest) (no_list : c ≠ '[') (no_object : c ≠ '\x7b')
    (scalar : skipScalar c rest = .ok behind) : skipValue stack cs = skipRest stack behind := by
  rw [skipValue]
  split
  · rename_i ended
    cases starts.symm.trans ended
  · rename_i list
    exact absurd (List.cons.inj (starts.symm.trans list)).1 no_list
  · rename_i object
    exact absurd (List.cons.inj (starts.symm.trans object)).1 no_object
  · rename_i same
    cases starts.symm.trans same
    split
    · rename_i refused
      cases scalar.symm.trans refused
    · rename_i skipped
      cases scalar.symm.trans skipped
      rfl

theorem skipValue_list (starts : trim cs = '[' :: rest) (inside : trim rest = c :: t) :
    skipValue stack cs = if c = ']' then skipRest stack t else skipValue (.list :: stack) rest := by
  rw [skipValue]
  split
  · rename_i ended
    cases starts.symm.trans ended
  · rename_i same
    cases starts.symm.trans same
    split
    · rename_i ended
      cases inside.symm.trans ended
    · rename_i closes
      cases inside.symm.trans closes
      rfl
    · rename_i goes_on
      have other : c ≠ ']' := fun closes => goes_on t (closes ▸ inside)
      rw [if_neg other]
  · rename_i object
    cases starts.symm.trans object
  · rename_i no_list no_object same
    cases starts.symm.trans same
    exact (no_list rfl).elim

theorem skipValue_object (starts : trim cs = '\x7b' :: rest) (inside : trim rest = c :: t) :
    skipValue stack cs =
      if c = '\x7d' then skipRest stack t else skipKey rest >>= skipValue (.object :: stack) := by
  rw [skipValue]
  split
  · rename_i ended
    cases starts.symm.trans ended
  · rename_i list
    cases starts.symm.trans list
  · rename_i same
    cases starts.symm.trans same
    split
    · rename_i ended
      cases inside.symm.trans ended
    · rename_i closes
      cases inside.symm.trans closes
      rfl
    · rename_i goes_on
      have other : c ≠ '\x7d' := fun closes => goes_on t (closes ▸ inside)
      rw [if_neg other]
      split
      · rename_i refused
        rw [refused]
        rfl
      · rename_i skipped
        rw [skipped]
        rfl
  · rename_i no_list no_object same
    cases starts.symm.trans same
    exact (no_object rfl).elim

theorem skipRest_nil (cs : List Char) : skipRest [] cs = .ok cs := by
  rw [skipRest]

theorem skipRest_comma_list (comma : trim cs = ',' :: rest) :
    skipRest (.list :: stack) cs = skipValue (.list :: stack) rest := by
  rw [skipRest]
  split
  · rename_i ended
    cases comma.symm.trans ended
  · rename_i same
    cases comma.symm.trans same
    rfl
  · rename_i other same
    cases comma.symm.trans same
    exact (other rfl).elim

theorem skipRest_comma_object (comma : trim cs = ',' :: rest) :
    skipRest (.object :: stack) cs = skipKey rest >>= skipValue (.object :: stack) := by
  rw [skipRest]
  split
  · rename_i ended
    cases comma.symm.trans ended
  · rename_i same
    cases comma.symm.trans same
    split
    · rename_i list
      cases list
    · split
      · rename_i refused
        rw [refused]
        rfl
      · rename_i skipped
        rw [skipped]
        rfl
  · rename_i other same
    cases comma.symm.trans same
    exact (other rfl).elim

theorem skipRest_closes {b : Bracket} (closes : trim cs = b.closing :: rest) :
    skipRest (b :: stack) cs = skipRest stack rest := by
  rw [skipRest]
  split
  · rename_i ended
    cases closes.symm.trans ended
  · rename_i comma
    have same := (List.cons.inj (closes.symm.trans comma)).1
    cases b <;> exact absurd same (by decide)
  · rename_i same
    cases closes.symm.trans same
    rw [if_pos rfl]

theorem colon_blanks (b : List Blank) (cs : List Char) : colon (blanks b ++ ':' :: cs) = .ok cs := by
  simp only [colon, trim_blanks_cons b (c := ':') rfl]

theorem ends_blanks (b : List Blank) (after : c = ',' ∨ c = ']' ∨ c = '\x7d') :
    Ends (blanks b ++ c :: cs) := by
  cases b with
  | nil =>
    rintro _ ⟨rfl⟩
    rcases after with rfl | rfl | rfl <;> decide
  | cons b _ =>
    rintro _ ⟨rfl⟩
    cases b <;> decide

variable (cs)

theorem trim_key (k : Key) :
    trim (k.text ++ cs) = '"' :: (written k.name ++ '"' :: (blanks k.after ++ ':' :: cs)) := by
  simp only [Key.text, List.append_assoc, List.cons_append, List.nil_append]
  exact trim_blanks_cons k.before (c := '"') rfl

theorem skipKey_text (k : Key) : skipKey (k.text ++ cs) = .ok cs := by
  simp only [skipKey, trim_key, skipString_written]
  exact colon_blanks k.after cs

theorem elements_start (es : Elements) : ∃ c t, trim (es.text ++ cs) = c :: t ∧ c ≠ ']' := by
  obtain ⟨before, v, more, text⟩ :
      ∃ before v more, es.text ++ cs = blanks before ++ (Json.text v ++ more) := by
    cases es with
    | last before v after =>
      simp only [Elements.text, List.append_assoc]
      exact ⟨before, v, _, rfl⟩
    | cons before v after rest =>
      simp only [Elements.text, List.append_assoc]
      exact ⟨before, v, _, rfl⟩
  obtain ⟨c, t, starts, first⟩ := trim_value v before more
  exact ⟨c, t, by rw [text, starts], fun closes => not_starts v (closes ▸ first)⟩

theorem members_start (ms : Members) : ∃ t, trim (ms.text ++ cs) = '"' :: t := by
  cases ms with
  | last key before v after =>
    simp only [Members.text, List.append_assoc]
    exact ⟨_, trim_key _ key⟩
  | cons key before v after rest =>
    simp only [Members.text, List.append_assoc]
    exact ⟨_, trim_key _ key⟩

variable {cs} (stack)

theorem skipValue_word (w : Word) (b : List Blank) :
    skipValue stack (blanks b ++ (w.text ++ cs)) = skipRest stack cs := by
  cases w with
  | null =>
    exact skipValue_scalar (trim_blanks_cons b rfl) (by decide) (by decide)
      (expectWord_append "ull".toList cs)
  | true =>
    exact skipValue_scalar (trim_blanks_cons b rfl) (by decide) (by decide)
      (expectWord_append "rue".toList cs)
  | false =>
    exact skipValue_scalar (trim_blanks_cons b rfl) (by decide) (by decide)
      (expectWord_append "alse".toList cs)

theorem skipValue_number (n : Numeral) (b : List Blank) (ends : Ends cs) :
    skipValue stack (blanks b ++ (n.text ++ cs)) = skipRest stack cs := by
  have read : (readNumberText .invalidNumber (n.magnitude ++ cs)).map Prod.snd = .ok cs := by
    rw [readNumberText_magnitude n ends]
    rfl
  rcases numeral_cons n with ⟨_, text⟩ | ⟨_, d, t, text, magnitude⟩
  · rw [text]
    exact skipValue_scalar (trim_blanks_cons b rfl) (by decide) (by decide) read
  · have scalar : skipScalar (digit d) (t ++ cs) = .ok cs := by
      rw [magnitude] at read
      rw [skipScalar, if_pos (isDigit_digit d)]
      · exact read
      all_goals exact digit_ne d rfl
    rw [text]
    exact skipValue_scalar (trim_blanks_cons b (isBlank_digit d)) (digit_ne d rfl) (digit_ne d rfl)
      scalar

theorem skipValue_string (s : List Letter) (b : List Blank) :
    skipValue stack (blanks b ++ ('"' :: written s ++ ['"'] ++ cs)) = skipRest stack cs := by
  simp only [List.append_assoc, List.cons_append, List.nil_append]
  exact skipValue_scalar (trim_blanks_cons b rfl) (by decide) (by decide) (skipString_written s cs)

mutual

/-- A value with the blanks before it is passed over. -/
theorem skipValue_text (v : Json) (stack : List Bracket) (b : List Blank) (cs : List Char)
    (ends : Ends cs) : skipValue stack (blanks b ++ (v.text ++ cs)) = skipRest stack cs := by
  -- What encloses the value stays on the stack while the recursion goes through the tree.
  match v with
  | .word w => exact skipValue_word stack w b
  | .number n => exact skipValue_number stack n b ends
  | .string s => exact skipValue_string stack s b
  | .emptyList inside =>
    simp only [Json.text, List.append_assoc, List.cons_append, List.nil_append]
    exact skipValue_list (trim_blanks_cons b rfl) (trim_blanks_cons inside rfl)
  | .list es =>
    obtain ⟨c, t, inside, goes_on⟩ := elements_start (']' :: cs) es
    simp only [Json.text, List.append_assoc, List.cons_append, List.nil_append]
    rw [skipValue_list (trim_blanks_cons b rfl) inside, if_neg goes_on]
    exact skipValue_elements es stack cs
  | .emptyObject inside =>
    simp only [Json.text, List.append_assoc, List.cons_append, List.nil_append]
    exact skipValue_object (trim_blanks_cons b rfl) (trim_blanks_cons inside rfl)
  | .object ms =>
    obtain ⟨t, inside⟩ := members_start ('\x7d' :: cs) ms
    simp only [Json.text, List.append_assoc, List.cons_append, List.nil_append]
    rw [skipValue_object (trim_blanks_cons b rfl) inside, if_neg (by decide)]
    exact skipKey_members ms stack cs

theorem skipValue_elements (es : Elements) (stack : List Bracket) (cs : List Char) :
    skipValue (.list :: stack) (es.text ++ ']' :: cs) = skipRest stack cs := by
  match es with
  | .last before v after =>
    simp only [Elements.text, List.append_assoc]
    calc
      _ = skipRest (.list :: stack) (blanks after ++ ']' :: cs) :=
        skipValue_text v _ before _ (ends_blanks after (.inr (.inl rfl)))
      _ = skipRest stack cs := skipRest_closes (trim_blanks_cons after rfl)
  | .cons before v after rest =>
    simp only [Elements.text, List.append_assoc, List.cons_append]
    calc
      _ = skipRest (.list :: stack) (blanks after ++ ',' :: (rest.text ++ ']' :: cs)) :=
        skipValue_text v _ before _ (ends_blanks after (.inl rfl))
      _ = skipValue (.list :: stack) (rest.text ++ ']' :: cs) :=
        skipRest_comma_list (trim_blanks_cons after rfl)
      _ = skipRest stack cs := skipValue_elements rest stack cs

theorem skipKey_members (ms : Members) (stack : List Bracket) (cs : List Char) :
    (skipKey (ms.text ++ '\x7d' :: cs) >>= skipValue (.object :: stack)) = skipRest stack cs := by
  match ms with
  | .last key before v after =>
    simp only [Members.text, List.append_assoc]
    rw [skipKey_text]
    calc
      _ = skipRest (.object :: stack) (blanks after ++ '\x7d' :: cs) :=
        skipValue_text v _ before _ (ends_blanks after (.inr (.inr rfl)))
      _ = skipRest stack cs := skipRest_closes (trim_blanks_cons after rfl)
  | .cons key before v after rest =>
    simp only [Members.text, List.append_assoc, List.cons_append]
    rw [skipKey_text]
    calc
      _ = skipRest (.object :: stack) (blanks after ++ ',' :: (rest.text ++ '\x7d' :: cs)) :=
        skipValue_text v _ before _ (ends_blanks after (.inl rfl))
      _ = (skipKey (rest.text ++ '\x7d' :: cs) >>= skipValue (.object :: stack)) :=
        skipRest_comma_object (trim_blanks_cons after rfl)
      _ = skipRest stack cs := skipKey_members rest stack cs

end

end HostBridge.Reader
