import HostBridge.Reader.Lexeme
/-!
# Skipped values

The value of a key that the record does not declare has to be well formed, but nothing is made of it: strings may hold lone surrogates, numbers may be out of range, and nesting has no limit.
-/

namespace HostBridge.Reader

inductive Bracket
  | list
  | object
  deriving DecidableEq, Repr

namespace Bracket

def atEnd : Bracket → Fault
  | list => .endOfList
  | object => .endOfObject

def commaOrEnd : Bracket → Fault
  | list => .expectedListCommaOrEnd
  | object => .expectedObjectCommaOrEnd

def closing : Bracket → Char
  | list => ']'
  | object => '\x7d'

end Bracket

def colon (cs : List Char) : Except Fault (List Char) :=
  match trim cs with
  | [] => .error .endOfObject
  | ':' :: rest => .ok rest
  | _ => .error .expectedColon

theorem colon_length {cs rest : List Char} (h : colon cs = .ok rest) : rest.length < cs.length := by
  have t := trim_length cs
  unfold colon at h
  split at h
  · cases h
  · rename_i e
    cases h
    rw [e] at t
    simp only [List.length_cons] at t
    omega
  · cases h

def skipKey (cs : List Char) : Except Fault (List Char) :=
  match trim cs with
  | [] => .error .endOfObject
  | '"' :: rest => skipString rest >>= colon
  | _ => .error .keyMustBeString

theorem bind_ok {ε α β : Type} {f : α → Except ε β} {x : Except ε α} {b : β}
    (h : x >>= f = .ok b) : ∃ a, x = .ok a ∧ f a = .ok b := by
  cases x with
  | error e => cases h
  | ok a => exact ⟨a, rfl, h⟩

theorem skipKey_length {cs rest : List Char} (h : skipKey cs = .ok rest) :
    rest.length < cs.length := by
  have t := trim_length cs
  unfold skipKey at h
  split at h
  · cases h
  · rename_i e
    obtain ⟨mid, hm, hr⟩ := bind_ok h
    have a := skipString_length hm
    have b := colon_length hr
    rw [e] at t
    simp only [List.length_cons] at t
    omega
  · cases h

def skipScalar (c : Char) (cs : List Char) : Except Fault (List Char) :=
  match c with
  | 'n' => expectWord "ull".toList cs
  | 't' => expectWord "rue".toList cs
  | 'f' => expectWord "alse".toList cs
  | '-' => (readNumberText .invalidNumber cs).map Prod.snd
  | '"' => skipString cs
  | c =>
    if c.isDigit then (readNumberText .invalidNumber (c :: cs)).map Prod.snd
    else .error .expectedValue

theorem skipScalar_length {c : Char} {cs rest : List Char} (h : skipScalar c cs = .ok rest) :
    rest.length ≤ cs.length := by
  unfold skipScalar at h
  split at h
  · exact expectWord_length h
  · exact expectWord_length h
  · exact expectWord_length h
  · obtain ⟨⟨n, r⟩, hn, e⟩ := map_ok h
    cases e
    exact Nat.le_of_lt (readNumberText_length hn)
  · exact Nat.le_of_lt (skipString_length h)
  · split at h
    · obtain ⟨⟨n, r⟩, hn, e⟩ := map_ok h
      cases e
      exact Nat.le_of_lt_succ (readNumberText_length hn)
    · cases h

theorem trim_cons_length {cs rest : List Char} {c : Char} (h : trim cs = c :: rest) :
    rest.length < cs.length := by
  have t := trim_length cs
  rw [h] at t
  exact t

mutual

/-- Passes over a value and all that is left of what encloses it, the innermost bracket first. -/
def skipValue (stack : List Bracket) (cs : List Char) : Except Fault (List Char) :=
  match _h : trim cs with
  | [] => .error .endOfValue
  | '[' :: rest =>
    match _i : trim rest with
    | [] => .error .endOfList
    | ']' :: rest => skipRest stack rest
    | _ => skipValue (.list :: stack) rest
  | '\x7b' :: rest =>
    match _i : trim rest with
    | [] => .error .endOfObject
    | '\x7d' :: rest => skipRest stack rest
    | _ =>
      match _k : skipKey rest with
      | .error fault => .error fault
      | .ok rest => skipValue (.object :: stack) rest
  | c :: rest =>
    match _k : skipScalar c rest with
    | .error fault => .error fault
    | .ok rest => skipRest stack rest
termination_by cs.length
decreasing_by
  · exact Nat.lt_trans (trim_cons_length _i) (trim_cons_length _h)
  · exact trim_cons_length _h
  · exact Nat.lt_trans (trim_cons_length _i) (trim_cons_length _h)
  · exact Nat.lt_trans (skipKey_length _k) (trim_cons_length _h)
  · exact Nat.lt_of_le_of_lt (skipScalar_length _k) (trim_cons_length _h)

def skipRest (stack : List Bracket) (cs : List Char) : Except Fault (List Char) :=
  match stack with
  | [] => .ok cs
  | b :: outer =>
    match _h : trim cs with
    | [] => .error b.atEnd
    | ',' :: rest =>
      match b with
      | .list => skipValue stack rest
      | .object =>
        match _k : skipKey rest with
        | .error fault => .error fault
        | .ok rest => skipValue stack rest
    | c :: rest => if c = b.closing then skipRest outer rest else .error b.commaOrEnd
termination_by cs.length
decreasing_by
  · exact trim_cons_length _h
  · exact Nat.lt_trans (skipKey_length _k) (trim_cons_length _h)
  · exact trim_cons_length _h

end

end HostBridge.Reader
