import HostBridge.Host.Facility
/-!
# What a facility is told

A facility is told to time targets and to cancel them, and in between something happens to it. What
it does about a target depends on the last instruction that named the target.
-/

namespace HostBridge

inductive Instruction (Act : Type)
  | schedule (t : Target) (delay : Duration) (repeats : Bool)
  | cancel (t : Target)
  | act (a : Act)
  deriving DecidableEq

namespace Instruction

variable {Act : Type}

def target? : Instruction Act → Option Target
  | schedule t .. => some t
  | cancel t => some t
  | act _ => none

def LeaveAlone (t : Target) (told : List (Instruction Act)) : Prop :=
  ∀ i ∈ told, i.target? ≠ some t

structure Latest (t : Target) (told earlier : List (Instruction Act)) (i : Instruction Act)
    (since : List (Instruction Act)) : Prop where
  split : told = earlier ++ i :: since
  names : i.target? = some t
  alone : LeaveAlone t since

variable {t : Target} {told : List (Instruction Act)} {i : Instruction Act}

theorem LeaveAlone.tail (alone : LeaveAlone t (i :: told)) : LeaveAlone t told :=
  fun i mem => alone i (List.mem_cons_of_mem _ mem)

theorem leaveAlone_or_latest (t : Target) (told : List (Instruction Act)) :
    LeaveAlone t told ∨ ∃ earlier i since, Latest t told earlier i since := by
  induction told with
  | nil => exact Or.inl fun _ mem => nomatch mem
  | cons i told ih =>
    rcases ih with alone | ⟨earlier, last, since, latest⟩
    · by_cases names : i.target? = some t
      · exact Or.inr ⟨[], i, told, rfl, names, alone⟩
      · refine Or.inl fun i' mem => ?_
        rcases List.mem_cons.mp mem with here | later
        · exact here ▸ names
        · exact alone i' later
    · refine Or.inr ⟨i :: earlier, last, since, ?_, latest.names, latest.alone⟩
      rw [latest.split, List.cons_append]

section

variable {σ ε : Type} (follow : σ → Instruction Act → σ × List ε)

def followAll (s : σ) : List (Instruction Act) → σ × List ε
  | [] => (s, [])
  | i :: told =>
    let first := follow s i
    let rest := followAll first.1 told
    (rest.1, first.2 ++ rest.2)

theorem followAll_append (s : σ) (earlier rest : List (Instruction Act)) :
    followAll follow s (earlier ++ rest) =
      let first := followAll follow s earlier
      let second := followAll follow first.1 rest
      (second.1, first.2 ++ second.2) := by
  induction earlier generalizing s with
  | nil => rfl
  | cons i earlier ih =>
    rw [List.cons_append, followAll, ih, followAll]
    simp only [List.append_assoc]

end

end Instruction

end HostBridge
