import Mathlib.Tactic

namespace CanSniffer.Library.Trimmed

-- A list that grows at its end and loses its oldest items at once when it gets too long.

variable {α : Type} {cap cut : Nat} {xs ys : List α}

def push (cap cut : Nat) (xs : List α) (x : α) : List α :=
  if cap < (xs ++ [x]).length then (xs ++ [x]).drop cut else xs ++ [x]

/-- `ys` are the newest items of `xs`: all of them as long as these are not more than `cap`, and
then at most `cap` and always more than `cap - cut`. -/
structure Keeps (cap cut : Nat) (ys xs : List α) : Prop where
  suffix : ys <:+ xs
  all : xs.length ≤ cap → ys = xs
  length_le : ys.length ≤ cap
  le_length : cap < xs.length → cap + 1 ≤ ys.length + cut

theorem keeps_nil (cap cut : Nat) : Keeps cap cut ([] : List α) [] where
  suffix := List.suffix_rfl
  all _ := rfl
  length_le := Nat.zero_le _
  le_length h := absurd h (Nat.not_lt_zero cap)

theorem Keeps.push (h : Keeps cap cut ys xs) (hcut : 0 < cut) (x : α) :
    Keeps cap cut (push cap cut ys x) (xs ++ [x]) := by
  have hsuffix : ys ++ [x] <:+ xs ++ [x] := by
    obtain ⟨before, rfl⟩ := h.suffix
    rw [List.append_assoc]
    exact List.suffix_append _ _
  have hle := h.length_le
  rw [Trimmed.push]
  rw [List.length_append, List.length_singleton]
  split_ifs with hlong
  · refine ⟨(List.drop_suffix _ _).trans hsuffix, fun hfew => ?_, ?_, fun _ => ?_⟩
    · rw [List.length_append, List.length_singleton] at hfew
      have hall := congrArg List.length (h.all (by omega))
      omega
    · rw [List.length_drop, List.length_append, List.length_singleton]
      omega
    · rw [List.length_drop, List.length_append, List.length_singleton]
      omega
  · refine ⟨hsuffix, fun hfew => ?_, ?_, fun hmany => ?_⟩
    · rw [List.length_append, List.length_singleton] at hfew
      rw [h.all (by omega)]
    · rw [List.length_append, List.length_singleton]
      omega
    · rw [List.length_append, List.length_singleton] at hmany ⊢
      by_cases hfull : xs.length = cap
      · have hall := congrArg List.length (h.all hfull.le)
        omega
      · have hmore := h.le_length (by omega)
        omega

end CanSniffer.Library.Trimmed
