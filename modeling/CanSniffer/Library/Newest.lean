import Mathlib.Data.List.DropRight
import Mathlib.Tactic

namespace CanSniffer.Library.Newest

-- The newest items of a list that grows at its end: `rtake`.

variable {α : Type} {n : Nat} {xs ys : List α}

theorem length_rtake (n : Nat) (xs : List α) : (xs.rtake n).length = min n xs.length := by
  rw [List.rtake, List.length_drop]
  omega

theorem rtake_suffix (n : Nat) (xs : List α) : xs.rtake n <:+ xs := List.drop_suffix _ _

theorem rtake_of_le (h : xs.length ≤ n) : xs.rtake n = xs := by
  rw [List.rtake, Nat.sub_eq_zero_of_le h, List.drop_zero]

theorem getElem?_rtake (n : Nat) (xs : List α) (i : Nat) :
    (xs.rtake n)[i]? = xs[xs.length - n + i]? := by
  rw [List.rtake, List.getElem?_drop]

theorem map_rtake {β : Type} (f : α → β) (n : Nat) (xs : List α) :
    (xs.rtake n).map f = (xs.map f).rtake n := by
  rw [List.rtake, List.rtake, List.map_drop, List.length_map]

theorem rtake_append_of_le (h : n ≤ ys.length) : (xs ++ ys).rtake n = ys.rtake n := by
  rw [List.rtake, List.rtake, List.length_append,
    show xs.length + ys.length - n = xs.length + (ys.length - n) by omega,
    List.drop_length_add_append]

theorem rtake_rtake (xs : List α) {m n : Nat} (h : m ≤ n) : (xs.rtake n).rtake m = xs.rtake m := by
  simp only [List.rtake, List.drop_drop, List.length_drop]
  congr 1
  omega

theorem rtake_rtake_append (n : Nat) (xs ys : List α) :
    (xs.rtake n ++ ys).rtake n = (xs ++ ys).rtake n := by
  have hsplit : xs.take (xs.length - n) ++ xs.rtake n = xs := List.take_append_drop _ xs
  by_cases h : xs.length ≤ n
  · rw [rtake_of_le h]
  · have hlen : n ≤ (xs.rtake n ++ ys).length := by
      rw [List.length_append, length_rtake]
      omega
    rw [← rtake_append_of_le hlen, ← List.append_assoc, hsplit]

theorem rtake_rtake_drop {pos : Nat} (h : pos ≤ xs.length) (n : Nat) :
    (xs.rtake n).rtake (xs.length - pos) = (xs.drop pos).rtake n := by
  simp only [List.rtake, List.drop_drop, List.length_drop]
  congr 1
  omega

theorem mem_rtake_iff {y : α} (h : y ∉ ys) (n : Nat) :
    y ∈ (xs ++ y :: ys).rtake n ↔ ys.length < n := by
  rw [List.rtake, List.length_append, List.length_cons]
  by_cases hn : ys.length < n
  · refine iff_of_true ?_ hn
    rw [List.drop_append_of_le_length (by omega)]
    exact List.mem_append_right _ List.mem_cons_self
  · refine iff_of_false ?_ hn
    intro hmem
    have hafter : 0 < xs.length + (ys.length + 1) - n - xs.length := by omega
    obtain ⟨k, hk⟩ := Nat.exists_eq_add_of_lt hafter
    rw [List.drop_append, List.drop_eq_nil_of_le (by omega), List.nil_append, hk, Nat.zero_add,
      List.drop_succ_cons] at hmem
    exact h (List.mem_of_mem_drop hmem)

end CanSniffer.Library.Newest
