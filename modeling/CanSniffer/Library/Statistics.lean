import Mathlib.Algebra.BigOperators.Group.List.Basic
import Mathlib.Algebra.Order.Floor.Semiring
import Mathlib.Data.List.DropRight
import Mathlib.Data.List.Sort
import Mathlib.Tactic

namespace CanSniffer.Library.Statistics

section Order

variable {α : Type} [LinearOrder α] {xs ys : List α}

theorem countP_lt_getElem_le (h : ys.Pairwise (· ≤ ·)) {i : Nat} (hi : i < ys.length) :
    ys.countP (· < ys[i]) ≤ i := by
  have hdrop : (ys.drop i).countP (· < ys[i]) = 0 := by
    rw [List.countP_eq_zero]
    intro y hy
    rw [List.drop_eq_getElem_cons hi] at hy
    have hsorted := (h.sublist (List.drop_sublist i ys))
    rw [List.drop_eq_getElem_cons hi] at hsorted
    obtain rfl | hy := List.mem_cons.mp hy
    · simp
    · simpa using List.rel_of_pairwise_cons hsorted hy
  calc ys.countP (· < ys[i]) = (ys.take i ++ ys.drop i).countP (· < ys[i]) := by
        rw [List.take_append_drop]
    _ = (ys.take i).countP (· < ys[i]) := by rw [List.countP_append, hdrop, Nat.add_zero]
    _ ≤ (ys.take i).length := List.countP_le_length
    _ ≤ i := List.length_take_le i ys

theorem lt_countP_le_getElem (h : ys.Pairwise (· ≤ ·)) {i : Nat} (hi : i < ys.length) :
    i < ys.countP (· ≤ ys[i]) := by
  have htake : (ys.take (i + 1)).countP (· ≤ ys[i]) = i + 1 := by
    rw [List.countP_eq_length.mpr, List.length_take, Nat.min_eq_left hi]
    intro y hy
    obtain ⟨j, hj, rfl⟩ := List.mem_take_iff_getElem.mp hy
    simpa using h.rel_get_of_le (a := ⟨j, by omega⟩) (b := ⟨i, hi⟩) (Fin.mk_le_mk.mpr (by omega))
  have hsub := (List.take_sublist (i + 1) ys).countP_le (p := (· ≤ ys[i]))
  omega

end Order

section Steps

variable {α β : Type}

/-- What `f` makes of each two neighbours. -/
def steps (f : α → α → β) (xs : List α) : List β := List.zipWith f xs xs.tail

theorem length_steps (f : α → α → β) (xs : List α) : (steps f xs).length = xs.length - 1 := by
  rw [steps, List.length_zipWith, List.length_tail]
  omega

theorem steps_concat (f : α → α → β) (xs : List α) (x y : α) :
    steps f (xs ++ [x, y]) = steps f (xs ++ [x]) ++ [f x y] := by
  induction xs with
  | nil => rfl
  | cons z xs ih =>
    cases xs with
    | nil => rfl
    | cons w xs => exact congrArg (f z w :: ·) ih

theorem rtake_steps (f : α → α → β) (xs : List α) (n : Nat) :
    (steps f xs).rtake n = steps f (xs.rtake (n + 1)) := by
  rw [List.rtake, List.rtake, length_steps, steps, steps, List.drop_zipWith, List.tail_drop,
    ← List.drop_tail]
  congr 2
  · omega
  · omega

theorem sum_steps {R : Type} [CommRing R] (c x : R) (xs : List R) :
    (steps (fun a b => (b - a) * c) (x :: xs)).sum = (xs.getLastD x - x) * c := by
  induction xs generalizing x with
  | nil => simp [steps]
  | cons y xs ih =>
    have hcons : steps (fun a b => (b - a) * c) (x :: y :: xs) =
        (y - x) * c :: steps (fun a b => (b - a) * c) (y :: xs) := rfl
    rw [hcons, List.sum_cons, ih, List.getLastD_cons]
    ring

end Steps

variable {K : Type} [Field K] [LinearOrder K] [IsStrictOrderedRing K] {xs : List K} {lo hi : K}

def mean (xs : List K) : K := xs.sum / xs.length

def variance (xs : List K) : K := (xs.map fun x => (x - mean xs) ^ 2).sum / xs.length

/-- At most a share `q` of the values is smaller, and at least a share `q` is not greater. -/
def IsQuantile (q : K) (xs : List K) (v : K) : Prop :=
  (xs.countP (· < v) : K) ≤ q * xs.length ∧ q * xs.length ≤ xs.countP (· ≤ v)

theorem length_pos (h : xs ≠ []) : (0 : K) < xs.length := by
  exact_mod_cast List.length_pos_iff.mpr h

theorem length_mul_mean (h : xs ≠ []) : xs.length * mean xs = xs.sum :=
  mul_div_cancel₀ _ (length_pos h).ne'

theorem le_mean (h : xs ≠ []) (hlo : ∀ x ∈ xs, lo ≤ x) : lo ≤ mean xs := by
  rw [mean, le_div_iff₀ (length_pos h), mul_comm, ← nsmul_eq_mul]
  exact List.card_nsmul_le_sum xs lo hlo

theorem mean_le (h : xs ≠ []) (hhi : ∀ x ∈ xs, x ≤ hi) : mean xs ≤ hi := by
  rw [mean, div_le_iff₀ (length_pos h), mul_comm, ← nsmul_eq_mul]
  exact List.sum_le_card_nsmul xs hi hhi

theorem sum_sq_sub (c : K) (xs : List K) :
    (xs.map fun x => (x - c) ^ 2).sum =
      (xs.map (· ^ 2)).sum - 2 * c * xs.sum + xs.length * c ^ 2 := by
  induction xs with
  | nil => simp
  | cons x xs ih =>
    simp only [List.map_cons, List.sum_cons, List.length_cons, ih, Nat.cast_succ]
    ring

theorem variance_eq (h : xs ≠ []) :
    variance xs = (xs.map (· ^ 2)).sum / xs.length - mean xs ^ 2 := by
  have hlen := (length_pos h).ne'
  rw [variance, sum_sq_sub, ← length_mul_mean h]
  field_simp
  ring

theorem variance_le_about (h : xs ≠ []) (c : K) :
    variance xs ≤ (xs.map fun x => (x - c) ^ 2).sum / xs.length := by
  have hpos := length_pos h
  have hgap : (xs.map fun x => (x - c) ^ 2).sum / xs.length = variance xs + (mean xs - c) ^ 2 := by
    rw [variance_eq h, sum_sq_sub, ← length_mul_mean h]
    field_simp
    ring
  rw [hgap]
  exact le_add_of_nonneg_right (sq_nonneg _)

theorem variance_le (h : xs ≠ []) (hlo : ∀ x ∈ xs, lo ≤ x) (hhi : ∀ x ∈ xs, x ≤ hi) :
    variance xs ≤ ((hi - lo) / 2) ^ 2 := by
  refine (variance_le_about h ((lo + hi) / 2)).trans ?_
  rw [div_le_iff₀ (length_pos h), mul_comm, ← nsmul_eq_mul]
  have hsq : ∀ y ∈ xs.map fun x => (x - (lo + hi) / 2) ^ 2, y ≤ ((hi - lo) / 2) ^ 2 := by
    intro y hy
    obtain ⟨x, hx, rfl⟩ := List.mem_map.mp hy
    apply sq_le_sq'
    · linarith [hlo x hx]
    · linarith [hhi x hx]
  have hsum := List.sum_le_card_nsmul _ _ hsq
  rwa [List.length_map] at hsum

theorem isQuantile_getElem [FloorSemiring K] {ys : List K} (hperm : ys.Perm xs)
    (h : ys.Pairwise (· ≤ ·)) {q : K} (hq0 : 0 ≤ q) (hq1 : q ≤ 1) {i : Nat}
    (hi : i = min ⌊ys.length * q⌋₊ (ys.length - 1)) (hlen : i < ys.length) :
    IsQuantile q xs ys[i] := by
  have hfloor : (⌊ys.length * q⌋₊ : K) ≤ ys.length * q := Nat.floor_le (by positivity)
  rw [IsQuantile, ← hperm.countP_eq, ← hperm.countP_eq, ← hperm.length_eq, mul_comm q]
  constructor
  · calc (ys.countP (· < ys[i]) : K) ≤ i := by exact_mod_cast countP_lt_getElem_le h hlen
      _ ≤ ⌊ys.length * q⌋₊ := by exact_mod_cast (by omega : i ≤ ⌊ys.length * q⌋₊)
      _ ≤ ys.length * q := hfloor
  · have hcount : (i : K) + 1 ≤ ys.countP (· ≤ ys[i]) := by
      exact_mod_cast lt_countP_le_getElem h hlen
    refine le_trans ?_ hcount
    obtain hlt | hge := lt_or_ge ⌊ys.length * q⌋₊ (ys.length - 1)
    · rw [hi, Nat.min_eq_left hlt.le]
      exact (Nat.lt_floor_add_one _).le
    · rw [hi, Nat.min_eq_right hge]
      have hcast : ((ys.length - 1 : Nat) : K) + 1 = ys.length := by
        exact_mod_cast Nat.sub_add_cancel (by omega)
      rw [hcast]
      exact mul_le_of_le_one_right (by positivity) hq1

end CanSniffer.Library.Statistics
