import CanSniffer.Library.Binary64

namespace CanSniffer.Library.PixelAxis

open Binary64

-- A length is cut into equal parts in doubles, and each part starts at a whole pixel. All lengths
-- are below `2 ^ 39` and there are at most 64 parts, so that the roundings stay far below a pixel.

def part (len : ℚ) (n : Nat) : ℚ := div len n

/-- Where part `k` starts. -/
def start (origin len : ℚ) (n k : Nat) : ℚ := add origin (mul k (part len n))

/-- The pixel in which part `k` starts. -/
def edge (origin len : ℚ) (n k : Nat) : ℤ := ⌊start origin len n k⌋

variable {origin len : ℚ} {n k : Nat}

theorem round_near {x : ℚ} (hpos : 0 ≤ x) (hlt : x < 2 ^ 40) :
    x - 1 / 2 ^ 14 ≤ Binary64.round x ∧ Binary64.round x ≤ x + 1 / 2 ^ 14 := by
  have herror := round_error (k := 40) hpos (by exact_mod_cast hlt) (by norm_num)
  rw [show ((40 : ℤ) - 54) = -(14 : ℕ) by norm_num, zpow_neg, zpow_natCast, ← one_div] at herror
  obtain ⟨hlo, hhi⟩ := abs_le.mp herror
  constructor
  · linarith
  · linarith

theorem round_nonneg {x : ℚ} (h : 0 ≤ x) : 0 ≤ Binary64.round x := by
  have hround := round_mono h
  rwa [round_zero] at hround

/-- `n` parts of a length that is not too long. -/
structure Cuts (origin len : ℚ) (n : Nat) : Prop where
  pos : 1 ≤ n
  parts : n ≤ 64
  nonneg : 0 ≤ len
  short : len < 2 ^ 39
  fromLeft : 0 ≤ origin
  nearLeft : origin ≤ 64

theorem Cuts.part_nonneg (h : Cuts origin len n) : 0 ≤ len / n :=
  div_nonneg h.nonneg n.cast_nonneg

theorem Cuts.parts_le (h : Cuts origin len n) (hk : k ≤ n) : k * (len / n) ≤ len := by
  have hn : (0 : ℚ) < n := by exact_mod_cast h.pos
  calc k * (len / n) ≤ n * (len / n) :=
        mul_le_mul_of_nonneg_right (by exact_mod_cast hk) h.part_nonneg
    _ = len := mul_div_cancel₀ len hn.ne'

theorem Cuts.part_near (h : Cuts origin len n) :
    len / n - 1 / 2 ^ 14 ≤ part len n ∧ part len n ≤ len / n + 1 / 2 ^ 14 := by
  have hone := h.parts_le h.pos
  rw [Nat.cast_one, one_mul] at hone
  exact round_near h.part_nonneg (by linarith [h.short])

theorem Cuts.start_near (h : Cuts origin len n) (hk : k ≤ n) :
    origin + k * (len / n) - 1 / 100 ≤ start origin len n k ∧
      start origin len n k ≤ origin + k * (len / n) + 1 / 100 := by
  have hparts := h.parts_le hk
  obtain ⟨hpartLo, hpartHi⟩ := h.part_near
  have hk0 : (0 : ℚ) ≤ k := k.cast_nonneg
  have hk64 : (k : ℚ) ≤ 64 := by exact_mod_cast hk.trans h.parts
  have hlo : k * (len / n) - 64 / 2 ^ 14 ≤ k * part len n := by
    have hscaled := mul_le_mul_of_nonneg_left hpartLo hk0
    linarith
  have hhi : k * part len n ≤ k * (len / n) + 64 / 2 ^ 14 := by
    have hscaled := mul_le_mul_of_nonneg_left hpartHi hk0
    linarith
  have hpart0 : 0 ≤ k * part len n := mul_nonneg hk0 (round_nonneg h.part_nonneg)
  have hshort := h.short
  obtain ⟨hmulLo, hmulHi⟩ := round_near hpart0 (by linarith)
  have hmul0 : 0 ≤ Binary64.round (k * part len n) := round_nonneg hpart0
  have hleft := h.fromLeft
  have hnear := h.nearLeft
  obtain ⟨haddLo, haddHi⟩ := round_near (add_nonneg hleft hmul0) (by linarith)
  rw [start, add, mul]
  constructor
  · linarith
  · linarith

theorem Cuts.edge_lt (h : Cuts origin len n) (hwide : 2 ≤ len / n) (hk : k + 1 ≤ n) :
    edge origin len n k < edge origin len n (k + 1) := by
  have hlo := (h.start_near (Nat.le_of_succ_le hk)).2
  have hhi := (h.start_near hk).1
  push_cast at hhi
  rw [edge, edge, Int.lt_iff_add_one_le, Int.le_floor]
  have hfloor := Int.floor_le (start origin len n k)
  push_cast
  linarith

theorem Cuts.edge_strictMono (h : Cuts origin len n) (hwide : 2 ≤ len / n) {i j : Nat} (hij : i < j)
    (hj : j ≤ n) : edge origin len n i < edge origin len n j := by
  induction j, hij using Nat.le_induction with
  | base => exact h.edge_lt hwide hj
  | succ j hij ih => exact (ih (Nat.le_of_succ_le hj)).trans (h.edge_lt hwide hj)

theorem Cuts.reaches_next (h : Cuts origin len n) (hk : k + 1 ≤ n) :
    edge origin len n (k + 1) ≤ edge origin len n k + (⌈part len n⌉ + 1) := by
  have hlo := (h.start_near (Nat.le_of_succ_le hk)).1
  have hhi := (h.start_near hk).2
  have hpart := h.part_near.1
  push_cast at hhi
  have hceil := Int.le_ceil (part len n)
  have hfloor := Int.lt_floor_add_one (start origin len n k)
  rw [edge, edge, ← Int.lt_add_one_iff, Int.floor_lt]
  push_cast
  linarith

theorem Cuts.reaches_end (h : Cuts origin len n) {i : ℤ} (hi : (i : ℚ) ≤ origin + len) :
    i ≤ edge origin len n (n - 1) + (⌈part len n⌉ + 1) := by
  have hlo := (h.start_near (Nat.sub_le n 1)).1
  have hpart := h.part_near.1
  have hn : (n : ℚ) ≠ 0 := by
    have := h.pos
    positivity
  have hall : ((n - 1 : ℕ) : ℚ) * (len / n) + len / n = len := by
    rw [Nat.cast_sub h.pos]
    field_simp
    ring
  have hceil := Int.le_ceil (part len n)
  have hfloor := Int.lt_floor_add_one (start origin len n (n - 1))
  rw [edge, ← Int.lt_add_one_iff, ← Int.cast_lt (R := ℚ)]
  push_cast
  linarith

/-- The pixel is in part `k`. -/
structure InPart (origin len : ℚ) (n k : Nat) (i : ℤ) : Prop where
  part : k < n
  start : edge origin len n k ≤ i
  next : k + 1 < n → i < edge origin len n (k + 1)
  within : (i : ℚ) + 1 ≤ origin + len

theorem Cuts.covers (h : Cuts origin len n) {i : ℤ} (hi : InPart origin len n k i) :
    i + 1 ≤ edge origin len n k + (⌈part len n⌉ + 1) := by
  obtain hlast | hnext := (Nat.succ_le_of_lt hi.part).eq_or_lt
  · have hk : k = n - 1 := by omega
    rw [hk]
    apply h.reaches_end
    push_cast
    exact hi.within
  · have hreach := h.reaches_next (Nat.succ_le_of_lt hi.part)
    have hlt := hi.next hnext
    omega

theorem Cuts.later (h : Cuts origin len n) (hwide : 2 ≤ len / n) {i : ℤ}
    (hi : InPart origin len n k i) {l : Nat} (hkl : k < l) (hl : l < n) :
    i < edge origin len n l := by
  have hnext := hi.next (by omega)
  obtain rfl | hlt := (Nat.succ_le_of_lt hkl).eq_or_lt
  · exact hnext
  · exact hnext.trans (h.edge_strictMono hwide hlt hl.le)

theorem Cuts.exists_inPart (h : Cuts origin len n) {i : ℤ} (h0 : edge origin len n 0 ≤ i)
    (hi : (i : ℚ) + 1 ≤ origin + len) : ∃ k, InPart origin len n k i := by
  have hpos := h.pos
  let P := fun k => edge origin len n k ≤ i
  have hlast : Nat.findGreatest P (n - 1) ≤ n - 1 := Nat.findGreatest_le _
  have hstart : P (Nat.findGreatest P (n - 1)) := Nat.findGreatest_spec (Nat.zero_le _) h0
  refine ⟨Nat.findGreatest P (n - 1), by omega, hstart, fun hnext => ?_, hi⟩
  have hbehind : ¬ P (Nat.findGreatest P (n - 1) + 1) :=
    Nat.findGreatest_is_greatest (Nat.lt_succ_self _) (by omega)
  exact not_le.mp hbehind

theorem Cuts.inPart_edge (h : Cuts origin len n) (hwide : 2 ≤ len / n) (hk : k < n) :
    InPart origin len n k (edge origin len n k) where
  part := hk
  start := le_rfl
  next hnext := h.edge_lt hwide hnext.le
  within := by
    have hnear := (h.start_near hk.le).2
    have hparts := h.parts_le (Nat.succ_le_of_lt hk)
    have hfloor := Int.floor_le (start origin len n k)
    push_cast at hparts
    rw [edge]
    linarith

end CanSniffer.Library.PixelAxis
