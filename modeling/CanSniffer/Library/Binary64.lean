import Mathlib.Data.Int.Log
import Mathlib.Data.Rat.Floor
import Mathlib.Tactic

namespace CanSniffer.Library

structure FloatOps where
  literal : ℚ → ℚ
  add : ℚ → ℚ → ℚ
  sub : ℚ → ℚ → ℚ
  mul : ℚ → ℚ → ℚ
  div : ℚ → ℚ → ℚ
  square : ℚ → ℚ
  sqrt : ℚ → ℚ
  sum : List ℚ → ℚ
  roundDigits : Nat → ℚ → ℚ

namespace FloatOps

variable (ops : FloatOps)

def mean (xs : List ℚ) : ℚ := ops.div (ops.sum xs) xs.length

def variance (xs : List ℚ) : ℚ :=
  ops.div (ops.sum (xs.map fun x => ops.square (ops.sub x (ops.mean xs)))) xs.length

end FloatOps

namespace Binary64

/-- Round to the nearest integer; a midpoint goes to the even neighbour. -/
def roundEven (x : ℚ) : ℤ :=
  let k := ⌊x⌋
  if x - k < 1 / 2 then k
  else if 1 / 2 < x - k then k + 1
  else if k % 2 = 0 then k else k + 1

/-- The multiple of `2 ^ e` nearest to `x`. -/
def onGrid (e : ℤ) (x : ℚ) : ℚ := roundEven (x / 2 ^ e) * 2 ^ e

/-- Exponent of the last place of the double nearest to a positive `x`: 53
significant bits, and never below the subnormal spacing. -/
def ulpExp (x : ℚ) : ℤ := max (Int.log 2 x - 52) (-1074)

/-- The double nearest to `x`. Overflow to infinity is not represented. -/
def round (x : ℚ) : ℚ :=
  if 0 ≤ x then onGrid (ulpExp x) x else -onGrid (ulpExp (-x)) (-x)

def mul (x y : ℚ) : ℚ := round (x * y)

def sub (x y : ℚ) : ℚ := round (x - y)

def add (x y : ℚ) : ℚ := round (x + y)

def div (x y : ℚ) : ℚ := round (x / y)

/-- The quotient; `none` is the ZeroDivisionError. -/
def div? (x y : ℚ) : Option ℚ := if y = 0 then none else some (div x y)

/-- Conversion of an integer to a double; `none` is the OverflowError. -/
def ofInt? (n : ℤ) : Option ℚ := if |round n| < 2 ^ 1024 then some (round n) else none

/-- The double nearest to the decimal with so many digits after the point that is nearest to `x`;
a midpoint goes to the even digit. -/
def roundDigits (digits : Nat) (x : ℚ) : ℚ := round (roundEven (x * 10 ^ digits) / 10 ^ digits)

/-- The double nearest to the square root. The root is cut to more than 60 bits; a rest that was
cut off only has to be seen to be there. -/
def sqrt (x : ℚ) : ℚ :=
  let k := (61 - Int.log 2 x / 2).toNat
  let scaled := x * 4 ^ k
  let root := Nat.sqrt ⌊scaled⌋.toNat
  round ((if (root * root : ℚ) = scaled then root else root + 1 / 2) / 2 ^ k)

def ops : FloatOps where
  literal := round
  add := add
  sub := sub
  mul := mul
  div := div
  square x := mul x x
  sqrt := sqrt
  sum xs := xs.foldl add 0
  roundDigits := roundDigits

def trunc (x : ℚ) : ℤ := if 0 ≤ x then ⌊x⌋ else ⌈x⌉

@[simp] theorem roundEven_intCast (k : ℤ) : roundEven (k : ℚ) = k := by
  simp [roundEven]

theorem roundEven_between (x : ℚ) : ⌊x⌋ ≤ roundEven x ∧ roundEven x ≤ ⌊x⌋ + 1 := by
  rw [roundEven]
  split_ifs <;> omega

theorem roundEven_mono {x y : ℚ} (h : x ≤ y) : roundEven x ≤ roundEven y := by
  obtain hlt | heq := (Int.floor_le_floor h).lt_or_eq
  · have hx := (roundEven_between x).2
    have hy := (roundEven_between y).1
    omega
  · rw [roundEven, roundEven, heq]
    split_ifs <;> first | omega | (exfalso; linarith)

theorem onGrid_mono (e : ℤ) {x y : ℚ} (h : x ≤ y) : onGrid e x ≤ onGrid e y := by
  have hp : (0 : ℚ) ≤ 2 ^ e := by positivity
  have hr := roundEven_mono (div_le_div_of_nonneg_right h hp)
  exact mul_le_mul_of_nonneg_right (by exact_mod_cast hr) hp

@[simp] theorem onGrid_zero (e : ℤ) : onGrid e 0 = 0 := by
  simp [onGrid, roundEven]

theorem onGrid_zpow {e k : ℤ} (h : e ≤ k) : onGrid e (2 ^ k) = 2 ^ k := by
  obtain ⟨d, hd⟩ := Int.eq_ofNat_of_zero_le (sub_nonneg.mpr h)
  have hpow : (2 : ℚ) ^ k / 2 ^ e = ((2 ^ d : ℤ) : ℚ) := by
    rw [← zpow_sub₀ two_ne_zero, hd]
    push_cast
    simp
  have hne : (2 : ℚ) ^ e ≠ 0 := by positivity
  rw [onGrid, hpow, roundEven_intCast, ← hpow, div_mul_cancel₀ _ hne]

theorem onGrid_nonneg (e : ℤ) {x : ℚ} (h : 0 ≤ x) : 0 ≤ onGrid e x := by
  simpa using onGrid_mono e h

theorem onGrid_ulpExp_mono {x y : ℚ} (hx : 0 < x) (h : x ≤ y) :
    onGrid (ulpExp x) x ≤ onGrid (ulpExp y) y := by
  have hy : 0 < y := hx.trans_le h
  by_cases he : ulpExp x = ulpExp y
  · rw [he]
    exact onGrid_mono _ h
  · have hlog : Int.log 2 x ≤ Int.log 2 y := Int.log_mono_right hx h
    rw [ulpExp, ulpExp] at he
    have hlt : Int.log 2 x < Int.log 2 y := by omega
    have hux : ulpExp x ≤ Int.log 2 y := by rw [ulpExp]; omega
    have huy : ulpExp y ≤ Int.log 2 y := by rw [ulpExp]; omega
    have hxs := Int.lt_zpow_succ_log_self (b := 2) (by norm_num) x
    have hys := Int.zpow_log_le_self (b := 2) (by norm_num) hy
    push_cast at hxs hys
    have hxk : x ≤ 2 ^ Int.log 2 y :=
      hxs.le.trans (zpow_le_zpow_right₀ (by norm_num) (by omega))
    calc onGrid (ulpExp x) x ≤ onGrid (ulpExp x) (2 ^ Int.log 2 y) := onGrid_mono _ hxk
      _ = onGrid (ulpExp y) (2 ^ Int.log 2 y) := by rw [onGrid_zpow hux, onGrid_zpow huy]
      _ ≤ onGrid (ulpExp y) y := onGrid_mono _ hys

/-- A multiple of the spacing `2 ^ e` with at most 53 significant bits is a double. -/
theorem round_of_grid {x : ℚ} {e k : ℤ} (hx : x = k * 2 ^ e) (hlo : 0 ≤ x) (hhi : x < 2 ^ (e + 53))
    (he : -1074 ≤ e) : round x = x := by
  obtain rfl | hpos := hlo.eq_or_lt
  · simp [round]
  · have hlog : Int.log 2 x < e + 53 :=
      (Int.lt_zpow_iff_log_lt (by norm_num) hpos).mp (by exact_mod_cast hhi)
    obtain ⟨d, hd⟩ := Int.eq_ofNat_of_zero_le (show 0 ≤ e - ulpExp x by rw [ulpExp]; omega)
    have hscale : ∀ u : ℤ, e - u = d → x / 2 ^ u = ((k * 2 ^ d : ℤ) : ℚ) := by
      intro u hu
      rw [hx, mul_div_assoc, ← zpow_sub₀ two_ne_zero, hu]
      push_cast
      simp
    have hdiv := hscale (ulpExp x) hd
    have hne : (2 : ℚ) ^ ulpExp x ≠ 0 := by positivity
    rw [round, if_pos hlo, onGrid, hdiv, roundEven_intCast, ← hdiv, div_mul_cancel₀ _ hne]

theorem round_mono {x y : ℚ} (h : x ≤ y) : round x ≤ round y := by
  rw [round, round]
  split_ifs with hx hy hy
  · obtain hp | rfl := hx.lt_or_eq
    · exact onGrid_ulpExp_mono hp h
    · simpa using onGrid_nonneg _ hy
  · linarith
  · linarith [onGrid_nonneg (ulpExp (-x)) (x := -x) (by linarith), onGrid_nonneg (ulpExp y) hy]
  · exact neg_le_neg (onGrid_ulpExp_mono (by linarith) (by linarith))

theorem round_zpow {k : ℤ} (h : -1074 ≤ k) : round (2 ^ k) = 2 ^ k :=
  round_of_grid (k := 1) (by simp) (by positivity) (zpow_lt_zpow_right₀ (by norm_num) (by omega)) h

@[simp] theorem round_zero : round 0 = 0 := by simp [round]

@[simp] theorem round_one : round 1 = 1 := by
  have h := round_zpow (k := 0) (by norm_num)
  rwa [zpow_zero] at h

theorem round_neg (x : ℚ) : round (-x) = -round x := by
  obtain hlt | rfl | hgt := lt_trichotomy x 0
  · rw [round, round, if_pos (by linarith), if_neg (by linarith), neg_neg]
  · simp
  · rw [round, round, if_neg (by linarith), if_pos hgt.le, neg_neg]

theorem round_eq_grid {x : ℚ} (h : 0 ≤ x) :
    ∃ k : ℤ, round x = k * 2 ^ ulpExp x ∧ 0 ≤ round x ∧ round x ≤ 2 ^ (ulpExp x + 53) := by
  refine ⟨roundEven (x / 2 ^ ulpExp x), by rw [round, if_pos h, onGrid], ?_, ?_⟩
  · rw [round, if_pos h]
    exact onGrid_nonneg _ h
  · have hlt := Int.lt_zpow_succ_log_self (b := 2) (by norm_num) x
    have hle : x ≤ 2 ^ (ulpExp x + 53) := by
      refine hlt.le.trans ?_
      push_cast
      apply zpow_le_zpow_right₀ (by norm_num)
      rw [ulpExp]
      omega
    rw [round, if_pos h]
    exact (onGrid_mono _ hle).trans_eq (onGrid_zpow (by omega))

theorem round_round (x : ℚ) : round (round x) = round x := by
  have hpos : ∀ {x : ℚ}, 0 ≤ x → round (round x) = round x := by
    intro x hx
    obtain ⟨k, hk, hlo, hhi⟩ := round_eq_grid hx
    have hexp : -1074 ≤ ulpExp x := le_max_right ..
    obtain hlt | heq := hhi.lt_or_eq
    · exact round_of_grid hk hlo hlt hexp
    · rw [heq]
      exact round_zpow (by omega)
  obtain h | h := le_total 0 x
  · exact hpos h
  · have hneg := hpos (neg_nonneg.mpr h)
    rw [round_neg, round_neg] at hneg
    exact neg_injective hneg

theorem round_pos {x : ℚ} (h : 2 ^ (-1074 : ℤ) ≤ x) : 0 < round x := by
  calc (0 : ℚ) < 2 ^ (-1074 : ℤ) := by positivity
    _ = round (2 ^ (-1074 : ℤ)) := (round_zpow le_rfl).symm
    _ ≤ round x := round_mono h

theorem round_natCast {n : Nat} (h : n < 2 ^ 53) : round n = n :=
  round_of_grid (k := n) (e := 0) (by simp) (by positivity) (by exact_mod_cast h) (by norm_num)

theorem round_intCast_eq_iff {k : ℤ} {n : Nat} (hn : n < 2 ^ 53) : round k = n ↔ k = n := by
  constructor
  · intro hk
    obtain hneg | hpos := lt_or_ge k 0
    · have hle : round k ≤ round (-1 : ℚ) :=
        round_mono (by exact_mod_cast Int.le_sub_one_of_lt hneg)
      rw [round_neg, round_one, hk] at hle
      linarith [Nat.cast_nonneg (α := ℚ) n]
    · lift k to ℕ using hpos
      rw [Int.cast_natCast] at hk
      by_cases hlt : k < 2 ^ 53
      · rw [round_natCast hlt] at hk
        exact_mod_cast hk
      · have hge : round (2 ^ (53 : ℤ)) ≤ round (k : ℚ) := by
          apply round_mono
          exact_mod_cast not_lt.mp hlt
        rw [round_zpow (by norm_num), hk] at hge
        have hpow : (2 : ℚ) ^ (53 : ℤ) = ((2 ^ 53 : ℕ) : ℚ) := by norm_num
        rw [hpow] at hge
        exact absurd hn (not_lt.mpr (by exact_mod_cast hge))
  · rintro rfl
    rw [Int.cast_natCast, round_natCast hn]

theorem round_intCast (n : ℤ) : ∃ m : ℤ, round n = m := by
  have hnat : ∀ n : Nat, ∃ m : ℤ, round (n : ℚ) = m := by
    intro n
    by_cases hn : n < 2 ^ 53
    · exact ⟨n, by rw [round_natCast hn, Int.cast_natCast]⟩
    · obtain ⟨k, hk, -, -⟩ := round_eq_grid (Nat.cast_nonneg (α := ℚ) n)
      have hlog : 53 ≤ Int.log 2 (n : ℚ) := by
        rw [← Int.zpow_le_iff_le_log (by norm_num) (by exact_mod_cast (by omega : 0 < n))]
        exact_mod_cast not_lt.mp hn
      obtain ⟨d, hd⟩ := Int.eq_ofNat_of_zero_le (by rw [ulpExp]; omega : 0 ≤ ulpExp (n : ℚ))
      refine ⟨k * 2 ^ d, ?_⟩
      rw [hk, hd]
      push_cast
      rfl
  obtain ⟨m, rfl | rfl⟩ := n.eq_nat_or_neg
  · exact hnat m
  · obtain ⟨k, hk⟩ := hnat m
    refine ⟨-k, ?_⟩
    push_cast
    rw [round_neg, hk]

theorem round_abs (x : ℚ) : round |x| = |round x| := by
  obtain hpos | hneg := le_total 0 x
  · have hround : 0 ≤ round x := by simpa using round_mono hpos
    rw [abs_of_nonneg hpos, abs_of_nonneg hround]
  · have hround : round x ≤ 0 := by simpa using round_mono hneg
    rw [abs_of_nonpos hneg, abs_of_nonpos hround, round_neg]

theorem succ_one_le_round {x : ℚ} (h : 1 < round x) : 1 + 2 ^ (-52 : ℤ) ≤ round x := by
  have hx : 1 < x := by
    by_contra hle
    exact absurd ((round_mono (not_lt.mp hle)).trans_eq round_one) (not_le.mpr h)
  have hlog : 0 ≤ Int.log 2 x :=
    (Int.zpow_le_iff_le_log (by norm_num) (zero_lt_one.trans hx)).mp (by simpa using hx.le)
  have hexp : -52 ≤ ulpExp x := by
    rw [ulpExp]
    omega
  obtain ⟨d, hd⟩ := Int.eq_ofNat_of_zero_le (by omega : 0 ≤ ulpExp x + 52)
  have hpow : (2 : ℚ) ^ ulpExp x = ((2 ^ d : ℤ) : ℚ) * 2 ^ (-52 : ℤ) := by
    rw [show ulpExp x = (d : ℤ) + -52 by omega, zpow_add₀ two_ne_zero, zpow_natCast]
    norm_num
  have hgrid : round x = ((roundEven (x / 2 ^ ulpExp x) * 2 ^ d : ℤ) : ℚ) * 2 ^ (-52 : ℤ) := by
    rw [round, if_pos (zero_lt_one.trans hx).le, onGrid]
    nth_rewrite 2 [hpow]
    push_cast
    ring
  rw [hgrid] at h ⊢
  generalize roundEven (x / 2 ^ ulpExp x) * 2 ^ d = k at h ⊢
  have hunit : (2 : ℚ) ^ 52 * 2 ^ (-52 : ℤ) = 1 := by norm_num
  have hk : (2 : ℚ) ^ 52 < k := by
    calc (2 : ℚ) ^ 52 = 1 * 2 ^ 52 := (one_mul _).symm
      _ < k * 2 ^ (-52 : ℤ) * 2 ^ 52 := mul_lt_mul_of_pos_right h (by positivity)
      _ = k := by rw [mul_assoc, mul_comm _ ((2 : ℚ) ^ 52), hunit, mul_one]
  have hnext : (2 : ℚ) ^ 52 + 1 ≤ k := by
    have hint : (2 : ℤ) ^ 52 + 1 ≤ k := Int.add_one_le_iff.mpr (by exact_mod_cast hk)
    exact_mod_cast hint
  calc 1 + (2 : ℚ) ^ (-52 : ℤ) = (2 ^ 52 + 1) * 2 ^ (-52 : ℤ) := by rw [add_mul, hunit, one_mul]
    _ ≤ k * 2 ^ (-52 : ℤ) := mul_le_mul_of_nonneg_right hnext (by positivity)

theorem roundEven_error (x : ℚ) : |roundEven x - x| ≤ 1 / 2 := by
  have hlo := Int.floor_le x
  have hhi := Int.lt_floor_add_one x
  rw [roundEven, abs_le]
  split_ifs <;> push_cast <;> constructor <;> linarith

theorem onGrid_error (e : ℤ) (x : ℚ) : |onGrid e x - x| ≤ 2 ^ e / 2 := by
  have hpos : (0 : ℚ) < 2 ^ e := by positivity
  have hscale : onGrid e x - x = (roundEven (x / 2 ^ e) - x / 2 ^ e) * 2 ^ e := by
    rw [onGrid]
    field_simp
  calc |onGrid e x - x| = |roundEven (x / 2 ^ e) - x / 2 ^ e| * 2 ^ e := by
        rw [hscale, abs_mul, abs_of_pos hpos]
    _ ≤ 1 / 2 * 2 ^ e := mul_le_mul_of_nonneg_right (roundEven_error _) hpos.le
    _ = 2 ^ e / 2 := by ring

/-- Below a power of two rounding loses at most half of the spacing there. -/
theorem round_error {x : ℚ} {k : ℤ} (hpos : 0 ≤ x) (hlt : x < 2 ^ k) (hk : -1021 ≤ k) :
    |round x - x| ≤ 2 ^ (k - 54) := by
  obtain rfl | hx := hpos.eq_or_lt
  · rw [round_zero, sub_self, abs_zero]
    positivity
  · have hlog : Int.log 2 x < k :=
      (Int.lt_zpow_iff_log_lt (by norm_num) hx).mp (by exact_mod_cast hlt)
    have hexp : ulpExp x ≤ k - 53 := by
      rw [ulpExp]
      omega
    rw [round, if_pos hpos]
    calc |onGrid (ulpExp x) x - x| ≤ 2 ^ ulpExp x / 2 := onGrid_error _ x
      _ ≤ 2 ^ (k - 53) / 2 := by gcongr; norm_num
      _ = 2 ^ (k - 54) := by rw [show k - 54 = k - 53 - 1 by ring, zpow_sub_one₀ two_ne_zero]; ring

theorem ulp_le {x : ℚ} (h : 2 ^ (-1022 : ℤ) ≤ x) : (2 : ℚ) ^ ulpExp x ≤ x / 2 ^ 52 := by
  have hpos : 0 < x := lt_of_lt_of_le (by positivity) h
  have hlog : -1022 ≤ Int.log 2 x :=
    (Int.zpow_le_iff_le_log (by norm_num) hpos).mp (by exact_mod_cast h)
  have hexp : ulpExp x = Int.log 2 x - 52 := by rw [ulpExp]; omega
  have hle := Int.zpow_log_le_self (b := 2) (by norm_num) hpos
  rw [hexp, zpow_sub₀ two_ne_zero, show (2 : ℚ) ^ (52 : ℤ) = 2 ^ 52 by norm_num]
  exact div_le_div_of_nonneg_right (by exact_mod_cast hle) (by positivity)

theorem round_lt {x y : ℚ} (hx : 0 ≤ x) (hy : 2 ^ (-1022 : ℤ) ≤ y) (hgap : x + y / 2 ^ 52 < y) :
    round x < round y := by
  obtain rfl | hpos := hx.eq_or_lt
  · rw [round_zero]
    exact round_pos (le_trans (zpow_le_zpow_right₀ (by norm_num) (by norm_num)) hy)
  · have hypos : 0 < y := lt_of_lt_of_le (by positivity) hy
    have hxy : x ≤ y := by
      have : 0 < y / 2 ^ 52 := by positivity
      linarith
    have hulp : (2 : ℚ) ^ ulpExp x ≤ 2 ^ ulpExp y := by
      apply zpow_le_zpow_right₀ (by norm_num)
      have hlog : Int.log 2 x ≤ Int.log 2 y := Int.log_mono_right hpos hxy
      rw [ulpExp, ulpExp]
      omega
    have hspace := ulp_le hy
    have hxe := (abs_le.mp (onGrid_error (ulpExp x) x)).2
    have hye := (abs_le.mp (onGrid_error (ulpExp y) y)).1
    rw [round, if_pos hx, round, if_pos (hx.trans hxy)]
    linarith

theorem round_natCast_le {n k : Nat} (h : n ≤ 2 ^ k) : round (n : ℤ) ≤ 2 ^ (k : ℤ) := by
  have hcast : ((n : ℤ) : ℚ) ≤ 2 ^ (k : ℤ) := by exact_mod_cast h
  exact (round_mono hcast).trans_eq (round_zpow (by omega))

theorem mul_mono_left {x y c : ℚ} (hc : 0 ≤ c) (h : x ≤ y) : mul x c ≤ mul y c :=
  round_mono (mul_le_mul_of_nonneg_right h hc)

theorem sub_anti_right {x y : ℚ} (c : ℚ) (h : x ≤ y) : sub c y ≤ sub c x :=
  round_mono (by linarith)

theorem sub_one {x : ℚ} (hx : round x = x) (hlo : 1 ≤ x) (hhi : x < 2 ^ 53) : sub x 1 = x - 1 := by
  have hpos : 0 < x := zero_lt_one.trans_le hlo
  have hlog : 0 ≤ Int.log 2 x :=
    (Int.zpow_le_iff_le_log (by norm_num) hpos).mp (by simpa using hlo)
  have hlog53 : Int.log 2 x < 53 :=
    (Int.lt_zpow_iff_log_lt (by norm_num) hpos).mp (by exact_mod_cast hhi)
  have hexp : ulpExp x = Int.log 2 x - 52 := by
    rw [ulpExp]
    omega
  obtain ⟨d, hd⟩ := Int.eq_ofNat_of_zero_le (by omega : 0 ≤ -ulpExp x)
  have hunit : (2 : ℚ) ^ d * 2 ^ ulpExp x = 1 := by
    rw [← zpow_natCast, ← hd, ← zpow_add₀ two_ne_zero, neg_add_cancel, zpow_zero]
  have hgrid : x = roundEven (x / 2 ^ ulpExp x) * 2 ^ ulpExp x := by
    rw [round, if_pos hpos.le, onGrid] at hx
    exact hx.symm
  have hbelow : x < 2 ^ (ulpExp x + 53) := by
    have hlt := Int.lt_zpow_succ_log_self (b := 2) (by norm_num) x
    rw [show ulpExp x + 53 = Int.log 2 x + 1 by omega]
    exact_mod_cast hlt
  apply round_of_grid (e := ulpExp x) (k := roundEven (x / 2 ^ ulpExp x) - 2 ^ d)
  · push_cast
    rw [sub_mul, hunit, ← hgrid]
  · linarith
  · linarith
  · omega

theorem trunc_mono {x y : ℚ} (h : x ≤ y) : trunc x ≤ trunc y := by
  rw [trunc, trunc]
  split_ifs with hx hy hy
  · exact Int.floor_le_floor h
  · linarith
  · exact (Int.ceil_le.mpr (by push_cast; linarith)).trans (Int.floor_nonneg.mpr hy)
  · exact Int.ceil_le_ceil h

end Binary64
end CanSniffer.Library
