import CanSniffer.Library.Binning
import CanSniffer.Library.JsNumber

namespace CanSniffer.Graphs

open Library Binning

/-- The centers of the bins, as numbers with two decimals, and the counts. -/
structure Histogram where
  xs : List (Option ℚ)
  ys : List Nat
  deriving DecidableEq, Repr

/-- The loop for `min` and `max`; `none` are the infinities in front of it. -/
def extremes (samples : List ℚ) : Option (ℚ × ℚ) :=
  samples.foldl (fun extremes v => match extremes with
    | none => some (v, v)
    | some (min, max) => some (if v < min then v else min, if v > max then v else max)) none

/-- `max = min + 1` for a single value. -/
def upperEnd (min max : ℚ) : ℚ := if min = max then min + 1 else max

/-- `+(min + (i + 0.5) * step).toFixed(2)` -/
def center (min step : ℚ) (i : Nat) : Option ℚ :=
  JsNumber.parseFloat (JsNumber.toFixed 2 (min + (i + 1 / 2) * step))

/-- The arithmetic is exact. `none` is an access outside of `counts`. -/
def buildHistogram (samples : List ℚ) (bins : Nat) : Option Histogram :=
  match extremes samples with
  | none => some ⟨[], []⟩
  | some (min, max) => do
    let step := (upperEnd min max - min) / bins
    let counts ← samples.foldlM (fun counts v => bump counts (binIndex bins min step v))
      (List.replicate bins 0)
    pure ⟨(List.range bins).map (center min step), (List.range bins).map fun i => counts.getD i 0⟩

variable {samples : List ℚ} {bins : Nat} {lo top : ℚ}

theorem extremes_concat (samples : List ℚ) (v : ℚ) :
    extremes (samples ++ [v]) = match extremes samples with
      | none => some (v, v)
      | some (min, max) => some (if v < min then v else min, if v > max then v else max) := by
  rw [extremes, List.foldl_append]
  rfl

theorem extremes_spec (hne : samples ≠ []) :
    ∃ lo top, extremes samples = some (lo, top) ∧ IsLeast {v | v ∈ samples} lo ∧
      IsGreatest {v | v ∈ samples} top := by
  induction samples using List.reverseRecOn with
  | nil => exact absurd rfl hne
  | append_singleton samples v ih =>
    have hset : {w | w ∈ samples ++ [v]} = insert v {w | w ∈ samples} := by
      ext w
      simp [or_comm]
    rw [extremes_concat, hset]
    by_cases hnil : samples = []
    · subst hnil
      refine ⟨v, v, rfl, ?_, ?_⟩
      · simp
      · simp
    · obtain ⟨lo, top, heq, hlo, htop⟩ := ih hnil
      rw [heq]
      refine ⟨_, _, rfl, ?_, ?_⟩
      · rw [← min_def_lt]
        exact hlo.insert v
      · have hmax : (if v > top then v else top) = max v top :=
          (max_def_lt top v).symm.trans (max_comm top v)
        rw [hmax]
        exact htop.insert v

theorem lt_upperEnd (hlo : IsLeast {v | v ∈ samples} lo) (htop : IsGreatest {v | v ∈ samples} top) :
    lo < upperEnd lo top := by
  rw [upperEnd]
  split_ifs with heq
  · exact lt_add_one lo
  · exact lt_of_le_of_ne (hlo.2 htop.1) heq

theorem le_upperEnd (htop : IsGreatest {v | v ∈ samples} top) {v : ℚ} (hv : v ∈ samples) :
    v ≤ upperEnd lo top := by
  rw [upperEnd]
  split_ifs with heq
  · rw [heq]
    exact (htop.2 hv).trans (lt_add_one top).le
  · exact htop.2 hv

def countSamples (samples : List ℚ) (bins : Nat) (lo hi : ℚ) : Histogram where
  xs := (List.range bins).map (center lo (width bins lo hi))
  ys := (List.range bins).map fun b => samples.countP fun v => InBin bins lo hi b v

theorem countP_binIndex (hbins : 0 < bins) (hlo : IsLeast {v | v ∈ samples} lo)
    (htop : IsGreatest {v | v ∈ samples} top) {b : Nat} (hb : b < bins) :
    (samples.countP fun v =>
        binIndex bins lo (width bins lo (upperEnd lo top)) v = b) =
      samples.countP fun v => InBin bins lo (upperEnd lo top) b v := by
  apply List.countP_congr
  intro v hv
  simpa using binIndex_eq_iff hbins (lt_upperEnd hlo htop) (le_upperEnd htop hv) hb

theorem buildHistogram_eq (hbins : 0 < bins) (hlo : IsLeast {v | v ∈ samples} lo)
    (htop : IsGreatest {v | v ∈ samples} top) :
    buildHistogram samples bins = some (countSamples samples bins lo (upperEnd lo top)) := by
  have hne : samples ≠ [] := List.ne_nil_of_mem hlo.1
  obtain ⟨lo', top', heq, hlo', htop'⟩ := extremes_spec hne
  obtain rfl := hlo'.unique hlo
  obtain rfl := htop'.unique htop
  have hmem : ∀ v ∈ samples, 0 ≤ binIndex bins lo' (width bins lo' (upperEnd lo' top')) v ∧
      binIndex bins lo' (width bins lo' (upperEnd lo' top')) v < bins :=
    fun v hv => binIndex_mem hbins (lt_upperEnd hlo htop) (hlo.2 hv)
  have hstart : List.replicate bins 0 = (List.range bins).map fun _ => 0 := by
    rw [List.map_const', List.length_range]
  have hloop := foldlM_bump hmem fun _ => 0
  rw [buildHistogram, heq]
  dsimp only
  rw [← width, hstart, hloop, Option.bind_eq_bind, Option.bind_some, countSamples]
  have hys : (List.range bins).map (fun i => ((List.range bins).map fun (b : Nat) =>
        0 + samples.countP fun v =>
          binIndex bins lo' (width bins lo' (upperEnd lo' top')) v = b).getD i 0) =
      (List.range bins).map fun b => samples.countP fun v =>
        InBin bins lo' (upperEnd lo' top') b v := by
    apply List.map_congr_left
    intro b hb
    have hlt := List.mem_range.mp hb
    rw [List.getD_eq_getElem?_getD, List.getElem?_map, List.getElem?_range hlt, Option.map_some,
      Option.getD_some, Nat.zero_add, countP_binIndex hbins hlo htop hlt]
  rw [hys]
  rfl

theorem sum_countSamples (hbins : 0 < bins) (hlo : IsLeast {v | v ∈ samples} lo)
    (htop : IsGreatest {v | v ∈ samples} top) :
    (countSamples samples bins lo (upperEnd lo top)).ys.sum = samples.length := by
  rw [← sum_countP fun v hv => binIndex_mem hbins (lt_upperEnd hlo htop) (hlo.2 hv)]
  refine congrArg List.sum (List.map_congr_left fun b hb => ?_)
  exact (countP_binIndex hbins hlo htop (List.mem_range.mp hb)).symm

/-- Of samples, at least one, every one is counted once and in the bin whose interval has it; the
order does not matter. -/
theorem buildHistogram_counts (hne : samples ≠ []) (hbins : 0 < bins) :
    ∃ lo top hist, IsLeast {v | v ∈ samples} lo ∧ IsGreatest {v | v ∈ samples} top ∧
      buildHistogram samples bins = some hist ∧ hist.ys.length = bins ∧
      hist.ys.sum = samples.length ∧
      (∀ b < bins, hist.ys[b]? =
        some (samples.countP fun v => InBin bins lo (upperEnd lo top) b v)) ∧
      ∀ samples', samples'.Perm samples → buildHistogram samples' bins = some hist := by
  obtain ⟨lo, top, -, hlo, htop⟩ := extremes_spec hne
  refine ⟨lo, top, countSamples samples bins lo (upperEnd lo top), hlo, htop,
    buildHistogram_eq hbins hlo htop, ?_, sum_countSamples hbins hlo htop, ?_, ?_⟩
  · rw [countSamples, List.length_map, List.length_range]
  · intro b hb
    rw [countSamples, List.getElem?_map, List.getElem?_range hb]
    rfl
  · intro samples' hperm
    have hset : {v | v ∈ samples'} = {v | v ∈ samples} := Set.ext fun v => hperm.mem_iff
    rw [buildHistogram_eq hbins (hset ▸ hlo) (hset ▸ htop), countSamples, countSamples]
    have hys : ∀ b : Nat, (samples'.countP fun v => InBin bins lo (upperEnd lo top) b v) =
        samples.countP fun v => InBin bins lo (upperEnd lo top) b v := fun b => hperm.countP_eq _
    simp only [hys]

theorem buildHistogram_counts_halves :
    ∃ lo top hist, IsLeast {v | v ∈ [2, 1, 3 / 2, (1 : ℚ)]} lo ∧
      IsGreatest {v | v ∈ [2, 1, 3 / 2, (1 : ℚ)]} top ∧
      buildHistogram [2, 1, 3 / 2, 1] 2 = some hist ∧ hist.ys.length = 2 ∧
      hist.ys.sum = [2, 1, 3 / 2, (1 : ℚ)].length ∧
      (∀ b < 2, hist.ys[b]? =
        some ([2, 1, 3 / 2, 1].countP fun v => InBin 2 lo (upperEnd lo top) b v)) ∧
      ∀ samples', samples'.Perm [2, 1, 3 / 2, 1] → buildHistogram samples' 2 = some hist :=
  buildHistogram_counts (by decide) (by decide)

end CanSniffer.Graphs
