import CanSniffer.Library.Statistics
import CanSniffer.TimingStats

namespace CanSniffer.IntervalStatistics

open Library Library.Newest Library.Statistics IdStats

/-- Exact arithmetic, without rounding. A root is whatever `root` takes for it. -/
def exactOps (root : ℚ → ℚ) : FloatOps where
  literal x := x
  add x y := x + y
  sub x y := x - y
  mul x y := x * y
  div x y := x / y
  square x := x ^ 2
  sqrt := root
  sum := List.sum
  roundDigits _ x := x

def recordAll (root : ℚ → ℚ) (ts : List ℚ) : IdStats := ts.foldl (record (exactOps root)) {}

def intervalsMs (ts : List ℚ) : List ℚ := steps (fun a b => (b - a) * 1000) ts

variable {root : ℚ → ℚ} {ts : List ℚ} {s : IdStats} {q : ℚ} {sorted : List ℚ}

theorem recordAll_concat (root : ℚ → ℚ) (ts : List ℚ) (t : ℚ) :
    recordAll root (ts ++ [t]) = (recordAll root ts).record (exactOps root) t :=
  List.foldl_concat ..

theorem recordAll_spec (root : ℚ → ℚ) (ts : List ℚ) :
    (recordAll root ts).count = ts.length ∧ (recordAll root ts).lastTs = ts.getLast? ∧
      (recordAll root ts).intervals.items = (intervalsMs ts).rtake 100 := by
  induction ts using List.reverseRecOn with
  | nil => exact ⟨rfl, rfl, rfl⟩
  | append_singleton ts t ih =>
    obtain ⟨hcount, hlast, hitems⟩ := ih
    rw [recordAll_concat]
    refine ⟨by simp [record, hcount], by simp [record], ?_⟩
    rw [record, hlast]
    obtain rfl | ⟨ts, last, rfl⟩ := List.eq_nil_or_concat' ts
    · exact hitems
    · have hsteps : intervalsMs (ts ++ [last] ++ [t]) =
          intervalsMs (ts ++ [last]) ++ [(t - last) * 1000] := by
        rw [List.append_assoc]
        exact steps_concat _ ts last t
      rw [List.getLast?_concat, hsteps]
      exact Deque.items_append_rtake hitems _

theorem items_eq (root : ℚ → ℚ) (ts : List ℚ) :
    (recordAll root ts).intervals.items =
      intervalsMs (ts.rtake (min (ts.length - 1) 100 + 1)) := by
  rw [(recordAll_spec root ts).2.2, intervalsMs, intervalsMs, rtake_steps]
  congr 1
  simp only [List.rtake]
  congr 1
  omega

theorem quantile_eq (root : ℚ → ℚ) (hq : 0 ≤ q) (hlen : sorted ≠ []) :
    ∃ h : min ⌊sorted.length * q⌋₊ (sorted.length - 1) < sorted.length,
      quantile (exactOps root) sorted q =
        sorted[min ⌊sorted.length * q⌋₊ (sorted.length - 1)] := by
  have hpos := List.length_pos_iff.mpr hlen
  have hfloor : (Binary64.trunc (sorted.length * q)).toNat = ⌊sorted.length * q⌋₊ := by
    rw [Binary64.trunc, if_pos (by positivity)]
    rfl
  have hlt : min ⌊sorted.length * q⌋₊ (sorted.length - 1) < sorted.length := by omega
  refine ⟨hlt, ?_⟩
  have hindex : quantile (exactOps root) sorted q =
      sorted.getD (min (Binary64.trunc (sorted.length * q)).toNat (sorted.length - 1)) 0 := rfl
  rw [hindex, hfloor, List.getD_eq_getElem?_getD, List.getElem?_eq_getElem hlt, Option.getD_some]

/-- Up to the size of the window the doubles 0.95 and 0.99 lead to the same index. -/
theorem quantile_doubles (root : ℚ → ℚ) (h : sorted.length ≤ 100) :
    quantile Binary64.ops sorted (95 / 100) = quantile (exactOps root) sorted (95 / 100) ∧
      quantile Binary64.ops sorted (99 / 100) = quantile (exactOps root) sorted (99 / 100) := by
  have hindex : ∀ n < 101,
      Binary64.trunc (Binary64.mul (n : Nat) (Binary64.round (95 / 100))) =
          Binary64.trunc ((n : Nat) * (95 / 100)) ∧
        Binary64.trunc (Binary64.mul (n : Nat) (Binary64.round (99 / 100))) =
          Binary64.trunc ((n : Nat) * (99 / 100)) := by
    decide +kernel
  obtain ⟨h95, h99⟩ := hindex sorted.length (by omega)
  exact ⟨congrArg (fun i => sorted.getD (min (Int.toNat i) (sorted.length - 1)) 0) h95,
    congrArg (fun i => sorted.getD (min (Int.toNat i) (sorted.length - 1)) 0) h99⟩

theorem quantile_mono {q' : ℚ} (hsorted : sorted.Pairwise (· ≤ ·)) (hlen : sorted ≠ []) (hq : 0 ≤ q)
    (hle : q ≤ q') : quantile (exactOps root) sorted q ≤ quantile (exactOps root) sorted q' := by
  obtain ⟨h, heq⟩ := quantile_eq root hq hlen
  obtain ⟨h', heq'⟩ := quantile_eq root (hq.trans hle) hlen
  have hfloor : ⌊sorted.length * q⌋₊ ≤ ⌊sorted.length * q'⌋₊ := by
    apply Nat.floor_le_floor
    gcongr
  rw [heq, heq']
  exact hsorted.rel_get_of_le (a := ⟨_, h⟩) (b := ⟨_, h'⟩) (Fin.mk_le_mk.mpr (by omega))

theorem quantile_mem (hq : 0 ≤ q) (hlen : sorted ≠ []) :
    quantile (exactOps root) sorted q ∈ sorted := by
  obtain ⟨h, heq⟩ := quantile_eq root hq hlen
  rw [heq]
  exact List.getElem_mem h

theorem quantile_isQuantile {ivs : List ℚ} (hperm : sorted.Perm ivs)
    (hsorted : sorted.Pairwise (· ≤ ·)) (hlen : sorted ≠ []) (hq : 0 ≤ q) (hq1 : q ≤ 1) :
    IsQuantile q ivs (quantile (exactOps root) sorted q) := by
  obtain ⟨h, heq⟩ := quantile_eq root hq hlen
  rw [heq]
  exact isQuantile_getElem hperm hsorted hq hq1 rfl h

theorem headD_mem (h : sorted ≠ []) : sorted.headD 0 ∈ sorted := by
  cases sorted with
  | nil => exact absurd rfl h
  | cons x xs => exact List.mem_cons_self

theorem getLastD_mem (h : sorted ≠ []) : sorted.getLastD 0 ∈ sorted := by
  rw [List.getLastD_eq_getLast?, List.getLast?_eq_some_getLast h]
  exact List.getLast_mem h

theorem headD_le (h : sorted.Pairwise (· ≤ ·)) {x : ℚ} (hx : x ∈ sorted) : sorted.headD 0 ≤ x := by
  cases sorted with
  | nil => cases hx
  | cons y ys =>
    obtain rfl | hx := List.mem_cons.mp hx
    · exact le_rfl
    · exact List.rel_of_pairwise_cons h hx

theorem le_getLastD (h : sorted.Pairwise (· ≤ ·)) {x : ℚ} (hx : x ∈ sorted) :
    x ≤ sorted.getLastD 0 := by
  obtain rfl | ⟨ys, y, rfl⟩ := List.eq_nil_or_concat' sorted
  · cases hx
  · rw [List.getLastD_concat]
    obtain hx | hx := List.mem_append.mp hx
    · exact (List.pairwise_append.mp h).2.2 x hx y (List.mem_singleton_self y)
    · exact (List.mem_singleton.mp hx).le

theorem toDict_eq (root : ℚ → ℚ) (h : 2 ≤ s.intervals.items.length) : ∃ fps,
    s.toDict (exactOps root) =
      ⟨s.count, some (s.intervals.items.mergeSort.headD 0),
        some (s.intervals.items.mergeSort.getLastD 0), some (mean s.intervals.items),
        some (root (variance s.intervals.items)),
        some (quantile (exactOps root) s.intervals.items.mergeSort (95 / 100)),
        some (quantile (exactOps root) s.intervals.items.mergeSort (99 / 100)),
        some (root (variance s.intervals.items)), fps⟩ := by
  rw [toDict, if_neg (by omega)]
  exact ⟨_, rfl⟩

theorem window_span {n : Nat} {ts ivs : List ℚ} (hivs : ivs = intervalsMs (ts.rtake (n + 1)))
    (hlen : ivs.length = n) (hne : ivs ≠ []) :
    ∃ first last, (ts.rtake (n + 1)).head? = some first ∧ ts.getLast? = some last ∧
      n * mean ivs = 1000 * (last - first) := by
  obtain ⟨first, rest, hwindow⟩ : ∃ first rest, ts.rtake (n + 1) = first :: rest := by
    apply List.exists_cons_of_ne_nil
    intro hnil
    rw [hnil] at hivs
    exact hne hivs
  have hlast : ts.getLast? = some (rest.getLastD first) := by
    have hsuffix := rtake_suffix (n + 1) ts
    rw [hwindow] at hsuffix
    obtain ⟨old, rfl⟩ := hsuffix
    rw [List.getLast?_append, List.getLast?_cons, Option.some_or, List.getLastD_eq_getLast?]
  have hsum : n * mean ivs = 1000 * (rest.getLastD first - first) := by
    rw [← hlen, length_mul_mean hne, hivs, intervalsMs, hwindow, sum_steps, mul_comm]
  exact ⟨first, rest.getLastD first, by rw [hwindow]; rfl, hlast, hsum⟩

/-- The stored intervals are those of the last instants, and what is told of them is what it is
called. -/
theorem interval_statistics (root : ℚ → ℚ) (ts : List ℚ) :
    (recordAll root ts).count = ts.length ∧
    let s := recordAll root ts
    let n := min (s.count - 1) 100
    let ivs := s.intervals.items
    ivs = intervalsMs (ts.rtake (n + 1)) ∧ ivs.length = n ∧
      (2 ≤ n → ∃ lo hi mean var p95 p99 fps first last,
        s.toDict (exactOps root) = ⟨s.count, some lo, some hi, some mean, some (root var), some p95,
          some p99, some (root var), fps⟩ ∧
        (lo ∈ ivs ∧ hi ∈ ivs ∧ ∀ x ∈ ivs, lo ≤ x ∧ x ≤ hi) ∧
        (lo ≤ p95 ∧ p95 ≤ p99 ∧ p99 ≤ hi) ∧ (lo ≤ mean ∧ mean ≤ hi) ∧
        ((ts.rtake (n + 1)).head? = some first ∧ ts.getLast? = some last ∧
          n * mean = 1000 * (last - first)) ∧
        (var = (ivs.map (· ^ 2)).sum / n - mean ^ 2 ∧ var ≤ ((hi - lo) / 2) ^ 2) ∧
        IsQuantile (95 / 100) ivs p95 ∧ IsQuantile (99 / 100) ivs p99) := by
  refine ⟨(recordAll_spec root ts).1, ?_⟩
  intro s n ivs
  have hcount : s.count = ts.length := (recordAll_spec root ts).1
  have hivs : ivs = intervalsMs (ts.rtake (n + 1)) := by
    have hitems := items_eq root ts
    rwa [← hcount] at hitems
  have hlen : ivs.length = n := by
    rw [hivs, intervalsMs, length_steps, length_rtake]
    omega
  refine ⟨hivs, hlen, ?_⟩
  intro hn
  have hne : ivs ≠ [] := by
    apply List.ne_nil_of_length_pos
    omega
  have hperm : ivs.mergeSort.Perm ivs := List.mergeSort_perm ivs _
  have hsorted : ivs.mergeSort.Pairwise (· ≤ ·) := List.pairwise_mergeSort' (· ≤ ·) ivs
  have hsort_ne : ivs.mergeSort ≠ [] := by
    apply List.ne_nil_of_length_pos
    rw [hperm.length_eq]
    omega
  have hlo : ∀ x ∈ ivs, ivs.mergeSort.headD 0 ≤ x :=
    fun x hx => headD_le hsorted (hperm.mem_iff.mpr hx)
  have hhi : ∀ x ∈ ivs, x ≤ ivs.mergeSort.getLastD 0 :=
    fun x hx => le_getLastD hsorted (hperm.mem_iff.mpr hx)
  obtain ⟨first, last, hspan⟩ := window_span hivs hlen hne
  obtain ⟨fps, hdict⟩ : ∃ fps, s.toDict (exactOps root) = _ := toDict_eq root (hn.trans_eq hlen.symm)
  refine ⟨_, _, _, _, _, _, fps, first, last, hdict, ⟨?_, ?_, ?_⟩, ⟨?_, ?_, ?_⟩,
    ⟨le_mean hne hlo, mean_le hne hhi⟩, hspan, ⟨?_, ?_⟩, ?_, ?_⟩
  · exact hperm.mem_iff.mp (headD_mem hsort_ne)
  · exact hperm.mem_iff.mp (getLastD_mem hsort_ne)
  · exact fun x hx => ⟨hlo x hx, hhi x hx⟩
  · exact headD_le hsorted (quantile_mem (by norm_num) hsort_ne)
  · exact quantile_mono hsorted hsort_ne (by norm_num) (by norm_num)
  · exact le_getLastD hsorted (quantile_mem (by norm_num) hsort_ne)
  · rw [← hlen]
    exact variance_eq hne
  · exact variance_le hne hlo hhi
  · exact quantile_isQuantile hperm hsorted hsort_ne (by norm_num) (by norm_num)
  · exact quantile_isQuantile hperm hsorted hsort_ne (by norm_num) (by norm_num)

def threeFrames : List ℚ := [0, 1 / 10, 3 / 10]

theorem interval_statistics_threeFrames : ∃ p95 : ℚ,
    ((recordAll id threeFrames).toDict (exactOps id)).intervalP95Ms = some p95 ∧
      IsQuantile (95 / 100) (recordAll id threeFrames).intervals.items p95 := by
  obtain ⟨_, _, _, _, p95, _, _, _, _, hdict, -, -, -, -, -, hquantile, -⟩ :=
    (interval_statistics id threeFrames).2.2.2 (by decide)
  exact ⟨p95, congrArg IdTiming.intervalP95Ms hdict, hquantile⟩

end CanSniffer.IntervalStatistics
