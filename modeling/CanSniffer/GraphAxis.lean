import CanSniffer.GraphRuns

namespace CanSniffer.Graphs

open Library GraphRing

/-- The data of the latency chart have one time axis: every series has its length, and what stands
at one place is for every label null or the mean of its samples in one second. -/
def Aligned (h : History) (nowTs : Int) : Prop :=
  ∃ ts series, (run h).latencyData nowTs = some (ts, series) ∧
    (∀ vs ∈ series, vs.length = ts.length) ∧
    ∃ second : Nat → Nat,
      List.Forall₂
        (fun lbl vs => ∀ i v, vs[i]? = some (some v) → meanOf (samples h lbl (second i)) = some v)
        ((run h).latencyPairLabels.take maxLatencyPairs) series

/-- How many values a label has that came first in a second. -/
def span (h : History) (first : Nat) : Nat := max 1 (min windowS (lastSec h - first))

section Values

variable {h : History} {g : Graphs} {p : String × Nat}

theorem latencySeries_eq (g : Graphs) (nowTs : Int) (lbl : String) :
    g.latencySeries nowTs lbl = ringToUplot (g.ringOf lbl) nowTs := by
  rw [latencySeries, ringOf]
  cases g.latencyRings lbl <;> rfl

theorem values_latencySeries (ht : Tracks h (lastSec h) g) (hp : p ∈ listed h) (nowTs : Int) :
    (g.latencySeries nowTs p.1).2 =
      if means h p.1 p.2 (lastSec h) = [] then [none]
      else (means h p.1 p.2 (lastSec h)).rtake windowS := by
  rw [latencySeries_eq]
  exact (ht.rings p hp).values nowTs

theorem length_means (h : History) (lbl : String) (first last : Nat) :
    (means h lbl first last).length = last - first := by
  rw [means, List.length_map, List.length_range']

theorem length_latencySeries (ht : Tracks h (lastSec h) g) (hp : p ∈ listed h) (nowTs : Int) :
    (g.latencySeries nowTs p.1).2.length = span h p.2 := by
  have hlen := length_means h p.1 p.2 (lastSec h)
  rw [values_latencySeries ht hp, span]
  split_ifs with hnil
  · rw [← hlen, hnil]
    rfl
  · have hpos := List.length_pos_iff.mpr hnil
    rw [Newest.length_rtake, hlen]
    simp only [windowS]
    omega

theorem entry_latencySeries (ht : Tracks h (lastSec h) g) (hp : p ∈ listed h) (nowTs : Int)
    {i : Nat} {v : ℚ} (hv : (g.latencySeries nowTs p.1).2[i]? = some (some v)) :
    meanOf (samples h p.1 (lastSec h - span h p.2 + i)) = some v := by
  have hlen := length_means h p.1 p.2 (lastSec h)
  rw [values_latencySeries ht hp] at hv
  split_ifs at hv with hnil
  · cases i <;> cases hv
  · have hpos := List.length_pos_iff.mpr hnil
    rw [Newest.getElem?_rtake, hlen] at hv
    obtain ⟨hi, hget⟩ := List.getElem?_eq_some_iff.mp hv
    rw [hlen] at hi
    have hsec : lastSec h - span h p.2 + i = p.2 + (lastSec h - p.2 - windowS + i) := by
      rw [span]
      simp only [windowS]
      omega
    rw [← hget, hsec]
    simp [means]

theorem latencyData_eq (ht : Tracks h (lastSec h) g) (hown : ∀ p ∈ listed h, p.1 ∉ inherited)
    (hfull : g.latencyPairLabels.length ≤ maxLatencyPairs) (nowTs : Int) :
    g.latencyData nowTs =
      some (((listed h).head?.map fun p => (g.latencySeries nowTs p.1).1).getD [nowTs],
        (listed h).map fun p => (g.latencySeries nowTs p.1).2) := by
  have hclean : ¬ ∃ lbl ∈ g.latencyPairLabels, lbl ∈ inherited := by
    rw [ht.labels]
    rintro ⟨lbl, hlbl, hin⟩
    obtain ⟨p, hp, rfl⟩ := List.mem_map.mp hlbl
    exact hown p hp hin
  rw [latencyData, List.take_of_length_le hfull]
  dsimp only
  rw [if_neg hclean, ht.labels]
  simp [Function.comp_def]

theorem length_axis (ht : Tracks h (lastSec h) g) (nowTs : Int) {q : String × Nat}
    (hq : (listed h).head? = some q) :
    (((listed h).head?.map fun p => (g.latencySeries nowTs p.1).1).getD [nowTs]).length =
      span h q.2 := by
  rw [hq, Option.map_some, Option.getD_some,
    ← length_latencySeries ht (List.mem_of_mem_head? hq) nowTs, latencySeries_eq]
  exact length_ringToUplot _ nowTs

end Values

theorem aligned_of_span {h : History} (hown : ∀ p ∈ listed h, p.1 ∉ inherited)
    (ht : Tracks h (lastSec h) (run h)) (nowTs : Int)
    (hsame : ∀ p ∈ listed h, ∀ q ∈ listed h, span h p.2 = span h q.2) : Aligned h nowTs := by
  rw [Aligned, latencyData_eq ht hown (length_labels h), List.take_of_length_le (length_labels h),
    ht.labels]
  refine ⟨_, _, rfl, ?_⟩
  cases hhead : (listed h).head? with
  | none =>
    rw [List.head?_eq_none_iff.mp hhead]
    exact ⟨by simp, id, .nil⟩
  | some q =>
    have hq : q ∈ listed h := List.mem_of_mem_head? hhead
    constructor
    · intro vs hvs
      obtain ⟨p, hp, rfl⟩ := List.mem_map.mp hvs
      rw [← hhead, length_axis ht nowTs hhead, length_latencySeries ht hp, hsame p hp q hq]
    · refine ⟨fun i => lastSec h - span h q.2 + i, ?_⟩
      rw [List.forall₂_map_left_iff, List.forall₂_map_right_iff, List.forall₂_same]
      intro p hp i v hv
      rw [hsame q hq p hp]
      exact entry_latencySeries ht hp nowTs hv

theorem span_of_aligned {h : History} (hown : ∀ p ∈ listed h, p.1 ∉ inherited)
    (ht : Tracks h (lastSec h) (run h)) {nowTs : Int} (haligned : Aligned h nowTs) :
    ∀ p ∈ listed h, ∀ q ∈ listed h, span h p.2 = span h q.2 := by
  rw [Aligned, latencyData_eq ht hown (length_labels h)] at haligned
  obtain ⟨ts, series, hdata, hlen, -⟩ := haligned
  obtain ⟨-, rfl⟩ := Prod.mk.inj (Option.some.inj hdata)
  have hspan : ∀ p ∈ listed h, span h p.2 = ts.length := by
    intro p hp
    rw [← length_latencySeries ht hp nowTs]
    exact hlen _ (List.mem_map_of_mem hp)
  intro p hp q hq
  exact (hspan p hp).trans (hspan q hq).symm

theorem not_aligned_of_inherited {h : History}
    (hin : ∃ lbl ∈ (run h).latencyPairLabels, lbl ∈ inherited) (nowTs : Int) :
    ¬ Aligned h nowTs := by
  rintro ⟨ts, series, hdata, -⟩
  rw [latencyData, List.take_of_length_le (length_labels h)] at hdata
  dsimp only at hdata
  rw [if_pos hin] at hdata
  cases hdata

/-- The labels share one axis exactly if all are names that an object does not have already and
all have the same number of values: they came first in the same second, or all at least 60 seconds
ago, or none before the last completed second. -/
theorem aligned_iff {h : History} (hc : Clocked h) (nowTs : Int) :
    Aligned h nowTs ↔ (∀ p ∈ listed h, p.1 ∉ inherited) ∧
      ∀ p ∈ listed h, ∀ q ∈ listed h, span h p.2 = span h q.2 := by
  obtain ⟨⟨p, hp, hin⟩, hnamed⟩ | ⟨hown, ht⟩ := run_tracks hc
  · exact iff_of_false (not_aligned_of_inherited hnamed nowTs) fun hall => hall.1 p hp hin
  · constructor
    · intro haligned
      exact ⟨hown, span_of_aligned hown ht haligned⟩
    · rintro ⟨-, hsame⟩
      exact aligned_of_span hown ht nowTs hsame

def update (labels : List String) : UpdateMsg where
  latency := some (.pairs (labels.map fun lbl => { label := some lbl, meanUs := some 250 }))

theorem aligned_iff_together :
    let h : History := [(1, update ["Ping", "SDO"]), (3, update ["Ping", "SDO"])]
    Aligned h 3 ↔ (∀ p ∈ listed h, p.1 ∉ inherited) ∧
      ∀ p ∈ listed h, ∀ q ∈ listed h, span h p.2 = span h q.2 :=
  aligned_iff ⟨by decide +kernel, by decide +kernel⟩ 3

/-- A pair that is measured for the first time four seconds after another. -/
theorem late_pair_misaligned :
    ¬ ∀ h, Clocked h → ∀ nowTs : Int, lastSec h ≤ nowTs → Aligned h nowTs := by
  intro h
  obtain ⟨ts, series, hdata, hlen, -⟩ :=
    h [(1, update ["Ping"]), (5, update ["SDO"]), (7, {})] ⟨by simp, by simp⟩ 7 (by decide)
  have hran : latencyData (run [(1, update ["Ping"]), (5, update ["SDO"]), (7, {})]) 7 =
      some ([2, 3, 4, 5, 6, 7], [[some 250, none, none, none, none, none], [some 250, none]]) := by
    decide +kernel
  rw [hran] at hdata
  obtain ⟨rfl, rfl⟩ := Prod.mk.inj (Option.some.inj hdata)
  exact absurd (hlen [some 250, none] (by simp)) (by simp)

end CanSniffer.Graphs
