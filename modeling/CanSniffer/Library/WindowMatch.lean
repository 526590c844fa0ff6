import Mathlib.Tactic

namespace CanSniffer.Library.WindowMatch

variable {P M : Type} (pt : P → Int) (mt : M → Int) (width : Int)

/-- Pair two streams in order. An item of the second stream goes with the head of the
first when it lies at most `width` after it, goes alone when it lies before it, and
otherwise the head of the first stream is given up. -/
def merge : List P → List M → List (M × Option P)
  | [], ms => ms.map fun m => (m, none)
  | _ :: _, [] => []
  | p :: ps, m :: ms =>
    if mt m - pt p < 0 then (m, none) :: merge (p :: ps) ms
    else if mt m - pt p > width then merge ps (m :: ms)
    else (m, some p) :: merge ps ms
termination_by ps ms => ps.length + ms.length

@[simp] theorem merge_nil_left (ms : List M) :
    merge pt mt width [] ms = ms.map fun m => (m, none) := by
  rw [merge]

@[simp] theorem merge_nil_right (ps : List P) : merge pt mt width ps [] = [] := by
  cases ps <;> simp [merge]

variable {pt mt width}

theorem merge_early {p : P} {ps : List P} {m : M} {ms : List M} (h : mt m - pt p < 0) :
    merge pt mt width (p :: ps) (m :: ms) = (m, none) :: merge pt mt width (p :: ps) ms := by
  rw [merge, if_pos h]

theorem merge_late {p : P} {ps : List P} {m : M} {ms : List M} (h0 : ¬ mt m - pt p < 0)
    (h : mt m - pt p > width) :
    merge pt mt width (p :: ps) (m :: ms) = merge pt mt width ps (m :: ms) := by
  rw [merge, if_neg h0, if_pos h]

theorem merge_pair {p : P} {ps : List P} {m : M} {ms : List M} (h0 : ¬ mt m - pt p < 0)
    (h : ¬ mt m - pt p > width) :
    merge pt mt width (p :: ps) (m :: ms) = (m, some p) :: merge pt mt width ps ms := by
  rw [merge, if_neg h0, if_neg h]

/-- The head of the second stream may go first when nothing in the first stream is in
reach of it: what it would have given up, the items after it give up too. -/
theorem merge_flush (ps : List P) {m : M} {ms : List M}
    (hps : ∀ p ∈ ps, ¬ (0 ≤ mt m - pt p ∧ mt m - pt p ≤ width)) (hms : ∀ n ∈ ms, mt m ≤ mt n) :
    merge pt mt width ps (m :: ms) = (m, none) :: merge pt mt width ps ms := by
  induction ps with
  | nil => simp
  | cons p ps ih =>
    by_cases h0 : mt m - pt p < 0
    · exact merge_early h0
    · have hp := hps p List.mem_cons_self
      have h : mt m - pt p > width := by omega
      rw [merge_late h0 h, ih fun q hq => hps q (List.mem_cons_of_mem p hq)]
      cases ms with
      | nil => simp
      | cons n ms =>
        have hn := hms n List.mem_cons_self
        rw [merge_late (by omega) (by omega)]

theorem merge_map {Q : Type} (g : Q → P) (qs : List Q) (ms : List M) :
    merge pt mt width (qs.map g) ms =
      (merge (pt ∘ g) mt width qs ms).map fun r => (r.1, r.2.map g) := by
  induction qs, ms using merge.induct (pt ∘ g) mt width with
  | case1 ms => simp
  | case2 q qs => simp
  | case3 q qs m ms h ih =>
    have hg : mt m - pt (g q) < 0 := h
    rw [merge_early h, List.map_cons, merge_early hg, ← List.map_cons, ih]
    rfl
  | case4 q qs m ms h0 h ih =>
    have hg0 : ¬ mt m - pt (g q) < 0 := h0
    have hg : mt m - pt (g q) > width := h
    rw [merge_late h0 h, List.map_cons, merge_late hg0 hg, ih]
  | case5 q qs m ms h0 h ih =>
    have hg0 : ¬ mt m - pt (g q) < 0 := h0
    have hg : ¬ mt m - pt (g q) > width := h
    rw [merge_pair h0 h, List.map_cons, merge_pair hg0 hg, ih]
    rfl

variable {st : P → Int}

theorem first_of_cons {ps : List P} {n : M} {ms : List M} (hbefore : ∀ p ∈ ps, ¬ st p ≤ mt n)
    (hfirst : ∀ p ∈ ps, ∀ m ∈ (n :: ms).find? (st p ≤ mt ·), pt p ≤ mt m ∧ mt m ≤ st p + width) :
    ∀ p ∈ ps, ∀ m ∈ ms.find? (st p ≤ mt ·), pt p ≤ mt m ∧ mt m ≤ st p + width := by
  intro p hp
  have h := hfirst p hp
  rwa [List.find?_cons_of_neg (by simpa using hbefore p hp)] at h

theorem findIdx_of_cons {p : P} {n m : M} {ms : List M} {j : Nat} (hbefore : ¬ st p ≤ mt n)
    (hj : (n :: ms).findIdx? (st p ≤ mt ·) = some j) (hm : (n :: ms)[j]? = some m) :
    ∃ k, j = k + 1 ∧ ms.findIdx? (st p ≤ mt ·) = some k ∧ ms[k]? = some m := by
  rw [List.findIdx?_cons, if_neg (by simpa using hbefore)] at hj
  obtain ⟨k, hk, rfl⟩ := Option.map_eq_some_iff.mp hj
  exact ⟨k, rfl, hk, by simpa using hm⟩

/-- Let each item of the first stream stand for an instant `st p` and carry a time `pt p`
that is no earlier. If the first item of the second stream after each instant comes no
earlier than the carried time and at most `width` after the instant, and the instants are
further apart than that, each is paired with that item. -/
theorem merge_first (hwidth : 0 ≤ width) (ps : List P) (ms : List M)
    (hsep : ps.Pairwise fun p q => st p + width < st q) (hle : ∀ p ∈ ps, st p ≤ pt p)
    (hfirst : ∀ p ∈ ps, ∀ m ∈ ms.find? (st p ≤ mt ·), pt p ≤ mt m ∧ mt m ≤ st p + width)
    {p : P} (hp : p ∈ ps) {j : Nat} {m : M} (hj : ms.findIdx? (st p ≤ mt ·) = some j)
    (hm : ms[j]? = some m) : (merge pt mt width ps ms)[j]? = some (m, some p) := by
  induction ps, ms using merge.induct pt mt width generalizing j with
  | case1 ms => cases hp
  | case2 q qs => cases hj
  | case3 q qs n ms h ih =>
    have hbefore : ∀ r ∈ q :: qs, ¬ st r ≤ mt n := by
      intro r hr hrn
      have hqr : st q ≤ st r := by
        obtain rfl | hr' := List.mem_cons.mp hr
        · exact le_rfl
        · have := (List.pairwise_cons.mp hsep).1 r hr'
          omega
      have hq := hfirst q List.mem_cons_self n (by simp [hqr.trans hrn])
      omega
    obtain ⟨k, rfl, hk, hmk⟩ := findIdx_of_cons (hbefore p hp) hj hm
    rw [merge_early h, List.getElem?_cons_succ]
    exact ih hsep hle (first_of_cons hbefore hfirst) hp hk hmk
  | case4 q qs n ms h0 h ih =>
    have hq := hle q List.mem_cons_self
    have hn := hfirst q List.mem_cons_self n (by simp; omega)
    omega
  | case5 q qs n ms h0 h ih =>
    have hq := hle q List.mem_cons_self
    have hqn : st q ≤ mt n := by omega
    have hn := hfirst q List.mem_cons_self n (by simp [hqn])
    rw [merge_pair h0 h]
    obtain rfl | hp' := List.mem_cons.mp hp
    · rw [List.findIdx?_cons, if_pos (by simpa using hqn)] at hj
      cases hj
      cases hm
      rfl
    · obtain ⟨hq', hsep'⟩ := List.pairwise_cons.mp hsep
      have hbefore : ∀ r ∈ qs, ¬ st r ≤ mt n := by
        intro r hr hrn
        have := hq' r hr
        omega
      obtain ⟨k, rfl, hk, hmk⟩ := findIdx_of_cons (hbefore p hp') hj hm
      rw [List.getElem?_cons_succ]
      refine ih hsep' (fun r hr => hle r (List.mem_cons_of_mem q hr)) ?_ hp' hk hmk
      exact first_of_cons hbefore fun r hr => hfirst r (List.mem_cons_of_mem q hr)

variable (pt mt width)

/-- The item of the second stream is at the instant of the other item or at most `width` later. -/
def Reaches (p : P) (m : M) : Prop := 0 ≤ mt m - pt p ∧ mt m - pt p ≤ width

instance (p : P) (m : M) : Decidable (Reaches pt mt width p m) :=
  inferInstanceAs (Decidable (_ ∧ _))

/-- Consecutive items are further apart than the window is wide. -/
def Spaced (ps : List P) : Prop := ps.IsChain fun p q => pt p + width < pt q

variable {pt mt width}

theorem Spaced.pairwise {ps : List P} (h : Spaced pt width ps) (hwidth : 0 ≤ width) :
    ps.Pairwise fun p q => pt p + width < pt q := by
  have : IsTrans P fun p q => pt p + width < pt q := ⟨fun p q r hpq hqr => by omega⟩
  exact List.isChain_iff_pairwise.mp h

theorem Spaced.head_of_reaches {p q : P} {ps : List P} {m : M} (h : Spaced pt width (p :: ps))
    (hq : q ∈ p :: ps) (hp : mt m ≤ pt p + width) (hreach : Reaches pt mt width q m) : q = p := by
  have hpair := h.pairwise (by have := hreach.1; have := hreach.2; omega)
  obtain rfl | hmem := List.mem_cons.mp hq
  · rfl
  · have hlt := (List.pairwise_cons.mp hpair).1 q hmem
    have := hreach.1
    omega

theorem merge_fst (ps : List P) (ms : List M) : (merge pt mt width ps ms).map Prod.fst = ms := by
  induction ps, ms using merge.induct pt mt width with
  | case1 ms => simp [Function.comp_def]
  | case2 q qs => simp
  | case3 q qs n ms h ih => rw [merge_early h, List.map_cons, ih]
  | case4 q qs n ms h0 h ih => rw [merge_late h0 h, ih]
  | case5 q qs n ms h0 h ih => rw [merge_pair h0 h, List.map_cons, ih]

theorem findIdx_cons_iff {p : P} {n : M} {ms : List M} (h : ¬ Reaches pt mt width p n) (i : Nat) :
    (n :: ms).findIdx? (Reaches pt mt width p ·) = some (i + 1) ↔
      ms.findIdx? (Reaches pt mt width p ·) = some i := by
  simp [List.findIdx?_cons, h]

theorem findIdx_cons_ne_zero {p : P} {n : M} {ms : List M} (h : ¬ Reaches pt mt width p n) :
    (n :: ms).findIdx? (Reaches pt mt width p ·) ≠ some 0 := by
  simp [List.findIdx?_cons, h]

theorem findIdx_cons_of_reaches {p : P} {n : M} {ms : List M} (h : Reaches pt mt width p n) :
    (n :: ms).findIdx? (Reaches pt mt width p ·) = some 0 := by
  simp [List.findIdx?_cons, h]

theorem findIdx_of_late {p : P} {n : M} {ms : List M} (hlate : width < mt n - pt p)
    (hsorted : (n :: ms).Pairwise fun m n => mt m ≤ mt n) :
    (n :: ms).findIdx? (Reaches pt mt width p ·) = none := by
  rw [List.findIdx?_eq_none_iff]
  intro k hk
  have hle : mt n ≤ mt k := by
    obtain rfl | hk' := List.mem_cons.mp hk
    · exact le_rfl
    · exact (List.pairwise_cons.mp hsorted).1 k hk'
  rw [decide_eq_false_iff_not]
  rintro ⟨-, hreach⟩
  omega

/-- Each item of the second stream goes with the one item that it is the first in the window
of. -/
theorem merge_spaced (ps : List P) (ms : List M) (hspaced : Spaced pt width ps)
    (hsorted : ms.Pairwise fun m n => mt m ≤ mt n) {i : Nat} {m : M} (hm : ms[i]? = some m) :
    ∃ o, (merge pt mt width ps ms)[i]? = some (m, o) ∧ ∀ p, o = some p ↔
      p ∈ ps ∧ ms.findIdx? (Reaches pt mt width p ·) = some i := by
  induction ps, ms using merge.induct pt mt width generalizing i with
  | case1 ms => exact ⟨none, by simp [hm], by simp⟩
  | case2 q qs => cases hm
  | case3 q qs n ms h ih =>
    have hnone : ∀ p ∈ q :: qs, ¬ Reaches pt mt width p n := by
      intro p hp hreach
      have hq := hspaced.head_of_reaches hp (by have := hreach.1; have := hreach.2; omega) hreach
      subst hq
      have := hreach.1
      omega
    rw [merge_early h]
    cases i with
    | zero =>
      cases hm
      refine ⟨none, rfl, fun p => iff_of_false nofun ?_⟩
      rintro ⟨hp, hidx⟩
      exact findIdx_cons_ne_zero (hnone p hp) hidx
    | succ i =>
      obtain ⟨o, ho, hiff⟩ := ih hspaced (List.pairwise_cons.mp hsorted).2 hm
      refine ⟨o, ho, fun p => (hiff p).trans (and_congr_right fun hp => ?_)⟩
      exact (findIdx_cons_iff (hnone p hp) i).symm
  | case4 q qs n ms h0 h ih =>
    rw [merge_late h0 h]
    obtain ⟨o, ho, hiff⟩ := ih hspaced.tail hsorted hm
    refine ⟨o, ho, fun p => (hiff p).trans ⟨?_, ?_⟩⟩
    · rintro ⟨hp, hidx⟩
      exact ⟨List.mem_cons_of_mem q hp, hidx⟩
    · rintro ⟨hp, hidx⟩
      obtain rfl | hmem := List.mem_cons.mp hp
      · rw [findIdx_of_late (by omega) hsorted] at hidx
        cases hidx
      · exact ⟨hmem, hidx⟩
  | case5 q qs n ms h0 h ih =>
    have hq : Reaches pt mt width q n := ⟨by omega, by omega⟩
    rw [merge_pair h0 h]
    cases i with
    | zero =>
      cases hm
      refine ⟨some q, rfl, fun p => ⟨?_, ?_⟩⟩
      · rintro ⟨⟩
        exact ⟨List.mem_cons_self, findIdx_cons_of_reaches hq⟩
      · rintro ⟨hp, hidx⟩
        have hreach : Reaches pt mt width p m := by
          by_contra hno
          exact findIdx_cons_ne_zero hno hidx
        rw [hspaced.head_of_reaches hp (by omega) hreach]
    | succ i =>
      obtain ⟨o, ho, hiff⟩ := ih hspaced.tail (List.pairwise_cons.mp hsorted).2 hm
      have hother : ∀ p ∈ qs, ¬ Reaches pt mt width p n := by
        intro p hp hreach
        have hpair := (List.pairwise_cons.mp (hspaced.pairwise (by omega))).1 p hp
        have := hreach.1
        omega
      refine ⟨o, ho, fun p => (hiff p).trans ⟨?_, ?_⟩⟩
      · rintro ⟨hp, hidx⟩
        exact ⟨List.mem_cons_of_mem q hp, (findIdx_cons_iff (hother p hp) i).mpr hidx⟩
      · rintro ⟨hp, hidx⟩
        obtain rfl | hmem := List.mem_cons.mp hp
        · rw [findIdx_cons_of_reaches hq] at hidx
          cases hidx
        · exact ⟨hmem, (findIdx_cons_iff (hother p hmem) i).mp hidx⟩

end CanSniffer.Library.WindowMatch
