import CanSniffer.BusLoadMonitor

namespace CanSniffer.BusLoadMonitor

open Library Library.WhileLoop Library.SlidingWindow Models

variable {m : BusLoadMonitor}

/-- The oldest time that a frame at `ts` leaves in the window. -/
def cutoff (windowS ts : ℚ) : ℚ := Binary64.sub ts windowS

theorem record_eq (m : BusLoadMonitor) (frame : EnrichedFrame) :
    let window := m.window ++ [entry frame]
    let old := fun e : ℚ × Nat => decide (e.1 < cutoff m.windowS frame.kernelTs)
    m.record frame =
      { m with
        window := window.dropWhile old
        sumBits := m.sumBits + (entry frame).2 - bitsOf (window.takeWhile old) } := by
  intro window old
  exact loop_evict (m := { m with window, sumBits := m.sumBits + (entry frame).2 })
    (cutoff m.windowS frame.kernelTs) _ le_rfl

theorem run_concat (bitrate : Int) (windowS : ℚ) (frames : List EnrichedFrame)
    (frame : EnrichedFrame) :
    run bitrate windowS (frames ++ [frame]) = (run bitrate windowS frames).record frame := by
  rw [run, List.foldl_append]
  rfl

theorem run_parameters (bitrate : Int) (windowS : ℚ) (frames : List EnrichedFrame) :
    (run bitrate windowS frames).bitrate = bitrate ∧
      (run bitrate windowS frames).windowS = windowS := by
  induction frames using List.reverseRecOn with
  | nil => exact ⟨rfl, rfl⟩
  | append_singleton frames frame ih =>
    rw [run_concat, record_eq]
    exact ih

theorem bitsOf_split (entries : List (ℚ × Nat)) (old : ℚ × Nat → Bool) :
    bitsOf (entries.takeWhile old) + bitsOf (entries.dropWhile old) = bitsOf entries :=
  sum_takeWhile_add_dropWhile Prod.snd old entries

def Accounted (m : BusLoadMonitor) : Prop := m.sumBits = bitsOf m.window

theorem record_accounted (h : Accounted m) (frame : EnrichedFrame) :
    Accounted (m.record frame) := by
  have hsplit := bitsOf_split (m.window ++ [entry frame]) fun e =>
    decide (e.1 < cutoff m.windowS frame.kernelTs)
  have hnew : bitsOf [entry frame] = (entry frame).2 := by simp [bitsOf]
  rw [bitsOf_append, hnew] at hsplit
  rw [Accounted] at h ⊢
  rw [record_eq]
  dsimp only
  rw [h]
  omega

theorem run_accounted (bitrate : Int) (windowS : ℚ) (frames : List EnrichedFrame) :
    Accounted (run bitrate windowS frames) := by
  induction frames using List.reverseRecOn with
  | nil => rfl
  | append_singleton frames frame ih =>
    rw [run_concat]
    exact record_accounted ih frame

/-- The load summed up again from the window. -/
def recomputed (m : BusLoadMonitor) : Option ℚ :=
  if m.window = [] then some 0 else (m.quotient? (bitsOf m.window)).map (min · 1)

theorem run_window (bitrate : Int) (windowS : ℚ) (frames : List EnrichedFrame)
    (frame : EnrichedFrame)
    (hsorted : (frames ++ [frame]).Pairwise fun f g => f.kernelTs ≤ g.kernelTs) :
    (run bitrate windowS (frames ++ [frame])).window =
      ((frames ++ [frame]).map entry).filter fun e => cutoff windowS frame.kernelTs ≤ e.1 := by
  induction frames using List.reverseRecOn generalizing frame with
  | nil =>
    rw [run_concat, record_eq]
    exact dropWhile_eq_filter Prod.fst _ (List.pairwise_singleton _ _)
  | append_singleton frames last ih =>
    obtain ⟨hbefore, -, hlater⟩ := List.pairwise_append.mp hsorted
    have hle : last.kernelTs ≤ frame.kernelTs := hlater last (by simp) frame (by simp)
    have hcut : cutoff windowS last.kernelTs ≤ cutoff windowS frame.kernelTs :=
      Binary64.round_mono (by linarith)
    have hentries :
        ((frames ++ [last]).map entry ++ [entry frame]).Pairwise fun e f => e.1 ≤ f.1 := by
      rw [← List.map_singleton, ← List.map_append, List.pairwise_map]
      exact hsorted
    have hkept : ((run bitrate windowS (frames ++ [last])).window ++ [entry frame]).Sublist
        ((frames ++ [last]).map entry ++ [entry frame]) := by
      rw [ih last hbefore]
      exact List.filter_sublist.append_right _
    have hmap : (frames ++ [last] ++ [frame]).map entry =
        (frames ++ [last]).map entry ++ [entry frame] := List.map_append
    rw [run_concat, record_eq]
    dsimp only
    rw [(run_parameters bitrate windowS (frames ++ [last])).2,
      dropWhile_eq_filter Prod.fst _ (hentries.sublist hkept), ih last hbefore,
      List.filter_append, filter_filter_of_imp, hmap, List.filter_append]
    intro e he
    simp only [decide_eq_true_eq] at he ⊢
    exact hcut.trans he

def capacity? (bitrate : Int) (windowS : ℚ) : Option ℚ := do
  let rate ← Binary64.ofInt? bitrate
  let capacity := Binary64.mul rate windowS
  if 2 ^ 1024 ≤ |capacity| then none else some capacity

theorem quotient_of_capacity {c : ℚ} (h : capacity? m.bitrate m.windowS = some c) (bits : Int) :
    m.quotient? bits = (Binary64.ofInt? bits).bind (Binary64.div? · c) := by
  obtain ⟨rate, hrate, h⟩ := Option.bind_eq_some_iff.mp h
  dsimp only at h
  split_ifs at h with hfinite
  cases h
  rw [quotient?, hrate]
  simp [hfinite]

theorem capacity_pos {bitrate : Int} {windowS c : ℚ} (hbitrate : 1 ≤ bitrate)
    (hwindow : 0 < windowS)
    (hdouble : Binary64.round windowS = windowS) (h : capacity? bitrate windowS = some c) :
    0 < c ∧ c < 2 ^ 1024 := by
  obtain ⟨rate, hrate, h⟩ := Option.bind_eq_some_iff.mp h
  dsimp only at h
  split_ifs at h with hfinite
  cases h
  rw [Binary64.ofInt?] at hrate
  split_ifs at hrate
  cases hrate
  have hone : (1 : ℚ) ≤ Binary64.round bitrate := by
    have h1 := Binary64.round_natCast (n := 1) (by norm_num)
    rw [Nat.cast_one] at h1
    rw [← h1]
    exact Binary64.round_mono (by exact_mod_cast hbitrate)
  have hle : windowS ≤ Binary64.mul (Binary64.round bitrate) windowS := by
    conv_lhs => rw [← hdouble]
    exact Binary64.round_mono (le_mul_of_one_le_left hwindow.le hone)
  exact ⟨hwindow.trans_le hle, (le_abs_self _).trans_lt (not_le.mp hfinite)⟩

theorem div_pos_of_capacity {c : ℚ} (hc : 0 < c) (hfinite : c < 2 ^ 1024) {bits : ℚ}
    (h : 1 ≤ bits) :
    0 < Binary64.div bits c := by
  apply Binary64.round_pos
  have hlow : (2 : ℚ) ^ (-1074 : ℤ) ≤ 1 / 2 ^ 1024 := by
    rw [one_div, ← zpow_natCast, ← zpow_neg]
    exact zpow_le_zpow_right₀ (by norm_num) (by norm_num)
  calc (2 : ℚ) ^ (-1074 : ℤ) ≤ 1 / 2 ^ 1024 := hlow
    _ ≤ 1 / c := one_div_le_one_div_of_le hc hfinite.le
    _ ≤ bits / c := div_le_div_of_nonneg_right h hc.le

theorem bits_le_bitsOf {entries : List (ℚ × Nat)} {e : ℚ × Nat} (h : e ∈ entries) :
    e.2 ≤ bitsOf entries := List.single_le_sum (fun _ _ => Nat.zero_le _) _ (List.mem_map_of_mem h)

theorem record_keeps (frame : EnrichedFrame) (hwindow : 0 ≤ m.windowS)
    (hts : Binary64.round frame.kernelTs = frame.kernelTs) :
    (m.record frame).window ≠ [] := by
  have hcut : cutoff m.windowS frame.kernelTs ≤ frame.kernelTs := by
    conv_rhs => rw [← hts]
    exact Binary64.round_mono (by linarith)
  rw [record_eq]
  apply dropWhile_ne_nil (x := entry frame) (by simp)
  exact fun hold => absurd (of_decide_eq_true hold) (not_lt.mpr hcut)

theorem run_subset (bitrate : Int) (windowS : ℚ) (frames : List EnrichedFrame) :
    (run bitrate windowS frames).window.Sublist (frames.map entry) := by
  induction frames using List.reverseRecOn with
  | nil => exact .slnil
  | append_singleton frames frame ih =>
    rw [run_concat, record_eq, List.map_append]
    exact (List.dropWhile_sublist _).trans (ih.append_right _)

theorem bitsOf_sublist {entries more : List (ℚ × Nat)} (h : entries.Sublist more) :
    bitsOf entries ≤ bitsOf more := (h.map Prod.snd).sum_le_sum fun _ _ => Nat.zero_le _

theorem frameBitLength_ge (dlc : Nat) : 58 ≤ frameBitLength dlc := by
  rw [frameBitLength]
  omega

theorem one_le_round_bits {entries : List (ℚ × Nat)} (hne : entries ≠ [])
    (hbits : ∀ e ∈ entries, 58 ≤ e.2) : 1 ≤ Binary64.round (bitsOf entries : Int) := by
  obtain ⟨e, rest, rfl⟩ := List.exists_cons_of_ne_nil hne
  have hle : 1 ≤ bitsOf (e :: rest) :=
    (le_trans (by norm_num) (hbits e List.mem_cons_self)).trans (bits_le_bitsOf List.mem_cons_self)
  have hone := Binary64.round_natCast (n := 1) (by norm_num)
  rw [Nat.cast_one] at hone
  rw [← hone]
  exact Binary64.round_mono (by exact_mod_cast hle)

theorem entry_bits_ge {frames : List EnrichedFrame} : ∀ e ∈ frames.map entry, 58 ≤ e.2 := by
  intro e he
  obtain ⟨frame, -, rfl⟩ := List.mem_map.mp he
  exact frameBitLength_ge frame.dlc

/-- Every load that is read lies in `(0, 1]`, and one is read as long as the bits are so few that
they are a double. -/
theorem current_bounds {c : ℚ} (hne : m.window ≠ []) (haccounted : Accounted m)
    (hbits : ∀ e ∈ m.window, 58 ≤ e.2) (hcap : capacity? m.bitrate m.windowS = some c) (hc : 0 < c)
    (hfinite : c < 2 ^ 1024) :
    (∀ x ∈ m.current, 0 < x ∧ x ≤ 1) ∧ (bitsOf m.window < 2 ^ 1023 → m.current.isSome) := by
  have hone := one_le_round_bits hne hbits
  rw [current, if_neg hne, quotient_of_capacity hcap, haccounted, Binary64.ofInt?]
  constructor
  · intro x hx
    split_ifs at hx
    · rw [Option.bind_some, Binary64.div?, if_neg hc.ne'] at hx
      cases hx
      exact ⟨lt_min (div_pos_of_capacity hc hfinite hone) one_pos, min_le_right _ _⟩
    · cases hx
  · intro hfew
    have hround : Binary64.round (bitsOf m.window : Int) < 2 ^ 1024 := by
      calc Binary64.round (bitsOf m.window : Int) ≤ 2 ^ ((1023 : ℕ) : ℤ) :=
            Binary64.round_natCast_le hfew.le
        _ < 2 ^ (1024 : ℤ) := zpow_lt_zpow_right₀ (by norm_num) (by norm_num)
    rw [if_pos (by rwa [abs_of_pos (by linarith)]), Option.bind_some, Binary64.div?, if_neg hc.ne']
    rfl

/-- The running sum is the plain sum after every call, so the load read is the load recomputed;
the loads of a positive finite capacity lie in `(0, 1]`; and after sorted frames the window holds
those that are not older than the window is long. -/
theorem running_sum_agrees (bitrate : Int) (windowS : ℚ) (frames : List EnrichedFrame)
    (hwindow : 0 < windowS) (hdouble : Binary64.round windowS = windowS)
    (hts : ∀ frame ∈ frames, Binary64.round frame.kernelTs = frame.kernelTs) :
    let m := run bitrate windowS frames
    m.sumBits = bitsOf m.window ∧ m.current = m.recomputed ∧
    (1 ≤ bitrate → frames ≠ [] → ∀ c ∈ capacity? bitrate windowS, (∀ x ∈ m.current, 0 < x ∧ x ≤ 1) ∧
      (bitsOf (frames.map entry) < 2 ^ 1023 → m.current.isSome)) ∧
    (frames.Pairwise (fun f g => f.kernelTs ≤ g.kernelTs) → ∀ last ∈ frames.getLast?,
      m.window = (frames.map entry).filter fun e => cutoff windowS last.kernelTs ≤ e.1) := by
  intro m
  have haccounted : Accounted m := run_accounted bitrate windowS frames
  obtain ⟨hrate, hwin⟩ := run_parameters bitrate windowS frames
  refine ⟨haccounted, ?_, ?_, ?_⟩
  · rw [current, recomputed, haccounted]
  · intro hbitrate hne c hcap
    obtain ⟨hc, hfinite⟩ := capacity_pos hbitrate hwindow hdouble hcap
    have hnonempty : m.window ≠ [] := by
      obtain ⟨before, last, hsplit⟩ := (List.eq_nil_or_concat frames).resolve_left hne
      rw [List.concat_eq_append] at hsplit
      subst hsplit
      dsimp only [m]
      rw [run_concat]
      apply record_keeps last
      · rw [(run_parameters bitrate windowS before).2]
        exact hwindow.le
      · exact hts last (by simp)
    have hsub := run_subset bitrate windowS frames
    have hbounds := current_bounds hnonempty haccounted
      (fun e he => entry_bits_ge e (hsub.subset he)) (by rw [hrate, hwin]; exact hcap) hc hfinite
    exact ⟨hbounds.1, fun hfew => hbounds.2 ((bitsOf_sublist hsub).trans_lt hfew)⟩
  · intro hsorted last hlast
    obtain ⟨before, hsplit⟩ := List.getLast?_eq_some_iff.mp hlast
    subst hsplit
    exact run_window bitrate windowS before last hsorted

def exampleFrame (dlc : Nat) (kernelTs : ℚ) : EnrichedFrame :=
  { arbId := 0x100, dlc, data := List.replicate dlc 0, isExtended := false, pruTsNs := none,
    kernelTs }

/-- Two old frames, and one that is recorded so late that both are evicted. -/
def burstFrames : List EnrichedFrame := [exampleFrame 8 1, exampleFrame 8 (3 / 2), exampleFrame 0 3]

theorem running_sum_burstFrames :
    let m := run 500000 1 burstFrames
    m.sumBits = bitsOf m.window ∧ m.current = m.recomputed ∧
    ((1 : Int) ≤ 500000 → burstFrames ≠ [] → ∀ c ∈ capacity? 500000 1,
      (∀ x ∈ m.current, 0 < x ∧ x ≤ 1) ∧
      (bitsOf (burstFrames.map entry) < 2 ^ 1023 → m.current.isSome)) ∧
    (burstFrames.Pairwise (fun f g => f.kernelTs ≤ g.kernelTs) → ∀ last ∈ burstFrames.getLast?,
      m.window = (burstFrames.map entry).filter fun e => cutoff 1 last.kernelTs ≤ e.1) :=
  running_sum_agrees 500000 1 burstFrames (by decide) (by decide +kernel) (by decide +kernel)

example : (run 500000 1 burstFrames).window = [(3, 58)] := by decide +kernel

/-- A bit rate beyond the doubles raises an OverflowError when the load is read. -/
theorem bitrate_overflow : ¬ ∀ (bitrate : Int) (windowS : ℚ) (frames : List EnrichedFrame),
    1 ≤ bitrate → 0 < windowS → Binary64.round windowS = windowS →
    (∀ frame ∈ frames, Binary64.round frame.kernelTs = frame.kernelTs) → frames ≠ [] →
      ∃ x, (run bitrate windowS frames).current = some x ∧ 0 < x ∧ x ≤ 1 := by
  intro h
  obtain ⟨x, hx, -⟩ := h (10 ^ 309) 1 [exampleFrame 8 1] (by decide +kernel) (by decide)
    (by decide +kernel) (by decide +kernel) (by simp)
  have hnone : (run (10 ^ 309) 1 [exampleFrame 8 1]).current = none := by decide +kernel
  rw [hnone] at hx
  cases hx

end CanSniffer.BusLoadMonitor
