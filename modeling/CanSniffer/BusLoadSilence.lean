import CanSniffer.BusLoadRuns

namespace CanSniffer.BusLoadSilence

open Library Library.SlidingWindow Models BusLoadMonitor

/-- The frames that are at most a window old at `now`. -/
def trailing (windowS now : ℚ) (frames : List EnrichedFrame) : List (ℚ × Nat) :=
  (frames.map entry).filter fun e => cutoff windowS now ≤ e.1

/-- The frames that were at most a window old when the last one was recorded. -/
def held (windowS : ℚ) (frames : List EnrichedFrame) : List (ℚ × Nat) :=
  match frames.getLast? with
  | some last => trailing windowS last.kernelTs frames
  | none => []

/-- The load that the trailing window makes at `now`. -/
def loadAt (bitrate : Int) (windowS now : ℚ) (frames : List EnrichedFrame) : Option ℚ :=
  (quotient? { bitrate, windowS } (bitsOf (trailing windowS now frames))).map (min · 1)

/-- No frame has left the trailing window since the last one was recorded. -/
def NoneStale (windowS now : ℚ) (frames : List EnrichedFrame) : Prop :=
  ∀ e ∈ held windowS frames, cutoff windowS now ≤ e.1

instance (windowS now : ℚ) (frames : List EnrichedFrame) :
    Decidable (NoneStale windowS now frames) :=
  inferInstanceAs (Decidable (∀ e ∈ _, _))

/-- The rest of the bus saturates it, or the window holds so many bits that the stale ones are
lost in the rounding of the quotient. -/
def Drowned (bitrate : Int) (windowS now : ℚ) (frames : List EnrichedFrame) : Prop :=
  (loadAt bitrate windowS now frames = some 1 ∧
      (Binary64.ofInt? (bitsOf (held windowS frames))).isSome) ∨
    2 ^ 52 ≤ bitsOf (held windowS frames) ∧
      quotient? { bitrate, windowS } (bitsOf (held windowS frames)) =
        quotient? { bitrate, windowS } (bitsOf (trailing windowS now frames))

variable {bitrate : Int} {windowS now : ℚ} {frames : List EnrichedFrame}

theorem trailing_held (windowS : ℚ) (hnow : ∀ last ∈ frames.getLast?, last.kernelTs ≤ now) :
    (held windowS frames).filter (fun e => cutoff windowS now ≤ e.1) =
      trailing windowS now frames := by
  rw [held]
  split
  · rename_i last hlast
    apply filter_filter_of_imp
    intro e
    have hcut : cutoff windowS last.kernelTs ≤ cutoff windowS now :=
      Binary64.round_mono (by linarith [hnow last hlast])
    simpa using hcut.trans
  · rename_i hnone
    rw [trailing, List.getLast?_eq_none_iff.mp hnone]
    rfl

theorem held_subset : (held windowS frames).Sublist (frames.map entry) := by
  rw [held]
  split
  · exact List.filter_sublist
  · exact List.nil_sublist _

theorem window_eq_held (bitrate : Int) (windowS : ℚ)
    (hsorted : frames.Pairwise fun f g => f.kernelTs ≤ g.kernelTs) :
    (run bitrate windowS frames).window = held windowS frames := by
  rw [held]
  split
  · rename_i last hlast
    obtain ⟨before, rfl⟩ := List.getLast?_eq_some_iff.mp hlast
    exact run_window bitrate windowS before last hsorted
  · rename_i hnone
    rw [List.getLast?_eq_none_iff.mp hnone]
    rfl

theorem quotient_eq {c : ℚ} (hcap : capacity? bitrate windowS = some c) (hc : 0 < c) (bits : Int) :
    quotient? { bitrate, windowS } bits = (Binary64.ofInt? bits).map (Binary64.div · c) := by
  rw [quotient_of_capacity (m := { bitrate, windowS }) hcap]
  cases Binary64.ofInt? bits with
  | none => rfl
  | some bits => rw [Option.bind_some, Option.map_some, Binary64.div?, if_neg hc.ne']

theorem current_eq (hsorted : frames.Pairwise fun f g => f.kernelTs ≤ g.kernelTs) {c : ℚ}
    (hcap : capacity? bitrate windowS = some c) (hc : 0 < c) :
    (run bitrate windowS frames).current =
      (quotient? { bitrate, windowS } (bitsOf (held windowS frames))).map (min · 1) := by
  have hwindow := window_eq_held bitrate windowS hsorted
  have hsum : (run bitrate windowS frames).sumBits = bitsOf (held windowS frames) := by
    rw [← hwindow]
    exact run_accounted bitrate windowS frames
  have hquotient : ∀ bits, (run bitrate windowS frames).quotient? bits =
      quotient? { bitrate, windowS } bits := by
    intro bits
    obtain ⟨hrate, hwin⟩ := run_parameters bitrate windowS frames
    rw [quotient?, hrate, hwin]
    rfl
  rw [current, hwindow, hsum, hquotient]
  split_ifs with hempty
  · rw [hempty, quotient_eq hcap hc]
    simp [bitsOf, Binary64.ofInt?, Binary64.div, Binary64.round]
  · rfl

theorem bitsOf_filter_lt {entries : List (ℚ × Nat)} {p : ℚ × Nat → Bool}
    (hbits : ∀ e ∈ entries, 58 ≤ e.2) {e : ℚ × Nat} (he : e ∈ entries) (hp : ¬ p e) :
    bitsOf (entries.filter p) < bitsOf entries := by
  obtain ⟨before, after, rfl⟩ := List.append_of_mem he
  have hpos := hbits e he
  have hbefore := bitsOf_sublist (List.filter_sublist (p := p) (l := before))
  have hafter := bitsOf_sublist (List.filter_sublist (p := p) (l := after))
  have hsingle : bitsOf (e :: after) = e.2 + bitsOf after := by simp [bitsOf]
  rw [List.filter_append, List.filter_cons_of_neg (by simpa using hp), bitsOf_append, bitsOf_append,
    hsingle]
  omega

theorem div_lt_div {c : ℚ} (hc : 0 < c) (hfinite : c < 2 ^ 1024) {few many : Nat}
    (hlt : few < many) (hsize : 58 ≤ many) (hexact : many < 2 ^ 52) :
    Binary64.div few c < Binary64.div many c := by
  have hmany : (58 : ℚ) ≤ many := by exact_mod_cast hsize
  have hstep : (few : ℚ) + 1 ≤ many := by exact_mod_cast hlt
  have hsmall : (many : ℚ) < 2 ^ 52 := by exact_mod_cast hexact
  rw [Binary64.div, Binary64.div]
  apply Binary64.round_lt
  · exact div_nonneg (Nat.cast_nonneg _) hc.le
  · have hlow : (2 : ℚ) ^ (-1022 : ℤ) ≤ 58 / 2 ^ 1024 := by
      have hfour : (2 : ℚ) ^ (2 : ℤ) = 4 := by norm_num
      rw [show (-1022 : ℤ) = 2 - (1024 : ℕ) by norm_num, zpow_sub₀ two_ne_zero, zpow_natCast, hfour]
      exact div_le_div_of_nonneg_right (by norm_num) (pow_nonneg two_pos.le _)
    calc (2 : ℚ) ^ (-1022 : ℤ) ≤ 58 / 2 ^ 1024 := hlow
      _ ≤ 58 / c := div_le_div_of_nonneg_left (by norm_num) hc hfinite.le
      _ ≤ many / c := div_le_div_of_nonneg_right hmany hc.le
  · have hnum : (few : ℚ) + many / 2 ^ 52 < many := by
      have : (many : ℚ) / 2 ^ 52 < 1 := (div_lt_one (by positivity)).mpr hsmall
      linarith
    calc (few : ℚ) / c + many / c / 2 ^ 52 = (few + many / 2 ^ 52) / c := by ring
      _ < many / c := div_lt_div_of_pos_right hnum hc

theorem ofInt_of_lt {bits : Nat} (h : bits < 2 ^ 52) :
    Binary64.ofInt? (bits : Int) = some (bits : ℚ) := by
  have hround : Binary64.round ((bits : Int) : ℚ) = bits := by
    rw [Int.cast_natCast]
    exact Binary64.round_natCast (h.trans (by norm_num))
  have hle := Binary64.round_natCast_le h.le
  rw [hround] at hle
  have hfinite : (bits : ℚ) < 2 ^ (1024 : ℤ) :=
    hle.trans_lt (zpow_lt_zpow_right₀ (by norm_num) (by norm_num))
  rw [Binary64.ofInt?, hround, if_pos]
  rw [abs_of_nonneg (Nat.cast_nonneg _)]
  exact hfinite

theorem min_one_cases {x y : Option ℚ} (h : x.map (min · 1) = y.map (min · 1)) :
    y.map (min · 1) = some 1 ∨ x = y := by
  cases x with
  | none =>
    cases y with
    | none => exact Or.inr rfl
    | some y => cases h
  | some x =>
    cases y with
    | none => cases h
    | some y =>
      simp only [Option.map_some, Option.some.injEq] at h ⊢
      obtain hy | hy := le_or_gt 1 y
      · exact Or.inl (min_eq_right hy)
      · right
        rw [min_eq_left hy.le] at h
        obtain hx | hx := le_or_gt 1 x
        · rw [min_eq_right hx] at h
          exact absurd h.symm hy.ne
        · rwa [min_eq_left hx.le] at h

theorem full_of_full {c : ℚ} (hcap : capacity? bitrate windowS = some c) (hc : 0 < c)
    {few many : Nat} (hle : few ≤ many) (hsome : (Binary64.ofInt? many).isSome)
    (hfull : (quotient? { bitrate, windowS } few).map (min · 1) = some 1) :
    (quotient? { bitrate, windowS } many).map (min · 1) = some 1 := by
  obtain ⟨x, hx⟩ := Option.isSome_iff_exists.mp hsome
  rw [quotient_eq hcap hc] at hfull ⊢
  obtain ⟨y, hy, hmin⟩ := Option.map_eq_some_iff.mp hfull
  obtain ⟨z, hz, rfl⟩ := Option.map_eq_some_iff.mp hy
  have hxz : z ≤ x := by
    rw [Binary64.ofInt?] at hx hz
    split_ifs at hx hz
    cases hx
    cases hz
    exact Binary64.round_mono (by exact_mod_cast hle)
  have hdiv : Binary64.div z c ≤ Binary64.div x c :=
    Binary64.round_mono (div_le_div_of_nonneg_right hxz hc.le)
  rw [hx, Option.map_some, Option.map_some, min_eq_right ((min_eq_right_iff.mp hmin).trans hdiv)]

/-- Frames that have left the window are missed, unless the rest of the bus drowns them. -/
theorem drowned_of_stale {c : ℚ} (hcap : capacity? bitrate windowS = some c) (hc : 0 < c)
    (hfinite : c < 2 ^ 1024) (hnow : ∀ last ∈ frames.getLast?, last.kernelTs ≤ now)
    (hstale : ¬ NoneStale windowS now frames)
    (h : (quotient? { bitrate, windowS } (bitsOf (held windowS frames))).map (min · 1) =
      loadAt bitrate windowS now frames) : Drowned bitrate windowS now frames := by
  rw [NoneStale] at hstale
  push Not at hstale
  obtain ⟨e, he, hold⟩ := hstale
  have hbits : ∀ e ∈ held windowS frames, 58 ≤ e.2 :=
    fun e he => entry_bits_ge e (held_subset.subset he)
  have hfewer : bitsOf (trailing windowS now frames) < bitsOf (held windowS frames) := by
    rw [← trailing_held windowS hnow]
    exact bitsOf_filter_lt hbits he (by simpa using hold)
  rw [loadAt] at h
  obtain hsmall | hlarge := Nat.lt_or_ge (bitsOf (held windowS frames)) (2 ^ 52)
  · refine Or.inl ⟨(min_one_cases h).resolve_right fun heq => ?_, by rw [ofInt_of_lt hsmall]; rfl⟩
    rw [quotient_eq hcap hc, quotient_eq hcap hc, ofInt_of_lt hsmall,
      ofInt_of_lt (hfewer.trans hsmall), Option.map_some, Option.map_some] at heq
    have hlt := div_lt_div hc hfinite hfewer ((hbits e he).trans (bits_le_bitsOf he)) hsmall
    exact hlt.ne (Option.some.inj heq).symm
  · obtain hfull | heq := min_one_cases h
    · rw [hfull, quotient_eq hcap hc, Option.map_map] at h
      have hsome := congrArg Option.isSome h
      rw [Option.isSome_map] at hsome
      exact Or.inl ⟨hfull, hsome⟩
    · exact Or.inr ⟨hlarge, heq⟩

/-- The load that is read at `now` is that of the trailing window exactly when no frame has left
the window since the last one was recorded, or those that have do not count. -/
theorem load_read_iff (bitrate : Int) (windowS now : ℚ) (frames : List EnrichedFrame)
    (hbitrate : 1 ≤ bitrate) (hwindow : 0 < windowS) (hdouble : Binary64.round windowS = windowS)
    (hcap : (capacity? bitrate windowS).isSome)
    (hsorted : frames.Pairwise fun f g => f.kernelTs ≤ g.kernelTs)
    (hnow : ∀ last ∈ frames.getLast?, last.kernelTs ≤ now) :
    (run bitrate windowS frames).current = loadAt bitrate windowS now frames ↔
      NoneStale windowS now frames ∨ Drowned bitrate windowS now frames := by
  obtain ⟨c, hcap⟩ := Option.isSome_iff_exists.mp hcap
  obtain ⟨hc, hfinite⟩ := capacity_pos hbitrate hwindow hdouble hcap
  have htrailing := trailing_held windowS hnow
  rw [current_eq hsorted hcap hc]
  constructor
  · intro h
    by_cases hstale : NoneStale windowS now frames
    · exact Or.inl hstale
    · exact Or.inr (drowned_of_stale hcap hc hfinite hnow hstale h)
  · rw [loadAt]
    rintro (hfresh | ⟨hfull, hsome⟩ | ⟨-, heq⟩)
    · have hall : trailing windowS now frames = held windowS frames := by
        rw [← htrailing]
        exact List.filter_eq_self.mpr fun e he => by simpa using hfresh e he
      rw [hall]
    · rw [loadAt] at hfull
      rw [hfull]
      have hle : bitsOf (trailing windowS now frames) ≤ bitsOf (held windowS frames) := by
        rw [← htrailing]
        exact bitsOf_sublist List.filter_sublist
      exact full_of_full hcap hc hle hsome hfull
    · rw [heq]

def fadingFrames : List EnrichedFrame := [exampleFrame 8 1, exampleFrame 8 (3 / 2)]

theorem load_read_fadingFrames :
    (run 1000000 1 fadingFrames).current = loadAt 1000000 1 (9 / 4) fadingFrames ↔
      NoneStale 1 (9 / 4) fadingFrames ∨ Drowned 1000000 1 (9 / 4) fadingFrames :=
  load_read_iff 1000000 1 (9 / 4) fadingFrames (by decide) (by decide) (by decide +kernel)
    (by decide +kernel) (by decide +kernel) (by decide +kernel)

/-- A minute after the last frame the bus still has its load. -/
theorem silent_bus_keeps_load : ¬ ∀ (bitrate : Int) (windowS now : ℚ) (frames : List EnrichedFrame),
    1 ≤ bitrate → 0 < windowS → Binary64.round windowS = windowS →
    (capacity? bitrate windowS).isSome →
    frames.Pairwise (fun f g => f.kernelTs ≤ g.kernelTs) →
    (∀ last ∈ frames.getLast?, last.kernelTs ≤ now) →
      (run bitrate windowS frames).current = loadAt bitrate windowS now frames := by
  intro h
  have hload := h 1000000 1 60 fadingFrames (by decide) (by decide) (by decide +kernel)
    (by decide +kernel) (by decide +kernel) (by decide +kernel)
  revert hload
  decide +kernel

end CanSniffer.BusLoadSilence
