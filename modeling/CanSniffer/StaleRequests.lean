import CanSniffer.LatencyFrames
import CanSniffer.LatencyExchange

namespace CanSniffer.StaleRequests

open Library Library.PyJson Library.Exchange Models LatencyMonitor LatencyFrames

variable {format : String → Nat → Option String} {pairs : List Pair} {key : DictKey}
  {frames : List EnrichedFrame} {f : EnrichedFrame}

/-- The frame numbered `i` leaves a request under the key that is neither answered, repeated nor
purged by the frames after it. -/
structure Waiting (format : String → Nat → Option String) (pairs : List Pair) (key : DictKey)
    (frames : List EnrichedFrame) (i : Nat) (r : EnrichedFrame) : Prop where
  request_at : frames[i]? = some r
  asks : (uses key (reactions format pairs r.arbId)).getLast? = some (.request key)
  idle : ∀ t g, i < t → frames[t]? = some g → uses key (reactions format pairs g.arbId) = []
  kept : ∀ t g, i ≤ t → frames[t]? = some g → keeps format pairs r g

/-- The frame numbered `j` answers a request that is waiting. -/
structure Exchanged (format : String → Nat → Option String) (pairs : List Pair) (key : DictKey)
    (frames : List EnrichedFrame) (i : Nat) (r : EnrichedFrame) (j : Nat) (s : EnrichedFrame) :
    Prop where
  waiting : Waiting format pairs key (frames.take j) i r
  response_at : frames[j]? = some s
  answers : (uses key (reactions format pairs s.arbId)).head? = some (.response key)

def lastKind (format : String → Nat → Option String) (pairs : List Pair) (key : DictKey)
    (f : EnrichedFrame) : Kind :=
  match (uses key (reactions format pairs f.arbId)).getLast? with
  | some r => if r = .request key then .request else .reply
  | none => .other

theorem lastKind_request_iff :
    lastKind format pairs key f = .request ↔
      (uses key (reactions format pairs f.arbId)).getLast? = some (.request key) := by
  rw [lastKind]
  cases (uses key (reactions format pairs f.arbId)).getLast? with
  | none => simp
  | some r =>
    dsimp only
    split_ifs with hreq <;> simp [hreq]

theorem lastKind_other_iff :
    lastKind format pairs key f = .other ↔ uses key (reactions format pairs f.arbId) = [] := by
  rw [lastKind, ← List.getLast?_eq_none_iff]
  cases (uses key (reactions format pairs f.arbId)).getLast? with
  | none => simp
  | some r =>
    dsimp only
    split_ifs <;> simp

theorem waiting_iff {i : Nat} {r : EnrichedFrame} :
    Waiting format pairs key frames i r ↔
      Exchange.Waiting (lastKind format pairs key) (keeps format pairs) frames i r := by
  constructor
  · intro h
    exact ⟨h.request_at, lastKind_request_iff.mpr h.asks,
      fun t g ht hg => lastKind_other_iff.mpr (h.idle t g ht hg), h.kept⟩
  · intro h
    exact ⟨h.at_pos, lastKind_request_iff.mp h.is_request,
      fun t g ht hg => lastKind_other_iff.mp (h.quiet t g ht hg), h.kept⟩

theorem exchanged_snoc_iff {i j : Nat} {r s : EnrichedFrame} :
    Exchanged format pairs key (frames ++ [f]) i r j s ↔
      Exchanged format pairs key frames i r j s ∨
        (Waiting format pairs key frames i r ∧ j = frames.length ∧ s = f ∧
          (uses key (reactions format pairs f.arbId)).head? = some (.response key)) := by
  constructor
  · rintro ⟨hwait, hresp, hans⟩
    obtain hold | ⟨rfl, rfl⟩ := getElem?_snoc.mp hresp
    · have hlt := (List.getElem?_eq_some_iff.mp hold).1
      rw [List.take_append_of_le_length hlt.le] at hwait
      exact .inl ⟨hwait, hold, hans⟩
    · rw [List.take_left] at hwait
      exact .inr ⟨hwait, rfl, rfl, hans⟩
  · rintro (h | ⟨hwait, rfl, rfl, hans⟩)
    · have hlt := (List.getElem?_eq_some_iff.mp h.response_at).1
      refine ⟨?_, getElem?_snoc.mpr (.inl h.response_at), h.answers⟩
      rw [List.take_append_of_le_length hlt.le]
      exact h.waiting
    · refine ⟨?_, getElem?_snoc.mpr (.inr ⟨rfl, rfl⟩), hans⟩
      rw [List.take_left]
      exact hwait

theorem pendingAfter_map {x : Exchange.State EnrichedFrame} :
    pendingAfter key f.kernelTs (x.pending.map fun r => r.2.kernelTs)
        (reactions format pairs f.arbId) =
      Option.map (fun r => r.2.kernelTs) (match lastKind format pairs key f with
        | .request => some (x.seen, f)
        | .reply => none
        | .other => x.pending) := by
  rw [pendingAfter, lastKind]
  cases (uses key (reactions format pairs f.arbId)).getLast? with
  | none => rfl
  | some r =>
    dsimp only
    split_ifs <;> rfl

theorem pending_run {m : LatencyMonitor} (hpending : m.pending key = none)
    (frames : List EnrichedFrame) :
    (m.run format frames).pending key =
      (Exchange.run (lastKind format m.pairs key) (keeps format m.pairs) frames).pending.map
        fun r => r.2.kernelTs := by
  induction frames using List.reverseRecOn with
  | nil => exact hpending
  | append_singleton frames f ih =>
    rw [run_concat, pending_ingest_fst, pending_reactAll, run_pairs, ih, pendingAfter_map,
      Option.filter_map, Exchange.run_snoc, Exchange.step]
    rfl

theorem pending_run_iff {m : LatencyMonitor} (hpending : m.pending key = none)
    (frames : List EnrichedFrame) (v : ℚ) :
    (m.run format frames).pending key = some v ↔
      ∃ i r, Waiting format m.pairs key frames i r ∧ r.kernelTs = v := by
  rw [pending_run hpending, Option.map_eq_some_iff]
  constructor
  · rintro ⟨⟨i, r⟩, hpend, rfl⟩
    exact ⟨i, r, waiting_iff.mpr ((Exchange.pending_run_iff frames i r).mp hpend), rfl⟩
  · rintro ⟨i, r, hwait, rfl⟩
    exact ⟨(i, r), (Exchange.pending_run_iff frames i r).mpr (waiting_iff.mp hwait), rfl⟩

theorem forall_latency_iff {P : ℚ → Prop} (hown : ∀ ts, P (latencyUs ts ts)) {m : LatencyMonitor}
    (hpending : m.pending key = none) (frames : List EnrichedFrame) :
    (∀ v ∈ ((LatencyRecord.run format m frames).samplesOf key).map Sample.latency, P v) ↔
      ∀ i r j s, Exchanged format m.pairs key frames i r j s →
        P (latencyUs s.kernelTs r.kernelTs) := by
  induction frames using List.reverseRecOn with
  | nil =>
    refine iff_of_true (fun v hv => by cases hv) fun i r j s h => ?_
    cases h.response_at
  | append_singleton frames f ih =>
    have hsamples : (((LatencyRecord.run format m (frames ++ [f])).samplesOf key).map
        Sample.latency) =
          ((LatencyRecord.run format m frames).samplesOf key).map Sample.latency ++
            latencies key f.kernelTs ((m.run format frames).pending key)
              (reactions format m.pairs f.arbId) := by
      rw [LatencyRecord.run_snoc, LatencyRecord.ingest, LatencyRecord.pairs_run,
        ← LatencyRecord.monitor_run]
      exact samplesOf_noteAll f _ _
    rw [hsamples, List.forall_mem_append, ih, latencies_eq, List.forall_mem_append]
    simp only [exchanged_snoc_iff]
    constructor
    · rintro ⟨hold, hfirst, -⟩ i r j s (h | ⟨hwait, -, rfl, hans⟩)
      · exact hold i r j s h
      · have hpend := (pending_run_iff hpending frames r.kernelTs).mpr ⟨i, r, hwait, rfl⟩
        rw [if_pos hans, hpend] at hfirst
        exact hfirst _ List.mem_cons_self
    · intro h
      refine ⟨fun i r j s hex => h i r j s (.inl hex), fun v hv => ?_, fun v hv => ?_⟩
      · split_ifs at hv with hans
        · obtain ⟨sent, hsent, rfl⟩ := Option.map_eq_some_iff.mp (Option.mem_toList.mp hv)
          obtain ⟨i, r, hwait, rfl⟩ := (pending_run_iff hpending frames sent).mp hsent
          exact h i r _ f (.inr ⟨hwait, rfl, rfl, hans⟩)
        · cases hv
      · rw [latencies_own (fun _ h => by cases h) _ v hv]
        exact hown _

theorem forall_sample_iff {P : ℚ → Prop} (hown : ∀ ts, P (latencyUs ts ts)) {m : LatencyMonitor}
    (hpending : ∀ key, m.pending key = none) (frames : List EnrichedFrame) :
    (∀ x ∈ (LatencyRecord.run format m frames).samples, P x.latency) ↔
      ∀ key i r j s, Exchanged format m.pairs key frames i r j s →
        P (latencyUs s.kernelTs r.kernelTs) := by
  have hkeys : (∀ x ∈ (LatencyRecord.run format m frames).samples, P x.latency) ↔
      ∀ key, ∀ v ∈ ((LatencyRecord.run format m frames).samplesOf key).map Sample.latency, P v := by
    simp only [List.forall_mem_map, LatencyRecord.samplesOf, List.mem_filter, decide_eq_true_eq]
    exact ⟨fun h key x hx => h x hx.1, fun h x hx => h x.key x ⟨hx, rfl⟩⟩
  rw [hkeys]
  exact forall_congr' fun key => forall_latency_iff hown (hpending key) frames

theorem latencyUs_self (ts : ℚ) : latencyUs ts ts = 0 := by
  simp [latencyUs, Binary64.sub, Binary64.mul, Binary64.round]

theorem latencyUs_nonneg {ts sent : ℚ} (h : sent ≤ ts) : 0 ≤ latencyUs ts sent := by
  rw [← latencyUs_self ts]
  exact Binary64.mul_mono_left (by norm_num) (Binary64.sub_anti_right ts h)

theorem latencyUs_le_iff (ts sent : ℚ) :
    latencyUs ts sent ≤ 1000000 ↔ Binary64.sub ts sent ≤ 1 := by
  have hmillion : Binary64.round 1000000 = 1000000 := by
    simpa using Binary64.round_natCast (n := 1000000) (by norm_num)
  constructor
  · intro hle
    by_contra hlt
    have hnext : 1 + 2 ^ (-52 : ℤ) ≤ Binary64.sub ts sent :=
      Binary64.succ_one_le_round (not_le.mp hlt)
    -- the double after a million is at 2 ^ -33 from it
    have hgrid : Binary64.round (1000000 + 2 ^ (-33 : ℤ)) = 1000000 + 2 ^ (-33 : ℤ) :=
      Binary64.round_of_grid (k := 1000000 * 2 ^ 33 + 1) (e := -33) (by norm_num) (by norm_num)
        (by norm_num) (by norm_num)
    have hbig : (1000000 : ℚ) + 2 ^ (-33 : ℤ) ≤ Binary64.sub ts sent * 1000000 := by
      norm_num at hnext ⊢
      linarith
    have hround := Binary64.round_mono hbig
    rw [hgrid] at hround
    have hpos : (0 : ℚ) < 2 ^ (-33 : ℤ) := by positivity
    exact absurd (hround.trans hle) (by linarith)
  · intro hle
    calc latencyUs ts sent ≤ Binary64.mul 1 1000000 := Binary64.mul_mono_left (by norm_num) hle
      _ = 1000000 := by rw [Binary64.mul, one_mul, hmillion]

theorem exchanged_before {i j : Nat} {r s : EnrichedFrame}
    (h : Exchanged format pairs key frames i r j s) : i < j ∧ frames[i]? = some r := by
  have hrequest := h.waiting.request_at
  rw [List.getElem?_take] at hrequest
  split_ifs at hrequest with hlt
  exact ⟨hlt, hrequest⟩

/-- Every latency is at most a second exactly if no response that finds its request waiting comes
more than a second after it. -/
theorem latencies_within_second_iff (format : String → Nat → Option String) (m : LatencyMonitor)
    (explicit : List ExplicitPair) (patterns : List PatternPair) {frames : List EnrichedFrame}
    (hsorted : frames.Pairwise fun f g => f.kernelTs ≤ g.kernelTs) :
    let m' := m.setPairs explicit patterns
    (∀ key, ((m'.run format frames).meas key).items = ((m.meas key).items ++
      ((LatencyRecord.run format m' frames).samplesOf key).map Sample.latency).rtake 100) ∧
    ((∀ x ∈ (LatencyRecord.run format m' frames).samples, 0 ≤ x.latency ∧ x.latency ≤ 1000000) ↔
      ∀ key i r j s, Exchanged format m'.pairs key frames i r j s →
        Binary64.sub s.kernelTs r.kernelTs ≤ 1) := by
  intro m'
  refine ⟨LatencyRecord.meas_run m' frames, ?_⟩
  have hown (ts : ℚ) : 0 ≤ latencyUs ts ts ∧ latencyUs ts ts ≤ 1000000 := by
    rw [latencyUs_self]
    norm_num
  refine (forall_sample_iff (P := fun v => 0 ≤ v ∧ v ≤ 1000000) hown (fun _ => rfl) frames).trans ?_
  constructor
  · intro h key i r j s hex
    exact (latencyUs_le_iff _ _).mp (h key i r j s hex).2
  · intro h key i r j s hex
    obtain ⟨hlt, hrequest⟩ := exchanged_before hex
    obtain ⟨hi, rfl⟩ := List.getElem?_eq_some_iff.mp hrequest
    obtain ⟨hj, rfl⟩ := List.getElem?_eq_some_iff.mp hex.response_at
    have hle := List.pairwise_iff_getElem.mp hsorted i j hi hj hlt
    exact ⟨latencyUs_nonneg hle, (latencyUs_le_iff _ _).mpr (h key i _ j _ hex)⟩

def frame (arbId : Nat) (kernelTs : ℚ) : EnrichedFrame := ⟨arbId, 0, [], false, none, kernelTs, 0⟩

theorem latencies_within_second_exchange :
    let m' : LatencyMonitor := LatencyMonitor.setPairs ⟨[], [], fun _ => none, fun _ => .empty⟩
      [⟨0x601, 0x581, .str "SDO"⟩] []
    let frames := [frame 0x601 0, frame 0x581 (1 / 2)]
    (∀ key, ((m'.run LatencyPairs.formatDefault frames).meas key).items = ([] ++
      ((LatencyRecord.run LatencyPairs.formatDefault m' frames).samplesOf key).map
        Sample.latency).rtake 100) ∧
    ((∀ x ∈ (LatencyRecord.run LatencyPairs.formatDefault m' frames).samples,
        0 ≤ x.latency ∧ x.latency ≤ 1000000) ↔
      ∀ key i r j s, Exchanged LatencyPairs.formatDefault m'.pairs key frames i r j s →
        Binary64.sub s.kernelTs r.kernelTs ≤ 1) :=
  latencies_within_second_iff LatencyPairs.formatDefault
    ⟨[], [], fun _ => none, fun _ => .empty⟩ [⟨0x601, 0x581, .str "SDO"⟩] [] (by simp [frame])

/-- On a bus that is silent after a request, the answer is measured after two seconds. -/
theorem late_response_measured : ¬ ∀ (format : String → Nat → Option String)
    (explicit : List ExplicitPair) (patterns : List PatternPair) (frames : List EnrichedFrame),
    (frames.Pairwise fun f g => f.kernelTs ≤ g.kernelTs) →
    ∀ x ∈ (LatencyRecord.run format
      ⟨explicit, patterns, fun _ => none, fun _ => .empty⟩ frames).samples,
      0 ≤ x.latency ∧ x.latency ≤ 1000000 := by
  intro h
  have hlate := h LatencyPairs.formatDefault [⟨0x601, 0x581, .str "SDO"⟩] []
    [frame 0x601 0, frame 0x581 2] (by simp [frame])
  exact absurd hlate (by decide +kernel)

end CanSniffer.StaleRequests
