import CanSniffer.LatencyFrames
import CanSniffer.LatencySoundness
import CanSniffer.TimingStats

namespace CanSniffer

open Library Library.PyJson Models LatencyMonitor

/-- The accumulators that `_ingest_loop` feeds, and whether the loop still runs. -/
structure StatsServer where
  timing : TimingStatsCollector := {}
  latency : LatencyMonitor
  running : Bool := true

namespace StatsServer

variable (ops : FloatOps) (format : String → Nat → Option String)

/-- The share of one frame in `_ingest_loop`, which ends with an exception. -/
def ingestFrame (s : StatsServer) (frame : EnrichedFrame) : StatsServer :=
  if s.running then
    let (latency, raised) := s.latency.ingest format frame
    { timing := s.timing.ingest ops frame
      latency := latency
      running := !raised }
  else s

def run (s : StatsServer) (frames : List EnrichedFrame) : StatsServer :=
  frames.foldl (ingestFrame ops format) s

def resetTiming (s : StatsServer) : StatsServer := { s with timing := s.timing.reset }

theorem latency_resetTiming (s : StatsServer) : s.resetTiming.latency = s.latency := rfl

def shown (s : StatsServer) : PyDict String IdTiming × (DictKey → Option LatencyStats) :=
  (s.timing.snapshot ops, s.latency.snapshot ops)

/-- The loop is there to ingest the frames. -/
def Takes (s : StatsServer) (frames : List EnrichedFrame) : Prop := frames = [] ∨ s.running

end StatsServer

namespace ResetStats

open StatsServer LatencyFrames

variable {ops : FloatOps} {format : String → Nat → Option String} {key : DictKey}

/-- How many responses under the key find a request, in front of the frame or in it. -/
def exchanges (key : DictKey) : Bool → List Reaction → Nat
  | _, [] => 0
  | asked, r :: rest =>
    if r = .request key then exchanges key true rest
    else if r = .response key then asked.toNat + exchanges key false rest
    else exchanges key asked rest

/-- A frame of this id answers a request that is pending, and does not bring so many answers of its
own that this one is dropped again. -/
def Shows (format : String → Nat → Option String) (pairs : List Pair) (key : DictKey)
    (arbId : Nat) : Prop :=
  exchanges key false (reactions format pairs arbId) <
    min 100 (exchanges key true (reactions format pairs arbId))

/-- No label has a sample, and no request is pending that a later frame shows. -/
structure Cleared (format : String → Nat → Option String) (s : StatsServer) : Prop where
  meas : ∀ key, (s.latency.meas key).items = []
  pending : s.running → ∀ key, (s.latency.pending key).isSome →
    ∀ arbId, ¬ Shows format s.latency.pairs key arbId

theorem length_latencies (key : DictKey) (ts : ℚ) (pending : Option ℚ) (rs : List Reaction) :
    (latencies key ts pending rs).length = exchanges key pending.isSome rs := by
  induction rs generalizing pending with
  | nil => rfl
  | cons r rest ih =>
    rw [latencies, exchanges]
    split_ifs
    · exact ih (some ts)
    · rw [List.length_append, ih none]
      cases pending <;> rfl
    · exact ih pending

theorem latencies_pending (key : DictKey) (ts : ℚ) (pending : Option ℚ) (rs : List Reaction) :
    latencies key ts pending rs = latencies key ts none rs ∨
      (pending.isSome ∧ ∃ x, latencies key ts pending rs = x :: latencies key ts none rs) := by
  rw [latencies_eq]
  split_ifs
  · cases pending with
    | none => exact .inl rfl
    | some sent => exact .inr ⟨rfl, latencyUs ts sent, rfl⟩
  · exact .inl rfl

/-- Two monitors that show the same under a key, although one may have a request pending that
stays without a trace. -/
structure Alike (format : String → Nat → Option String) (pairs : List Pair) (key : DictKey)
    (m n : LatencyMonitor) : Prop where
  left : m.pairs = pairs
  right : n.pairs = pairs
  meas : m.meas key = n.meas key
  pending : m.pending key = n.pending key ∨
    (n.pending key = none ∧ ∀ arbId, ¬ Shows format pairs key arbId)

variable {pairs : List Pair} {m n : LatencyMonitor}

theorem alike_reactAll (h : Alike format pairs key m n) (f : EnrichedFrame) :
    Alike format pairs key (m.reactAll format f).1 (n.reactAll format f).1 where
  left := (reactAll_pairs f).trans h.left
  right := (reactAll_pairs f).trans h.right
  meas := by
    apply Deque.ext
    rw [meas_reactAll, meas_reactAll, h.left, h.right, h.meas]
    obtain heq | ⟨hnone, hhidden⟩ := h.pending
    · rw [heq]
    rw [hnone]
    obtain heq | ⟨hsome, x, hx⟩ :=
      latencies_pending key f.kernelTs (m.pending key) (reactions format pairs f.arbId)
    · rw [heq]
    -- the frame answers the request, and what it appends after that fills the deque
    · have hlen := length_latencies key f.kernelTs none (reactions format pairs f.arbId)
      have hmore := length_latencies key f.kernelTs (m.pending key)
        (reactions format pairs f.arbId)
      have hshows := hhidden f.arbId
      rw [Shows] at hshows
      rw [hx, List.length_cons, hsome] at hmore
      rw [Option.isSome_none] at hlen
      have hfull : 100 ≤ (latencies key f.kernelTs none
          (reactions format pairs f.arbId)).length := by
        omega
      rw [hx, List.append_cons, Newest.rtake_append_of_le hfull, Newest.rtake_append_of_le hfull]
  pending := by
    rw [pending_reactAll, pending_reactAll, h.left, h.right, pendingAfter, pendingAfter]
    cases (uses key (reactions format pairs f.arbId)).getLast? with
    | some r => exact .inl rfl
    | none => exact h.pending

theorem alike_ingest (h : Alike format pairs key m n) (f : EnrichedFrame) :
    Alike format pairs key (m.ingest format f).1 (n.ingest format f).1 where
  left := (ingest_pairs f).trans h.left
  right := (ingest_pairs f).trans h.right
  meas := by
    rw [LatencyRecord.meas_ingest_fst, LatencyRecord.meas_ingest_fst]
    exact (alike_reactAll h f).meas
  pending := by
    rw [pending_ingest_fst, pending_ingest_fst, h.left, h.right]
    obtain heq | ⟨hnone, hhidden⟩ := (alike_reactAll h f).pending
    · exact .inl (congrArg (Option.filter _) heq)
    · exact .inr ⟨congrArg (Option.filter _) hnone, hhidden⟩

theorem raises_eq (hpairs : m.pairs = n.pairs) (f : EnrichedFrame) :
    (m.ingest format f).2 = (n.ingest format f).2 := by
  rw [Bool.eq_iff_iff, ingest_raises_iff, ingest_raises_iff, hpairs]

/-- Two servers of which the same frames make the same but for the latencies. -/
structure Lockstep (s t : StatsServer) : Prop where
  timing : s.timing = t.timing
  running : s.running = t.running
  pairs : s.latency.pairs = t.latency.pairs

variable {s t : StatsServer}

theorem lockstep_ingestFrame (h : Lockstep s t) (f : EnrichedFrame) :
    Lockstep (s.ingestFrame ops format f) (t.ingestFrame ops format f) := by
  rw [ingestFrame, ingestFrame, h.running]
  split_ifs
  · constructor
    · exact congrArg (TimingStatsCollector.ingest ops · f) h.timing
    · exact congrArg (!·) (raises_eq h.pairs f)
    · exact (ingest_pairs f).trans (h.pairs.trans (ingest_pairs f).symm)
  · exact h

theorem lockstep_run (h : Lockstep s t) (later : List EnrichedFrame) :
    Lockstep (s.run ops format later) (t.run ops format later) := by
  induction later generalizing s t with
  | nil => exact h
  | cons f later ih => exact ih (lockstep_ingestFrame h f)

theorem alike_run (h : Lockstep s t) (halike : Alike format pairs key s.latency t.latency)
    (later : List EnrichedFrame) :
    Alike format pairs key (s.run ops format later).latency (t.run ops format later).latency := by
  induction later generalizing s t with
  | nil => exact halike
  | cons f later ih =>
    apply ih (lockstep_ingestFrame h f)
    rw [ingestFrame, ingestFrame, h.running]
    split_ifs
    · exact alike_ingest halike f
    · exact halike

theorem shown_eq {s t : StatsServer} (htiming : s.timing = t.timing)
    (hmeas : ∀ key, s.latency.meas key = t.latency.meas key) : s.shown ops = t.shown ops := by
  apply Prod.ext
  · exact congrArg (TimingStatsCollector.snapshot ops) htiming
  · funext key
    change s.latency.snapshot ops key = t.latency.snapshot ops key
    rw [LatencyMonitor.snapshot, LatencyMonitor.snapshot, hmeas key]

theorem pairs_run (s : StatsServer) (frames : List EnrichedFrame) :
    (s.run ops format frames).latency.pairs = s.latency.pairs := by
  refine List.foldlRecOn (motive := fun t : StatsServer => t.latency.pairs = s.latency.pairs)
    frames _ rfl fun t ih f _ => ?_
  rw [ingestFrame]
  split_ifs
  · exact (ingest_pairs f).trans ih
  · exact ih

theorem count_snapshot (ops : FloatOps) (m : LatencyMonitor) (key : DictKey) :
    ((m.snapshot ops key).map LatencyStats.count).getD 0 = (m.meas key).items.length := by
  rw [LatencyMonitor.snapshot]
  split_ifs with hnil
  · rw [hnil]
    rfl
  · rfl

theorem length_meas_frame {s : StatsServer} (hrun : s.running)
    (hmeas : (s.latency.meas key).items = []) (f : EnrichedFrame) :
    ((s.run ops format [f]).latency.meas key).items.length =
      min 100 (exchanges key (s.latency.pending key).isSome
        (reactions format s.latency.pairs f.arbId)) := by
  have hlatency : (s.run ops format [f]).latency = (s.latency.ingest format f).1 := by
    rw [StatsServer.run, List.foldl_cons, List.foldl_nil, ingestFrame, if_pos hrun]
  rw [hlatency, LatencyRecord.meas_ingest_fst, meas_reactAll, hmeas,
    Newest.length_rtake, List.nil_append, length_latencies]

def start (explicit : List ExplicitPair) (patterns : List PatternPair) : StatsServer :=
  { latency := { explicit, patterns } }

def replay (ops : FloatOps) (format : String → Nat → Option String) (s : StatsServer)
    (history later : List EnrichedFrame) : StatsServer :=
  (s.run ops format history).resetTiming.run ops format later

variable {explicit : List ExplicitPair} {patterns : List PatternPair}
  {history later : List EnrichedFrame}

theorem lockstep_reset
    (hrun : ((start explicit patterns).run ops format history).running) :
    Lockstep ((start explicit patterns).run ops format history).resetTiming
      (start explicit patterns) :=
  ⟨rfl, hrun, pairs_run _ history⟩

theorem timing_replay
    (htakes : ((start explicit patterns).run ops format history).Takes later) :
    (replay ops format (start explicit patterns) history later).timing =
      ((start explicit patterns).run ops format later).timing := by
  obtain rfl | hrun := htakes
  · rfl
  · exact (lockstep_run (lockstep_reset hrun) later).timing

theorem shown_of_cleared
    (hclear : Cleared format ((start explicit patterns).run ops format history))
    (htakes : ((start explicit patterns).run ops format history).Takes later) :
    (replay ops format (start explicit patterns) history later).shown ops =
      ((start explicit patterns).run ops format later).shown ops := by
  apply shown_eq (timing_replay htakes)
  intro key
  have hmeas : ((start explicit patterns).run ops format history).latency.meas key =
      (start explicit patterns).latency.meas key :=
    Deque.ext (hclear.meas key)
  obtain rfl | hrun := htakes
  · exact hmeas
  · have halike : Alike format (start explicit patterns).latency.pairs key
        ((start explicit patterns).run ops format history).resetTiming.latency
        (start explicit patterns).latency := by
      refine ⟨pairs_run _ history, rfl, hmeas, ?_⟩
      cases hpend : ((start explicit patterns).run ops format history).latency.pending key with
      | none => exact .inl hpend
      | some sent =>
        have hhidden := hclear.pending hrun key (by rw [hpend]; rfl)
        rw [pairs_run] at hhidden
        exact .inr ⟨rfl, hhidden⟩
    exact (alike_run (lockstep_reset hrun) halike later).meas

theorem cleared_of_shown
    (hshown : ∀ later, ((start explicit patterns).run ops format history).Takes later →
      (replay ops format (start explicit patterns) history later).shown ops =
        ((start explicit patterns).run ops format later).shown ops) :
    Cleared format ((start explicit patterns).run ops format history) := by
  have hlength (key : DictKey) (later : List EnrichedFrame)
      (htakes : ((start explicit patterns).run ops format history).Takes later) :
      ((replay ops format (start explicit patterns) history later).latency.meas key).items.length =
        (((start explicit patterns).run ops format later).latency.meas key).items.length := by
    rw [← count_snapshot ops, ← count_snapshot ops]
    exact congrArg (fun x => ((x.2 key).map LatencyStats.count).getD 0) (hshown later htakes)
  have hmeas (key : DictKey) :
      (((start explicit patterns).run ops format history).latency.meas key).items = [] :=
    List.length_eq_zero_iff.mp (hlength key [] (.inl rfl))
  refine ⟨hmeas, fun hrun key hpend arbId hshows => ?_⟩
  -- one frame of the id tells the two runs apart
  have hpairs : ((start explicit patterns).run ops format history).latency.pairs =
      (start explicit patterns).latency.pairs := pairs_run _ history
  have hleft : ((replay ops format (start explicit patterns) history
      [LatencySoundness.probe arbId]).latency.meas key).items.length =
        min 100 (exchanges key true
          (reactions format (start explicit patterns).latency.pairs arbId)) := by
    rw [replay, length_meas_frame (s := resetTiming _) hrun (hmeas key), ← hpairs,
      latency_resetTiming, hpend]
    rfl
  have hright : (((start explicit patterns).run ops format
      [LatencySoundness.probe arbId]).latency.meas key).items.length =
        min 100 (exchanges key false
          (reactions format (start explicit patterns).latency.pairs arbId)) :=
    length_meas_frame rfl rfl _
  have hsame := hlength key [LatencySoundness.probe arbId] (.inr hrun)
  rw [Shows, hpairs] at hshows
  omega

/-- After a reset the timing statistics depend on later frames alone. The latencies do exactly if
the history left none, and no request that a later frame shows. -/
theorem reset_forgets_iff (ops : FloatOps) (format : String → Nat → Option String)
    (explicit : List ExplicitPair) (patterns : List PatternPair) :
    let s := start explicit patterns
    (∀ h h' later, (s.run ops format h).Takes later → (s.run ops format h').Takes later →
      (replay ops format s h later).timing.snapshot ops =
        (replay ops format s h' later).timing.snapshot ops) ∧
    (∀ h h' later, (s.run ops format h).Takes later → (s.run ops format h').Takes later →
      Cleared format (s.run ops format h) → Cleared format (s.run ops format h') →
      (replay ops format s h later).shown ops = (replay ops format s h' later).shown ops) ∧
    ∀ h, (∀ later, (s.run ops format h).Takes later →
        (replay ops format s h later).shown ops = (s.run ops format later).shown ops) ↔
      Cleared format (s.run ops format h) := by
  refine ⟨fun h h' later htakes htakes' => ?_, fun h h' later htakes htakes' hclear hclear' => ?_,
    fun h => ⟨cleared_of_shown, fun hclear later htakes => shown_of_cleared hclear htakes⟩⟩
  · rw [timing_replay htakes, timing_replay htakes']
  · rw [shown_of_cleared hclear htakes, shown_of_cleared hclear' htakes']

/-- A request and its answer in front of the reset are in the statistics after it. -/
theorem reset_keeps_latency : ¬ ∀ (explicit : List ExplicitPair) (patterns : List PatternPair)
    (h h' later : List EnrichedFrame),
    ((start explicit patterns).run Binary64.ops LatencyPairs.formatDefault h).Takes later →
    ((start explicit patterns).run Binary64.ops LatencyPairs.formatDefault h').Takes later →
    (replay Binary64.ops LatencyPairs.formatDefault (start explicit patterns) h later).shown
        Binary64.ops =
      (replay Binary64.ops LatencyPairs.formatDefault (start explicit patterns) h' later).shown
        Binary64.ops := by
  intro hsame
  have heq := hsame [⟨0x601, 0x581, .str "SDO"⟩] []
    [LatencySoundness.probe 0x601, LatencySoundness.probe 0x581] [] [] (.inl rfl) (.inl rfl)
  have hcount := congrArg (fun x => ((x.2 (.str "SDO")).map LatencyStats.count).getD 0) heq
  exact absurd hcount (by decide +kernel)

end ResetStats
end CanSniffer
