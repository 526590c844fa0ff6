import CanSniffer.BusLoadRuns
import CanSniffer.Server
import CanSniffer.TriggerStates

namespace CanSniffer.Server

open Library Library.PyJson LatencyPairs Models CaptureRecord

variable {ops : FloatOps} {format : String → Nat → Option String} {dumps : FrameDict → String}
  {s t : Server} {frame : EnrichedFrame} {r : FrameRead}

theorem behav_ingestAborts (diag : DiagnosticsAggregator) (p : Pass)
    (fired : List (AbortedFrameEvent × Nat)) :
    (fired.foldl (fun diag (evt, i) =>
      diag.ingestAbort evt (p.aborts i).now (p.aborts i).ts (p.aborts i).clock) diag).behav =
      diag.behav := by
  induction fired generalizing diag with
  | nil => rfl
  | cons f fired ih => exact ih _

/-- The trigger is armed with a condition that the next frame cannot be compared with. -/
def Unordered (s : Server) : Prop := s.trigger.state = .armed ∧ s.unordered = true

instance (s : Server) : Decidable s.Unordered := inferInstanceAs (Decidable (_ ∧ _))

/-- What `_ingest_loop` does with a frame while no exception has ended it: every consumer up to
the monitor of latencies gets it, the trigger too if nothing in front of it raises. -/
structure Handled (ops : FloatOps) (format : String → Nat → Option String) (s t : Server)
    (frame : EnrichedFrame) (r : FrameRead) : Prop where
  loop : t.loop = s.loop.handleFrame frame
  frameStore : t.frameStore = s.frameStore.append frame
  busLoad : t.busLoad = s.busLoad.record frame
  diag : t.diag = s.diag
  logged : t.logged = (s.log .frame (DiagLogger.frameRow frame false)).logged
  timing : t.timing = s.timing.ingest ops frame
  file : t.pairs.file = s.pairs.file
  latency : t.pairs.latency = (s.pairs.latency.ingest format frame).1
  unordered : t.unordered = s.unordered
  trigger :
    ((t.running = true ↔ ¬ s.Unordered) ∧ (s.pairs.latency.ingest format frame).2 = false ∧
      ∃ busLoad, t.busLoad.current = some busLoad ∧
        s.trigger.ingest frame busLoad r.id r.saved = some t.trigger) ∨
    (t.running = false ∧ t.trigger = s.trigger ∧
      ((s.pairs.latency.ingest format frame).2 = true ∨ t.busLoad.current = none ∨
        ∃ busLoad, s.trigger.ingest frame busLoad r.id r.saved = none))

theorem handleFrame_stopped (h : s.running = false) :
    s.handleFrame ops format frame r = s := by
  simp [handleFrame, andThen, h]

variable (ops format frame r) in
theorem handleFrame_spec (hrunning : s.running = true) (hbehav : s.diag.behav = none) :
    Handled ops format s (s.handleFrame ops format frame r) frame r := by
  have hdiag : s.diag.ingestFrame frame r.now r.wall r.clock = (s.diag, false) := by
    rw [DiagnosticsAggregator.ingestFrame, hbehav]
  cases hlat : s.pairs.latency.ingest format frame with
  | mk latency raised =>
    cases raised with
    | true =>
      constructor <;>
        simp [handleFrame, andThen, hrunning, ingestDiag, hdiag, ingestLatency, log, hlat]
    | false =>
      cases hload : (s.busLoad.record frame).current with
      | none =>
        constructor <;> simp [handleFrame, andThen, hrunning, ingestDiag, hdiag, ingestLatency, log,
          hlat, ingestTrigger, hload]
      | some busLoad =>
        cases htrig : s.trigger.ingest frame busLoad r.id r.saved with
        | none =>
          constructor <;> simp [handleFrame, andThen, hrunning, ingestDiag, hdiag, ingestLatency,
            log, hlat, ingestTrigger, hload, htrig]
          exact ⟨busLoad, htrig⟩
        | some trigger =>
          constructor <;> simp [handleFrame, andThen, hrunning, ingestDiag, hdiag, ingestLatency,
            log, hlat, ingestTrigger, hload, htrig, Unordered]
          exact .inl imp_iff_not_or.symm

def captureRow (dumps : FrameDict → String) (cap : CaptureSession) : Row :=
  DiagLogger.captureRow (cap.toDict dumps)

/-- The trigger has been through a run of its own in which it ingested these frames, and every
session that it handed out is a row. -/
def Collects (dumps : FrameDict → String) (trigger : TriggerCapture 200 200) (rows : List Row)
    (frames : List EnrichedFrame) : Prop :=
  ∃ calls r, CaptureRecord.run 200 200 calls = some r ∧ r.trig = trigger ∧
    rows = r.popped.map (captureRow dumps) ∧
    TriggerStates.ingested calls = frames.map EnrichedFrame.toDict

def handedOut (trigger : TriggerCapture 200 200) : TriggerCapture.Op → List CaptureSession
  | .popCompleted => trigger.pending.toList
  | .arm _ | .disarm | .fire | .ingest _ _ _ _ => []

theorem collects_apply {trigger : TriggerCapture 200 200} {rows : List Row}
    {frames : List EnrichedFrame} (h : Collects dumps trigger rows frames)
    (op : TriggerCapture.Op) (more : List EnrichedFrame)
    (hop : TriggerStates.ingested [op] = more.map EnrichedFrame.toDict) :
    ∃ next, trigger.apply op = some next ∧
      Collects dumps next (rows ++ (handedOut trigger op).map (captureRow dumps))
        (frames ++ more) := by
  obtain ⟨calls, r, hrun, rfl, rfl, hseen⟩ := h
  obtain ⟨q, hq, hcond⟩ := run_total 200 200 calls
  rw [hrun] at hq
  cases hq
  obtain ⟨next, hnext, -⟩ := TriggerCapture.apply_spec hcond op
  refine ⟨next, hnext, calls ++ [op], r.after op next, ?_, rfl, ?_, ?_⟩
  · rw [CaptureRecord.run_snoc, hrun, Option.bind_some, CaptureRecord.step, hnext]
    rfl
  · rw [after, List.map_append]
    cases op <;> rfl
  · rw [TriggerStates.ingested_append, hseen, hop, List.map_append]

/-- Every consumer has seen the frames that were handed on, in their order; the trigger may not have
seen the one at which an exception has ended the loop. -/
structure Fed (dumps : FrameDict → String) (s : Server) : Prop where
  behav : s.diag.behav = none
  frameStore : s.frameStore = s.loop.emitted.foldl FrameStore.append .init
  busLoad : s.busLoad = BusLoadMonitor.run 1000000 1 s.loop.emitted
  frames : s.logged .frame = s.loop.emitted.map (DiagLogger.frameRow · false)
  trigger : ∃ seen, Collects dumps s.trigger (s.logged .cap) seen ∧
    (seen = s.loop.emitted ∨ s.running = false ∧ seen = s.loop.emitted.dropLast)

theorem fed_handleFrame (h : Fed dumps s) (frame : EnrichedFrame) (r : FrameRead) :
    Fed dumps (s.handleFrame ops format frame r) := by
  cases hrunning : s.running with
  | false => rwa [handleFrame_stopped hrunning]
  | true =>
    have hs := handleFrame_spec ops format frame r hrunning h.behav
    have hemitted : (s.handleFrame ops format frame r).loop.emitted = s.loop.emitted ++ [frame] := by
      rw [hs.loop]
      rfl
    have hcap : (s.handleFrame ops format frame r).logged .cap = s.logged .cap := by
      rw [hs.logged]
      rfl
    obtain ⟨seen, htrig, hseen⟩ := h.trigger
    rw [hrunning] at hseen
    obtain rfl := hseen.resolve_right (by simp)
    constructor
    · rw [hs.diag, h.behav]
    · rw [hs.frameStore, h.frameStore, hemitted, List.foldl_append]
      rfl
    · rw [hs.busLoad, h.busLoad, hemitted, BusLoadMonitor.run_concat]
    · rw [hs.logged, hemitted, List.map_append, ← h.frames]
      rfl
    · rw [hemitted, hcap]
      obtain ⟨-, -, busLoad, -, htrigger⟩ | ⟨hoff, htrigger, -⟩ := hs.trigger
      · obtain ⟨next, hnext, hcollects⟩ :=
          collects_apply htrig (.ingest frame busLoad r.id r.saved) [frame] rfl
        rw [TriggerCapture.apply, htrigger] at hnext
        cases hnext
        rw [handedOut, List.map_nil, List.append_nil] at hcollects
        exact ⟨_, hcollects, .inl rfl⟩
      · rw [htrigger]
        exact ⟨_, htrig, .inr ⟨hoff, List.dropLast_concat.symm⟩⟩

structure SameFeed (s t : Server) : Prop where
  behav : t.diag.behav = s.diag.behav
  emitted : t.loop.emitted = s.loop.emitted
  frameStore : t.frameStore = s.frameStore
  busLoad : t.busLoad = s.busLoad
  frames : t.logged .frame = s.logged .frame
  running : t.running = s.running

theorem fed_control (h : Fed dumps s) (hsame : SameFeed s t) (op : TriggerCapture.Op)
    (hseen : TriggerStates.ingested [op] = []) (hop : s.trigger.apply op = some t.trigger)
    (hcap : t.logged .cap = s.logged .cap ++ (handedOut s.trigger op).map (captureRow dumps)) :
    Fed dumps t := by
  obtain ⟨seen, htrig, hframes⟩ := h.trigger
  obtain ⟨next, hnext, hcollects⟩ := collects_apply htrig op [] hseen
  rw [hop, Option.some_inj] at hnext
  rw [List.append_nil, ← hnext, ← hcap] at hcollects
  constructor
  · rw [hsame.behav, h.behav]
  · rw [hsame.frameStore, hsame.emitted, h.frameStore]
  · rw [hsame.busLoad, hsame.emitted, h.busLoad]
  · rw [hsame.frames, hsame.emitted, h.frames]
  · rw [hsame.running, hsame.emitted]
    exact ⟨seen, hcollects, hframes⟩

theorem fed_same (h : Fed dumps s) (hsame : SameFeed s t) (htrigger : t.trigger = s.trigger)
    (hcap : t.logged .cap = s.logged .cap) : Fed dumps t := by
  constructor
  · rw [hsame.behav, h.behav]
  · rw [hsame.frameStore, hsame.emitted, h.frameStore]
  · rw [hsame.busLoad, hsame.emitted, h.busLoad]
  · rw [hsame.frames, hsame.emitted, h.frames]
  · rw [hsame.running, hsame.emitted, htrigger, hcap]
    exact h.trigger

theorem behav_ingestErrorFrame (diag : DiagnosticsAggregator) (msg : RawCanMessage)
    (decoded now : ℚ) (clock : Nat → ℚ) :
    (diag.ingestErrorFrame msg decoded now clock).2.behav = diag.behav := by
  rw [DiagnosticsAggregator.ingestErrorFrame]
  split <;> rfl

theorem fed_onMessage (h : Fed dumps s) (msg : RawCanMessage) (times : DiagTimes) :
    Fed dumps (s.onMessage msg times) := by
  rw [onMessage]
  split_ifs
  · have hbehav := behav_ingestErrorFrame s.diag msg times.ts times.now times.clock
    dsimp only
    split
    · exact fed_same h ⟨hbehav, rfl, rfl, rfl, rfl, rfl⟩ rfl rfl
    · exact fed_same h ⟨hbehav, rfl, rfl, rfl, rfl, rfl⟩ rfl rfl
  · exact fed_same h ⟨rfl, rfl, rfl, rfl, rfl, rfl⟩ rfl rfl

variable (ops format) in
theorem fed_keeps : Keeps ops format (Fed dumps) where
  event _ _ h := fed_same h ⟨rfl, rfl, rfl, rfl, rfl, rfl⟩ rfl rfl
  raised s h := by
    obtain ⟨seen, htrig, hseen⟩ := h.trigger
    exact ⟨h.behav, h.frameStore, h.busLoad, h.frames, seen, htrig,
      hseen.imp_right fun hs => ⟨rfl, hs.2⟩⟩
  correlator _ _ h := fed_same h ⟨rfl, rfl, rfl, rfl, rfl, rfl⟩ rfl rfl
  frame _ frame r h := fed_handleFrame h frame r
  sweep s p h := by
    rw [sweep, andThen]
    split_ifs
    · exact fed_same h ⟨behav_ingestAborts _ _ _, rfl, rfl, rfl, rfl, rfl⟩ rfl rfl
    · exact h
  message _ msg times h := fed_onMessage h msg times

variable (ops format) in
theorem fed_step (h : Fed dumps s) (a : Act) : Fed dumps (s.step ops format dumps a) := by
  cases a with
  | readable batch => exact (fed_keeps ops format).readable h batch
  | pass p => exact (fed_keeps ops format).pass h p
  | popCompleted =>
    rw [step, popCompleted]
    dsimp only [TriggerCapture.popCompleted]
    split
    all_goals
      rename_i hpending
      refine fed_control h ⟨rfl, rfl, rfl, rfl, rfl, rfl⟩ .popCompleted rfl rfl ?_
      simp [handedOut, hpending, log, captureRow]
  | checkTimeouts now wall clock =>
    refine fed_same h ⟨?_, rfl, rfl, rfl, rfl, rfl⟩ rfl rfl
    rw [step, DiagnosticsAggregator.checkPeriodicTimeouts, h.behav]
    exact h.behav
  | poll poller => exact fed_same h ⟨rfl, rfl, rfl, rfl, rfl, rfl⟩ rfl rfl
  | update now monotonic =>
    rw [step, update]
    split
    · exact fed_same h ⟨rfl, rfl, rfl, rfl, rfl, rfl⟩ rfl rfl
    · exact h
  | arm body =>
    exact fed_control h ⟨rfl, rfl, rfl, rfl, rfl, rfl⟩ (.arm body.condition) rfl rfl
      (List.append_nil _).symm
  | disarm =>
    exact fed_control h ⟨rfl, rfl, rfl, rfl, rfl, rfl⟩ (.disarm) rfl rfl (List.append_nil _).symm
  | fire =>
    exact fed_control h ⟨rfl, rfl, rfl, rfl, rfl, rfl⟩ (.fire) rfl rfl (List.append_nil _).symm
  | setPairs body => exact fed_same h ⟨rfl, rfl, rfl, rfl, rfl, rfl⟩ rfl rfl
  | annotate kernelTs arbId note now => exact fed_same h ⟨rfl, rfl, rfl, rfl, rfl, rfl⟩ rfl rfl
  | resetTiming => exact fed_same h ⟨rfl, rfl, rfl, rfl, rfl, rfl⟩ rfl rfl

theorem start_eq {file : Option PairsFile} (h : start file = some s) :
    ∃ explicit patterns, loadPairs file = some (explicit, patterns) ∧
      s = {
        loop := .init Correlator.defaultMaxDeltaNs PartialFrameDetector.abortTimeoutS
        pairs := ⟨file, { explicit, patterns }⟩ } := by
  obtain ⟨⟨explicit, patterns⟩, hload, hs⟩ := Option.bind_eq_some_iff.mp h
  exact ⟨explicit, patterns, hload, (Option.some.inj hs).symm⟩

variable (ops format dumps) in
theorem fed_run {file : Option PairsFile} (hstart : start file = some s) (acts : List Act) :
    Fed dumps (s.run ops format dumps acts) := by
  obtain ⟨explicit, patterns, -, rfl⟩ := start_eq hstart
  apply List.foldlRecOn acts
  · exact ⟨rfl, rfl, rfl, rfl, [], ⟨[], {}, rfl, rfl, rfl, rfl⟩, .inl rfl⟩
  · exact fun _ h a _ => fed_step ops format h a

structure Since (ops : FloatOps) (format : String → Nat → Option String) (timed paired : Prop)
    (s t : Server) (new : List EnrichedFrame) : Prop where
  behav : t.diag.behav = none
  emitted : t.loop.emitted = s.loop.emitted ++ new
  timing : timed → t.timing = s.timing.run ops new
  pairs : paired → t.pairs = ⟨s.pairs.file, s.pairs.latency.run format new⟩

variable {timed paired : Prop} {u : Server} {new : List EnrichedFrame}

theorem since_same (h : Since ops format timed paired s t new)
    (hbehav : u.diag.behav = t.diag.behav) (hemitted : u.loop.emitted = t.loop.emitted)
    (htiming : timed → u.timing = t.timing) (hpairs : paired → u.pairs = t.pairs) :
    Since ops format timed paired s u new where
  behav := hbehav.trans h.behav
  emitted := hemitted.trans h.emitted
  timing ht := (htiming ht).trans (h.timing ht)
  pairs hp := (hpairs hp).trans (h.pairs hp)

theorem since_handleFrame (h : Since ops format timed paired s t new) (frame : EnrichedFrame)
    (r : FrameRead) :
    ∃ new', Since ops format timed paired s (t.handleFrame ops format frame r) new' := by
  cases hrunning : t.running with
  | false =>
    rw [handleFrame_stopped hrunning]
    exact ⟨new, h⟩
  | true =>
    have ht := handleFrame_spec ops format frame r hrunning h.behav
    refine ⟨new ++ [frame], ?_, ?_, fun hon => ?_, fun hon => ?_⟩
    · rw [ht.diag, h.behav]
    · rw [ht.loop, IngestLoop.handleFrame, h.emitted, List.append_assoc]
    · rw [ht.timing, h.timing hon, TimingStatsCollector.run, TimingStatsCollector.run,
        List.foldl_append]
      rfl
    · have hfile := ht.file
      have hlatency := ht.latency
      rw [h.pairs hon] at hfile hlatency
      rw [LatencyMonitor.run, List.foldl_append]
      exact congrArg₂ PairConfig.mk hfile hlatency

variable (ops format timed paired) in
theorem since_keeps (s : Server) :
    Keeps ops format fun t => ∃ new, Since ops format timed paired s t new where
  event _ _ := fun ⟨new, h⟩ => ⟨new, since_same h rfl rfl (fun _ => rfl) fun _ => rfl⟩
  raised _ := fun ⟨new, h⟩ => ⟨new, since_same h rfl rfl (fun _ => rfl) fun _ => rfl⟩
  correlator _ _ := fun ⟨new, h⟩ => ⟨new, since_same h rfl rfl (fun _ => rfl) fun _ => rfl⟩
  frame _ frame r := fun ⟨_, h⟩ => since_handleFrame h frame r
  sweep t p := by
    rintro ⟨new, h⟩
    rw [sweep, andThen]
    split_ifs
    · exact ⟨new, since_same h (behav_ingestAborts _ _ _) rfl (fun _ => rfl) fun _ => rfl⟩
    · exact ⟨new, h⟩
  message t msg times := by
    rintro ⟨new, h⟩
    have hbehav := behav_ingestErrorFrame t.diag msg times.ts times.now times.clock
    refine ⟨new, ?_⟩
    rw [onMessage]
    split_ifs
    · dsimp only
      split
      · exact since_same h hbehav rfl (fun _ => rfl) fun _ => rfl
      · exact since_same h hbehav rfl (fun _ => rfl) fun _ => rfl
    · exact since_same h rfl rfl (fun _ => rfl) fun _ => rfl

theorem since_step (h : Since ops format timed paired s t new) (a : Act)
    (htimed : timed → a ≠ .resetTiming) (hpaired : paired → ∀ body, a ≠ .setPairs body) :
    ∃ new', Since ops format timed paired s (t.step ops format dumps a) new' := by
  cases a with
  | readable batch => exact (since_keeps ops format timed paired s).readable ⟨new, h⟩ batch
  | pass p => exact (since_keeps ops format timed paired s).pass ⟨new, h⟩ p
  | popCompleted =>
    refine ⟨new, ?_⟩
    rw [step, popCompleted]
    dsimp only
    split
    · exact since_same h rfl rfl (fun _ => rfl) fun _ => rfl
    · exact since_same h rfl rfl (fun _ => rfl) fun _ => rfl
  | checkTimeouts now wall clock =>
    refine ⟨new, since_same h ?_ rfl (fun _ => rfl) fun _ => rfl⟩
    rw [step, DiagnosticsAggregator.checkPeriodicTimeouts, h.behav]
    exact h.behav
  | update now monotonic =>
    refine ⟨new, ?_⟩
    rw [step, update]
    split
    · exact since_same h rfl rfl (fun _ => rfl) fun _ => rfl
    · exact h
  | setPairs body =>
    exact ⟨new, since_same h rfl rfl (fun _ => rfl) fun hp => absurd rfl (hpaired hp body)⟩
  | resetTiming => exact ⟨new, since_same h rfl rfl (fun ht => absurd rfl (htimed ht)) fun _ => rfl⟩
  | poll poller => exact ⟨new, since_same h rfl rfl (fun _ => rfl) fun _ => rfl⟩
  | arm body => exact ⟨new, since_same h rfl rfl (fun _ => rfl) fun _ => rfl⟩
  | disarm => exact ⟨new, since_same h rfl rfl (fun _ => rfl) fun _ => rfl⟩
  | fire => exact ⟨new, since_same h rfl rfl (fun _ => rfl) fun _ => rfl⟩
  | annotate kernelTs arbId note now =>
    exact ⟨new, since_same h rfl rfl (fun _ => rfl) fun _ => rfl⟩

variable (ops format dumps) in
theorem since_run (hbehav : s.diag.behav = none) (acts : List Act) :
    ∃ new, Since ops format (.resetTiming ∉ acts) (∀ body, .setPairs body ∉ acts) s
      (s.run ops format dumps acts) new := by
  refine List.foldlRecOn (motive := fun t => ∃ new, Since ops format _ _ s t new) acts _ ?_ ?_
  · exact ⟨[], hbehav, (List.append_nil _).symm, fun _ => rfl, fun _ => rfl⟩
  · rintro t ⟨new, h⟩ a ha
    refine since_step h a ?_ ?_
    · rintro hnot rfl
      exact hnot ha
    · rintro hnot body rfl
      exact hnot body ha

/-- In every run of the server, whatever its tasks and requests do and in whatever order, the store,
the bus load and the table of frames have seen exactly the frames that the loop handed on, in that
order, and the trigger too but for one at which an exception ended the loop; each session that was
completed and popped is logged once. From any point on, the timing and the monitor of latencies have
seen exactly the frames handed on since, as long as no request resets the one or configures the
other. -/
theorem consumers_agree {file : Option PairsFile} (hstart : start file = some s) (acts : List Act) :
    let t := s.run ops format dumps acts
    t.frameStore = t.loop.emitted.foldl FrameStore.append .init ∧
    t.busLoad = BusLoadMonitor.run 1000000 1 t.loop.emitted ∧
    t.logged .frame = t.loop.emitted.map (DiagLogger.frameRow · false) ∧
    (∃ seen, Collects dumps t.trigger (t.logged .cap) seen ∧
      (seen = t.loop.emitted ∨ t.running = false ∧ seen = t.loop.emitted.dropLast)) ∧
    ∀ pre post, acts = pre ++ post →
      let u := s.run ops format dumps pre
      ∃ new, t.loop.emitted = u.loop.emitted ++ new ∧
        (.resetTiming ∉ post → t.timing = u.timing.run ops new) ∧
        ((∀ body, .setPairs body ∉ post) →
          t.pairs = ⟨u.pairs.file, u.pairs.latency.run format new⟩) := by
  intro t
  have hfed : Fed dumps t := fed_run ops format dumps hstart acts
  refine ⟨hfed.frameStore, hfed.busLoad, hfed.frames, hfed.trigger, ?_⟩
  intro pre post hsplit u
  obtain ⟨new, h⟩ := since_run ops format dumps (fed_run ops format dumps hstart pre).behav post
  rw [← run_append, ← hsplit] at h
  exact ⟨new, h.emitted, h.timing, h.pairs⟩

def fresh : Server where
  loop := .init Correlator.defaultMaxDeltaNs PartialFrameDetector.abortTimeoutS
  pairs := ⟨none, { explicit := [], patterns := [] }⟩

def noTimes : DiagTimes := ⟨0, 0, fun _ => 0⟩

def twoFrames : List Act :=
  [.readable [(⟨1, 0x123, 0, [], false, false⟩, noTimes), (⟨1, 0x124, 0, [], false, false⟩, noTimes)],
    .pass ⟨[], false, 3000000000, fun _ => ⟨0, fun _ => 0, fun _ => 0, "", 0⟩, 0, fun _ => noTimes⟩]

theorem consumers_agree_twoFrames :
    let t := fresh.run Binary64.ops formatDefault (fun _ => "") twoFrames
    t.frameStore = t.loop.emitted.foldl FrameStore.append .init ∧
    t.busLoad = BusLoadMonitor.run 1000000 1 t.loop.emitted ∧
    t.logged .frame = t.loop.emitted.map (DiagLogger.frameRow · false) ∧
    (∃ seen, Collects (fun _ => "") t.trigger (t.logged .cap) seen ∧
      (seen = t.loop.emitted ∨ t.running = false ∧ seen = t.loop.emitted.dropLast)) ∧
    ∀ pre post, twoFrames = pre ++ post →
      let u := fresh.run Binary64.ops formatDefault (fun _ => "") pre
      ∃ new, t.loop.emitted = u.loop.emitted ++ new ∧
        (.resetTiming ∉ post → t.timing = u.timing.run Binary64.ops new) ∧
        ((∀ body, .setPairs body ∉ post) →
          t.pairs = ⟨u.pairs.file, u.pairs.latency.run formatDefault new⟩) :=
  consumers_agree (show start none = some fresh from rfl) twoFrames

variable (ops) in
theorem count_run (frames : List EnrichedFrame) (arbId : Nat) :
    (((TimingStatsCollector.run ops {} frames).stats.get? arbId).map IdStats.count).getD 0 =
      frames.countP (·.arbId = arbId) := by
  induction frames using List.reverseRecOn with
  | nil => rfl
  | append_singleton frames frame ih =>
    have hrun : TimingStatsCollector.run ops {} (frames ++ [frame]) =
        (TimingStatsCollector.run ops {} frames).ingest ops frame := by
      rw [TimingStatsCollector.run, List.foldl_append]
      rfl
    rw [hrun, TimingStatsCollector.ingest, PyDict.get?_set, List.countP_append, ← ih]
    by_cases hid : arbId = frame.arbId
    · subst hid
      rw [Function.update_self]
      cases (TimingStatsCollector.run ops {} frames).stats.get? frame.arbId <;>
        simp [IdStats.record]
    · rw [Function.update_of_ne hid]
      simp [Ne.symm hid]

theorem count_toDict (st : IdStats) : (st.toDict ops).count = st.count := by
  rw [IdStats.toDict]
  dsimp only
  split_ifs <;> rfl

def hasId (arbId : Nat) (row : Row) : Bool := row[1]? = some (.integer arbId)

theorem hasId_frameRow (arbId : Nat) (frame : EnrichedFrame) (isAborted : Bool) :
    hasId arbId (DiagLogger.frameRow frame isAborted) = decide (frame.arbId = arbId) := by
  simp [hasId, DiagLogger.frameRow]

/-- The count that is shown for an identifier is the number of its rows that were handed to the
logger since the statistics were reset. -/
theorem counts_match_rows {file : Option PairsFile} (hstart : start file = some s)
    (pre post : List Act) (hpost : .resetTiming ∉ post) (arbId : Nat) :
    let before := s.run ops format dumps pre
    let t := s.run ops format dumps (pre ++ .resetTiming :: post)
    (((t.timing.snapshot ops).get? (TimingStatsCollector.idKey arbId)).map IdTiming.count).getD 0 =
      ((t.logged .frame).drop (before.logged .frame).length).countP (hasId arbId) := by
  intro before t
  have hbefore : Fed dumps before := fed_run ops format dumps hstart pre
  have ht : Fed dumps t := fed_run ops format dumps hstart _
  have hreset : (before.step ops format dumps .resetTiming).diag.behav = none := hbefore.behav
  obtain ⟨new, h⟩ := since_run ops format dumps hreset post
  have hrun : t = (before.step ops format dumps .resetTiming).run ops format dumps post :=
    run_append s pre (.resetTiming :: post)
  rw [← hrun] at h
  have hrows : (t.logged .frame).drop (before.logged .frame).length =
      new.map (DiagLogger.frameRow · false) := by
    rw [ht.frames, hbefore.frames, h.emitted, List.map_append]
    exact List.drop_left
  rw [TimingStatsCollector.get?_snapshot, h.timing hpost, hrows, List.countP_map]
  have hcount := count_run ops new arbId
  calc _ = (((TimingStatsCollector.run ops {} new).stats.get? arbId).map IdStats.count).getD 0 := by
        rw [Option.map_map]
        congr 2
        exact funext count_toDict
    _ = new.countP (·.arbId = arbId) := hcount
    _ = _ := by
        congr 1
        funext frame
        exact (hasId_frameRow arbId frame false).symm

theorem counts_match_rows_twoFrames :
    let before := fresh.run Binary64.ops formatDefault (fun _ => "") []
    let t := fresh.run Binary64.ops formatDefault (fun _ => "") (.resetTiming :: twoFrames)
    (((t.timing.snapshot Binary64.ops).get? (TimingStatsCollector.idKey 0x123)).map
        IdTiming.count).getD 0 =
      ((t.logged .frame).drop (before.logged .frame).length).countP (hasId 0x123) :=
  counts_match_rows (show start none = some fresh from rfl) [] twoFrames (by simp [twoFrames]) 0x123

end CanSniffer.Server
