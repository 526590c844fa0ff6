import CanSniffer.ServerLoop

namespace CanSniffer.Server

open Library LatencyPairs Models DiagnosticsAggregator

variable {ops : FloatOps} {format : String → Nat → Option String} {dumps : FrameDict → String}
  {s t : Server} {reads : List EventRead} {errors : List (RawCanMessage × DiagTimes)}

def eventOf : Call → Option PruEvent
  | .pruEvent event _ _ _ => some event
  | .abort _ _ _ _ | .errorFrame _ _ _ _ | .frame _ _ _ _ | .checkPeriodicTimeouts _ _ _
  | .snapshot _ _ | .poll _ => none

def abortOf : Call → Option AbortedFrameEvent
  | .abort evt _ _ _ => some evt
  | .pruEvent _ _ _ _ | .errorFrame _ _ _ _ | .frame _ _ _ _ | .checkPeriodicTimeouts _ _ _
  | .snapshot _ _ | .poll _ => none

def errorFrameOf : Call → Option RawCanMessage
  | .errorFrame msg _ _ _ => some msg
  | .pruEvent _ _ _ _ | .abort _ _ _ _ | .frame _ _ _ _ | .checkPeriodicTimeouts _ _ _
  | .snapshot _ _ | .poll _ => none

def pruRowOf (e : EventRead) : Row := DiagLogger.pruRow e.event e.logged false

def errorRowOf (m : RawCanMessage × DiagTimes) : Option Row :=
  (ErrorDecoder.decode m.1 m.2.ts).map fun err => DiagLogger.errorRow err.toErrorEvent none

/-- The aggregator has been through a run of its own with these events and error frames and with the
aborts that the detector fired, and the logger was handed a row for each of the first two. -/
structure Diagnosed (s : Server) (reads : List EventRead)
    (errors : List (RawCanMessage × DiagTimes)) : Prop where
  calls : ∃ calls, s.diag = DiagnosticsAggregator.run { tecRec := some {} } calls ∧
    calls.filterMap eventOf = reads.map EventRead.event ∧
    calls.filterMap abortOf = s.loop.detector.fired ∧
    calls.filterMap errorFrameOf = errors.map Prod.fst
  pru : s.logged .pru = reads.map pruRowOf
  error : s.logged .error = errors.filterMap errorRowOf

theorem diagnosed_calls (h : Diagnosed s reads errors) (more : List EventRead)
    (others : List (RawCanMessage × DiagTimes)) (calls : List Call)
    (hdiag : t.diag = s.diag.run calls)
    (hevents : calls.filterMap eventOf = more.map EventRead.event)
    (haborts : t.loop.detector.fired = s.loop.detector.fired ++ calls.filterMap abortOf)
    (herrors : calls.filterMap errorFrameOf = others.map Prod.fst)
    (hpru : t.logged .pru = s.logged .pru ++ more.map pruRowOf)
    (herror : t.logged .error = s.logged .error ++ others.filterMap errorRowOf) :
    Diagnosed t (reads ++ more) (errors ++ others) := by
  obtain ⟨before, hrun, hev, hab, herr⟩ := h.calls
  refine ⟨⟨before ++ calls, ?_, ?_, ?_, ?_⟩, ?_, ?_⟩
  · rw [hdiag, hrun]
    exact (List.foldl_append ..).symm
  · rw [List.filterMap_append, hev, hevents, List.map_append]
  · rw [List.filterMap_append, hab, haborts]
  · rw [List.filterMap_append, herr, herrors, List.map_append]
  · rw [hpru, h.pru, List.map_append]
  · rw [herror, h.error, List.filterMap_append]

theorem diagnosed_same (h : Diagnosed s reads errors) (hdiag : t.diag = s.diag)
    (hfired : t.loop.detector.fired = s.loop.detector.fired) (hpru : t.logged .pru = s.logged .pru)
    (herror : t.logged .error = s.logged .error) : Diagnosed t reads errors := by
  have hnone := diagnosed_calls h [] [] [] hdiag rfl
    (by rw [hfired]; exact (List.append_nil _).symm) rfl (by rw [hpru]; exact (List.append_nil _).symm)
    (by rw [herror]; exact (List.append_nil _).symm)
  rwa [List.append_nil, List.append_nil] at hnone

theorem diagnosed_events (h : Diagnosed s reads errors) (events : List EventRead) :
    Diagnosed (events.foldl ingestEvent s) (reads ++ events) errors := by
  induction events generalizing s reads with
  | nil => rwa [List.append_nil]
  | cons e events ih =>
    have hone : Diagnosed (s.ingestEvent e) (reads ++ [e]) (errors ++ []) := by
      refine diagnosed_calls h [e] [] [.pruEvent e.event e.times.now e.times.ts e.times.clock] rfl rfl
        ?_ rfl rfl (List.append_nil _).symm
      rw [ingestEvent, log, IngestLoop.ingestEvent]
      dsimp only
      rw [PartialFrameDetector.ingestPru]
      split_ifs
      · exact (List.append_nil _).symm
      · exact (List.append_nil _).symm
    rw [List.append_nil] at hone
    rw [List.foldl_cons, List.append_cons]
    exact ih hone

theorem fired_handleFrame (loop : IngestLoop) (frame : EnrichedFrame) :
    (loop.handleFrame frame).detector.fired = loop.detector.fired := by
  rw [IngestLoop.handleFrame]
  dsimp only
  split_ifs
  · rw [PartialFrameDetector.markMatched]
    split <;> rfl
  · rfl

theorem diagnosed_handleFrame (hbehav : s.diag.behav = none) (h : Diagnosed s reads errors)
    (frame : EnrichedFrame) (r : FrameRead) :
    Diagnosed (s.handleFrame ops format frame r) reads errors := by
  cases hs : s.running with
  | false => rwa [handleFrame_stopped hs]
  | true =>
    have hspec := handleFrame_spec ops format frame r hs hbehav
    apply diagnosed_same h hspec.diag
    · rw [hspec.loop, fired_handleFrame]
    · rw [hspec.logged]
      rfl
    · rw [hspec.logged]
      rfl

theorem fired_sweepTimeouts (d : PartialFrameDetector) (now : ℚ) :
    d.fired <+: (d.sweepTimeouts now).fired := by
  refine WhileLoop.loop_invariant (fun t : PartialFrameDetector => d.fired <+: t.fired) ?_ _
    List.prefix_rfl
  intro t u hbody ht
  obtain ⟨oldest, rest, -, rfl⟩ := PartialFrameDetector.sweepBody_cases hbody
  exact ht.trans (List.prefix_append _ _)

theorem diagnosed_sweep (h : Diagnosed s reads errors) (p : Pass) :
    Diagnosed (s.sweep p) reads errors := by
  rw [sweep, andThen]
  split_ifs with hs
  · obtain ⟨fired, hfired⟩ := fired_sweepTimeouts s.loop.detector p.sweepNow
    have hnew : ((s.loop.sweep p.sweepNow).detector.fired).drop s.loop.detector.fired.length =
        fired := by
      rw [IngestLoop.sweep]
      dsimp only
      rw [← hfired]
      exact List.drop_left
    have hcalls := diagnosed_calls h [] []
      (t := { s with
        loop := s.loop.sweep p.sweepNow
        diag := fired.zipIdx.foldl (fun diag x => diag.ingestAbort x.1 (p.aborts x.2).now
          (p.aborts x.2).ts (p.aborts x.2).clock) s.diag })
      (fired.zipIdx.map fun x =>
        .abort x.1 (p.aborts x.2).now (p.aborts x.2).ts (p.aborts x.2).clock) ?_ ?_ ?_ ?_
      (List.append_nil _).symm (List.append_nil _).symm
    · rw [List.append_nil, List.append_nil] at hcalls
      dsimp only
      rw [hnew]
      exact hcalls
    · rw [DiagnosticsAggregator.run, List.foldl_map]
      rfl
    · simp [List.filterMap_map, Function.comp_def, eventOf]
    · have haborts : (fired.zipIdx.map fun x => Call.abort x.1 (p.aborts x.2).now
          (p.aborts x.2).ts (p.aborts x.2).clock).filterMap abortOf = fired := by
        rw [List.filterMap_map]
        exact (congrFun List.filterMap_eq_map fired.zipIdx).trans (List.zipIdx_map_fst 0 fired)
      rw [haborts]
      exact hfired.symm
    · simp [List.filterMap_map, Function.comp_def, errorFrameOf]
  · exact h

theorem fst_ingestErrorFrame (diag : DiagnosticsAggregator) (msg : RawCanMessage)
    (decoded now : ℚ) (clock : Nat → ℚ) :
    (diag.ingestErrorFrame msg decoded now clock).1 = ErrorDecoder.decode msg decoded := by
  rw [ingestErrorFrame]
  split
  · rename_i hnone
    exact hnone.symm
  · rename_i err hsome
    exact hsome.symm

theorem diagnosed_onMessage (h : Diagnosed s reads errors) (msg : RawCanMessage)
    (times : DiagTimes) :
    Diagnosed (s.onMessage msg times) reads
      (errors ++ [(msg, times)].filter (·.1.isErrorFrame)) := by
  rw [onMessage]
  split_ifs with herror
  · have hfilter : [(msg, times)].filter (·.1.isErrorFrame) = [(msg, times)] := by simp [herror]
    have hdecode := fst_ingestErrorFrame s.diag msg times.ts times.now times.clock
    rw [hfilter]
    rw [← List.append_nil reads]
    dsimp only
    rw [hdecode]
    cases herr : ErrorDecoder.decode msg times.ts with
    | none =>
      refine diagnosed_calls h [] [(msg, times)] [.errorFrame msg times.ts times.now times.clock] rfl
        rfl (List.append_nil _).symm rfl (List.append_nil _).symm ?_
      simp [errorRowOf, herr]
    | some err =>
      refine diagnosed_calls h [] [(msg, times)] [.errorFrame msg times.ts times.now times.clock] rfl
        rfl (List.append_nil _).symm rfl (List.append_nil _).symm ?_
      simp [errorRowOf, herr, log]
  · have hfilter : [(msg, times)].filter (·.1.isErrorFrame) = [] := by simp [herror]
    rw [hfilter, List.append_nil]
    exact diagnosed_same h rfl rfl rfl rfl

/-- The events that the passes drain from the ring. -/
def eventsRead (acts : List Act) : List EventRead :=
  acts.flatMap fun
    | .pass p => p.events
    | _ => []

def errorFrames (acts : List Act) : List (RawCanMessage × DiagTimes) :=
  acts.flatMap fun
    | .readable batch => batch.filter (·.1.isErrorFrame)
    | _ => []

theorem diagnosed_onCanReadable (h : Diagnosed s reads errors)
    (batch : List (RawCanMessage × DiagTimes)) :
    Diagnosed (s.onCanReadable batch) reads (errors ++ batch.filter (·.1.isErrorFrame)) := by
  induction batch generalizing s errors with
  | nil => rwa [List.filter_nil, List.append_nil]
  | cons m batch ih =>
    have hrest := ih (diagnosed_onMessage h m.1 m.2)
    rwa [List.append_assoc, ← List.filter_append] at hrest

theorem diagnosed_pass (hfed : Fed dumps s) (h : Diagnosed s reads errors) (p : Pass)
    (hs : s.running = true) : Diagnosed (s.pass ops format p) (reads ++ p.events) errors := by
  have hevents : Fed dumps (p.events.foldl ingestEvent s) :=
    List.foldlRecOn p.events ingestEvent hfed fun t ht e _ =>
      (fed_keeps ops format).event t e ht
  have hdrained := (fed_keeps ops format).correlator _
    ((p.events.foldl ingestEvent s).loop.correlator.drainMatched p.nowNs).2 hevents
  have hdiagnosed := diagnosed_events h p.events
  rw [pass_eq hs]
  split_ifs
  · exact diagnosed_same hdiagnosed rfl rfl rfl rfl
  apply diagnosed_sweep
  exact (List.foldlRecOn
    (motive := fun t : Server => Fed dumps t ∧ Diagnosed t (reads ++ p.events) errors) _ _
    ⟨hdrained, diagnosed_same hdiagnosed rfl rfl rfl rfl⟩
    fun t ht f _ => ⟨fed_handleFrame ht.1 f.1 _, diagnosed_handleFrame ht.1.behav ht.2 f.1 _⟩).2

variable (ops format) in
theorem diagnosed_step (hfed : Fed dumps s) (h : Diagnosed s reads errors) (a : Act) :
    Diagnosed (s.step ops format dumps a) (reads ++ if s.running then eventsRead [a] else [])
      (errors ++ errorFrames [a]) := by
  have hbatch : ∀ batch, errorFrames [.readable batch] = batch.filter (·.1.isErrorFrame) :=
    fun _ => List.append_nil _
  have hpass : ∀ p, eventsRead [.pass p] = p.events := fun _ => List.append_nil _
  have hread : eventsRead [a] = [] → (if s.running then eventsRead [a] else []) = [] := by
    intro hnil
    rw [hnil, ite_self]
  -- the calls that neither events nor error frames come with
  have hcalls : ∀ {t : Server} (calls : List Call), t.diag = s.diag.run calls →
      calls.filterMap eventOf = [] → calls.filterMap abortOf = [] →
      calls.filterMap errorFrameOf = [] → t.loop = s.loop → t.logged .pru = s.logged .pru →
      t.logged .error = s.logged .error → Diagnosed t (reads ++ []) (errors ++ []) := by
    intro t calls hdiag hev hab herr hloop hpru herror
    refine diagnosed_calls h [] [] calls hdiag hev ?_ herr ?_ ?_
    · rw [hloop, hab, List.append_nil]
    · rw [hpru]
      exact (List.append_nil _).symm
    · rw [herror]
      exact (List.append_nil _).symm
  cases a with
  | readable batch =>
    rw [hread rfl, List.append_nil, hbatch]
    exact diagnosed_onCanReadable h batch
  | pass p =>
    change Diagnosed (s.pass ops format p) _ (errors ++ [])
    rw [List.append_nil, hpass]
    cases hs : s.running with
    | true => exact diagnosed_pass hfed h p hs
    | false =>
      rw [pass, andThen, hs]
      simpa using h
  | popCompleted =>
    rw [hread rfl, step, popCompleted]
    dsimp only
    split
    · exact hcalls [] rfl rfl rfl rfl rfl rfl rfl
    · exact hcalls [] rfl rfl rfl rfl rfl rfl rfl
  | checkTimeouts now wall clock =>
    rw [hread rfl]
    exact hcalls [.checkPeriodicTimeouts now wall clock] rfl rfl rfl rfl rfl rfl rfl
  | poll poller =>
    rw [hread rfl]
    exact hcalls [.poll poller] rfl rfl rfl rfl rfl rfl rfl
  | update now monotonic =>
    rw [hread rfl, step, update]
    split
    · exact hcalls [.snapshot now monotonic] rfl rfl rfl rfl rfl rfl rfl
    · exact hcalls [] rfl rfl rfl rfl rfl rfl rfl
  | _ =>
    rw [hread rfl]
    exact hcalls [] rfl rfl rfl rfl rfl rfl rfl

variable (ops format dumps) in
theorem diagnosed_run {file : Option PairsFile} (hstart : start file = some s) (acts : List Act) :
    ∃ reads, Diagnosed (s.run ops format dumps acts) reads (errorFrames acts) ∧
      reads <+: eventsRead acts ∧
      ((s.run ops format dumps acts).running = true → reads = eventsRead acts) := by
  induction acts using List.reverseRecOn with
  | nil =>
    obtain ⟨explicit, patterns, -, rfl⟩ := start_eq hstart
    exact ⟨[], ⟨⟨[], rfl, rfl, rfl, rfl⟩, rfl, rfl⟩, List.prefix_rfl, fun _ => rfl⟩
  | append_singleton acts a ih =>
    obtain ⟨reads, h, hprefix, hall⟩ := ih
    have hstep := diagnosed_step ops format (fed_run ops format dumps hstart acts) h a
    have hevents : eventsRead (acts ++ [a]) = eventsRead acts ++ eventsRead [a] :=
      List.flatMap_append
    have herrors : errorFrames (acts ++ [a]) = errorFrames acts ++ errorFrames [a] :=
      List.flatMap_append
    rw [run_concat, hevents, herrors]
    refine ⟨_, hstep, ?_, fun hrunning => ?_⟩
    · split_ifs with hs
      · rw [hall hs]
      · rw [List.append_nil]
        exact hprefix.trans (List.prefix_append _ _)
    · have hs := running_of_step dumps a hrunning
      rw [if_pos hs, hall hs]

end CanSniffer.Server
