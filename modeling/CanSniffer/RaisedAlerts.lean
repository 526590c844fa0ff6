import CanSniffer.Sniffer

namespace CanSniffer

open Library Library.RingSlots Models Firmware

/-- The firmware has written an event for each capture, and no slot of them has got another type. -/
structure MainLoop.WritesSofs (main : MainLoop) : Prop where
  index : main.pru.shm.writeIdx.toNat = main.captured.length
  sofs : ∀ i < main.captured.length, (main.pru.shm.ring (slot 256 i)).type = evtSof

theorem MainLoop.writesSofs_step {main : MainLoop} (h : main.WritesSofs) (a : MainLoop.Act)
    (hlength : (main.step a).captured.length < 2 ^ 32) : (main.step a).WritesSofs := by
  cases a with
  | edge t => exact ⟨h.index, h.sofs⟩
  | check t =>
    obtain ⟨hpru, hcaptured⟩ | ⟨hpru, hcaptured⟩ := Watched.check_cases main t
    · refine ⟨?_, ?_⟩
      · rw [hpru, hcaptured]
        exact h.index
      · rw [hpru, hcaptured]
        exact h.sofs
    · rw [hcaptured, List.length_append, List.length_singleton] at hlength
      rw [IepTime.capture_eq, Pru.writeSof, writeEvent_eq] at hpru
      refine ⟨?_, ?_⟩
      · rw [hpru, hcaptured, List.length_append, List.length_singleton]
        change (main.pru.shm.writeIdx + 1).toNat = _
        rw [UInt32.toNat_add, h.index]
        exact Nat.mod_eq_of_lt hlength
      · intro i hi
        rw [hcaptured, List.length_append, List.length_singleton] at hi
        rw [hpru]
        change (put main.pru.shm.ring main.pru.shm.writeIdx.toNat _ (slot 256 i)).type = evtSof
        rw [h.index, put, Function.update_apply]
        split_ifs with hslot
        · rfl
        · refine h.sofs i (lt_of_le_of_ne (Nat.le_of_lt_succ hi) ?_)
          rintro rfl
          exact hslot rfl

theorem MainLoop.writesSofs_run (shm : PruShmT) (acts : List MainLoop.Act)
    (hlength : (MainLoop.run shm acts).captured.length < 2 ^ 32) :
    (MainLoop.run shm acts).WritesSofs := by
  induction acts using List.reverseRecOn with
  | nil => exact ⟨rfl, nofun⟩
  | append_singleton acts a ih =>
    have hrun : MainLoop.run shm (acts ++ [a]) = (MainLoop.run shm acts).step a :=
      List.foldl_append
    rw [hrun] at hlength ⊢
    have hgrows := Watched.captured_grows ⟨MainLoop.run shm acts, ⟨0, 0⟩, 0, []⟩ a
    exact writesSofs_step (ih (hgrows.length_le.trans_lt hlength)) a hlength

namespace Watched

open PruShm Pipeline RingHistory

/-- What the firmware has written and what has been yielded are SOFs. -/
structure YieldsSofs (s : Watched) : Prop where
  main : s.main.WritesSofs
  reader : s.reader.readIdx ≤ s.main.captured.length
  drained : ∀ poll ∈ s.drained, ∀ e ∈ poll.2, e.type = .sof

variable {s : Watched}

theorem yieldsSofs_pru (h : YieldsSofs s) (a : MainLoop.Act)
    (hlength : (s.main.step a).captured.length < 2 ^ 32) : YieldsSofs (s.step (.pru a)) where
  main := MainLoop.writesSofs_step h.main a hlength
  reader := h.reader.trans (s.captured_grows a).length_le
  drained := h.drained

theorem yieldsSofs_poll (h : YieldsSofs s) (hlength : s.main.captured.length < 2 ^ 32) (t : Nat)
    (nowNs : Int) : YieldsSofs (s.step (.poll t nowNs)) := by
  have hindex := h.main.index
  have hsane : Sane ⟨s.main.pru.shm, s.reader⟩ := by
    refine ⟨h.reader.trans_lt hlength, fun i _ hi => ⟨.sof, ?_⟩⟩
    exact h.main.sofs i (hi.trans_eq hindex)
  obtain ⟨-, hdrain⟩ := drain_of_le hsane (h.reader.trans_eq hindex.symm) nowNs
  dsimp only at hdrain
  refine ⟨h.main, ?_, ?_⟩
  · rw [step, drainAt, path]
    dsimp only
    rw [hdrain]
    exact hindex.le
  · intro poll hpoll e he
    obtain hold | hnew := List.mem_append.mp hpoll
    · exact h.drained poll hold e he
    · rw [List.mem_singleton.mp hnew, drainAt, path] at he
      dsimp only at he
      rw [hdrain] at he
      obtain ⟨i, hi, hdecode⟩ := List.mem_filterMap.mp he
      obtain ⟨hlo, hhi⟩ := List.mem_range'_1.mp hi
      rw [decodeEvent_sof (h.main.sofs i (by omega))] at hdecode
      cases hdecode
      rfl

end Watched

def raised : List AlertCategory := [.abortedFrame, .repeatedAborts, .repeatedErrorFrames, .busOff]

namespace AlertManager

variable {mgr : AlertManager}

theorem raised_modify (h : ∀ a ∈ mgr.history, a.category ∈ raised) (ref : Nat) {f : Alert → Alert}
    (hf : ∀ a, (f a).triple = a.triple) :
    ∀ a ∈ (mgr.modify ref f hf).history, a.category ∈ raised := by
  intro a ha
  obtain ⟨i, hi⟩ := List.mem_iff_getElem?.mp ha
  rw [modify, List.getElem?_modify] at hi
  obtain ⟨b, hb, rfl⟩ := Option.map_eq_some_iff.mp hi
  have hcategory : (if ref = i then f b else b).category = b.category := by
    split_ifs
    · exact congrArg Triple.category (hf b)
    · rfl
  rw [hcategory]
  exact h b (List.mem_of_getElem? hb)

theorem raised_submit (h : ∀ a ∈ mgr.history, a.category ∈ raised) {alert : Alert}
    (hraised : alert.category ∈ raised) (now : ℚ) :
    ∀ a ∈ (mgr.submit alert now).2.history, a.category ∈ raised := by
  have haccept : ∀ a ∈ (mgr.accept alert).history, a.category ∈ raised := by
    intro a ha
    obtain ha | ha := List.mem_append.mp ha
    · exact h a ha
    · rwa [List.mem_singleton.mp ha]
  rw [submit]
  split
  · dsimp only
    split_ifs
    · exact raised_modify h _ triple_countUp
    · exact raised_modify h _ (triple_refire now)
    · exact haccept
  · exact haccept

end AlertManager

namespace DiagnosticsAggregator

/-- The aggregator without a database, when it has seen no event but SOFs. -/
structure NoSignals (d : DiagnosticsAggregator) : Prop where
  behav : d.behav = none
  glitches : d.sqm.glitchWindow = []
  runaway : d.sqm.runawayActive = false
  pending : ∀ a ∈ d.sqm.pendingAlerts, a.category ∈ raised
  history : ∀ a ∈ d.alerts.history, a.category ∈ raised

variable {d : DiagnosticsAggregator}

theorem raised_submitAll {mgr : AlertManager} (h : ∀ a ∈ mgr.history, a.category ∈ raised)
    {alerts : List (Alert × ℚ)} (hraised : ∀ p ∈ alerts, p.1.category ∈ raised) :
    ∀ a ∈ (submitAll mgr alerts).history, a.category ∈ raised :=
  List.foldlRecOn (motive := fun mgr : AlertManager => ∀ a ∈ mgr.history, a.category ∈ raised) alerts
    _ h fun _ hmgr p hp => AlertManager.raised_submit hmgr (hraised p hp) p.2

theorem raised_ingestAbort (h : ∀ a ∈ d.sqm.pendingAlerts, a.category ∈ raised)
    (evt : AbortedFrameEvent) (now ts : ℚ) :
    ∀ a ∈ (d.sqm.ingestAbort evt now ts).pendingAlerts, a.category ∈ raised := by
  have hemit (alert : Alert) (hraised : alert.category ∈ raised) :
      ∀ a ∈ d.sqm.pendingAlerts ++ [alert], a.category ∈ raised :=
    List.forall_mem_append.mpr ⟨h, List.forall_mem_singleton.mpr hraised⟩
  rw [SignalQualityMonitor.ingestAbort]
  dsimp only
  split_ifs
  · exact hemit _ (show AlertCategory.repeatedAborts ∈ raised by decide)
  · exact hemit _ (show AlertCategory.abortedFrame ∈ raised by decide)

theorem raised_errorAlerts (recent : Nat) (err : DecodedError) (now : ℚ) :
    ∀ a ∈ errorAlerts recent err now, a.category ∈ raised := by
  rw [errorAlerts, List.forall_mem_append]
  constructor
  · split_ifs
    · exact List.forall_mem_singleton.mpr
        (show AlertCategory.repeatedErrorFrames ∈ raised by decide)
    · exact List.forall_mem_nil _
  · split_ifs
    · exact List.forall_mem_singleton.mpr (show AlertCategory.busOff ∈ raised by decide)
    · exact List.forall_mem_nil _

theorem noSignals_flush (h : NoSignals d) {sqm : SignalQualityMonitor}
    (hglitches : sqm.glitchWindow = []) (hrunaway : sqm.runawayActive = false)
    (hpending : ∀ a ∈ sqm.pendingAlerts, a.category ∈ raised) (clock : Nat → ℚ) :
    NoSignals ({ d with sqm }.flushAlerts clock) where
  behav := h.behav
  glitches := hglitches
  runaway := hrunaway
  pending := List.forall_mem_nil _
  history := raised_submitAll h.history fun p hp => hpending p.1 (mem_of_mem_timed hp)

theorem noSignals_step (h : NoSignals d) {c : Call}
    (hsof : ∀ e ∈ Server.eventOf c, e.type = .sof) : NoSignals (d.step c) := by
  cases c with
  | pruEvent event now ts clock =>
    have hsqm : d.sqm.ingestPruEvent event now ts = d.sqm := by
      rw [SignalQualityMonitor.ingestPruEvent, hsof event rfl]
    rw [step, ingestPruEvent, hsqm]
    exact noSignals_flush h h.glitches h.runaway h.pending clock
  | abort evt now ts clock =>
    have hsame : (d.sqm.ingestAbort evt now ts).glitchWindow = d.sqm.glitchWindow ∧
        (d.sqm.ingestAbort evt now ts).runawayActive = d.sqm.runawayActive := by
      rw [SignalQualityMonitor.ingestAbort]
      dsimp only
      split_ifs <;> exact ⟨rfl, rfl⟩
    exact noSignals_flush h (hsame.1.trans h.glitches) (hsame.2.trans h.runaway)
      (raised_ingestAbort h.pending evt now ts) clock
  | errorFrame msg decoded now clock =>
    rw [step, ingestErrorFrame]
    cases ErrorDecoder.decode msg decoded with
    | none => exact h
    | some err =>
      refine ⟨h.behav, h.glitches, h.runaway, h.pending, raised_submitAll h.history fun p hp => ?_⟩
      exact raised_errorAlerts _ err now p.1 (mem_of_mem_timed hp)
  | frame frame now wall clock =>
    rw [step, ingestFrame, h.behav]
    exact h
  | checkPeriodicTimeouts now wall clock =>
    rw [step, DiagnosticsAggregator.checkPeriodicTimeouts, h.behav]
    exact h
  | snapshot now monotonic =>
    refine ⟨h.behav, ?_, h.runaway, h.pending, h.history⟩
    exact congrArg (SignalQualityMonitor.trim · now) h.glitches
  | poll poller => exact ⟨h.behav, h.glitches, h.runaway, h.pending, h.history⟩

theorem noSignals_run (h : NoSignals d) (calls : List Call)
    (hsof : ∀ e ∈ calls.filterMap Server.eventOf, e.type = .sof) : NoSignals (d.run calls) :=
  List.foldlRecOn calls step h fun _ hd c hc =>
    noSignals_step hd fun e he => hsof e (List.mem_filterMap.mpr ⟨c, hc, he⟩)

theorem snapshot_noSignals (h : NoSignals d) (now monotonic : ℚ) :
    ∃ snapshot, (d.snapshot now monotonic).1 = some snapshot ∧
      snapshot.signalQuality.glitches1s = 0 ∧ snapshot.signalQuality.dominantRunaway = false ∧
      snapshot.behavioral = none := by
  have hbehav : d.behavioral monotonic = some none := by rw [behavioral, h.behav]
  rw [DiagnosticsAggregator.snapshot, hbehav]
  refine ⟨_, rfl, ?_, h.runaway, rfl⟩
  rw [SignalQualityMonitor.snapshot, h.glitches]
  rfl

end DiagnosticsAggregator

namespace Sniffer

open LatencyPairs

variable {ops : FloatOps} {format : String → Nat → Option String} {dumps : FrameDict → String}
  {s : Sniffer}

variable (ops format dumps) in
theorem captured_run (s : Sniffer) (acts : List Act) :
    s.watched.main.captured <+: (s.run ops format dumps acts).watched.main.captured :=
  List.foldlRecOn (motive := fun t : Sniffer => s.watched.main.captured <+: t.watched.main.captured)
    acts (step ops format dumps) List.prefix_rfl fun t ht a _ =>
      ht.trans (captured_grows ops format dumps t a)

theorem yieldsSofs_run (h : s.watched.YieldsSofs) (acts : List Act)
    (hlength : (s.run ops format dumps acts).watched.main.captured.length < 2 ^ 32) :
    (s.run ops format dumps acts).watched.YieldsSofs := by
  induction acts using List.reverseRecOn with
  | nil => exact h
  | append_singleton acts a ih =>
    rw [run, List.foldl_append] at hlength ⊢
    have hgrows := captured_grows ops format dumps (s.run ops format dumps acts) a
    have hbefore := ih (hgrows.length_le.trans_lt hlength)
    cases a with
    | pru a => exact Watched.yieldsSofs_pru hbefore a hlength
    | other a => exact hbefore
    | pass t drainNs r =>
      have hpoll := Watched.yieldsSofs_poll hbefore (hgrows.length_le.trans_lt hlength) t drainNs
      change (Sniffer.step ops format dumps _ (.pass t drainNs r)).watched.YieldsSofs
      rw [step]
      split_ifs
      · exact hpoll
      · exact hbefore

/-- The firmware tells of nothing but SOFs. So in every run of it and the server, in which the index
of the ring does not go round, the logger gets no event of another type, the diagnostics show no
glitch and no dominant bus, and no alert is raised but on aborted frames, on error frames and on the
bus-off state. -/
theorem alerts_raised (shm : PruShmT) (pre : List MainLoop.Act) (reader : PruShm) (nowNs : Int)
    (hinit : PruShm.init (MainLoop.run shm pre).pru.shm nowNs = some reader) (polled : Nat)
    {file : Option PairsFile} {server : Server} (hstart : Server.start file = some server)
    (acts : List Act) :
    let s := run ops format dumps ⟨⟨MainLoop.run shm pre, reader, polled, []⟩, server⟩ acts
    s.watched.main.captured.length < 2 ^ 32 →
    (∀ row ∈ s.server.logged .pru, row[1]? = some (.integer PruEventType.sof.value)) ∧
      (∀ a ∈ s.server.diag.alerts.history, a.category ∈ raised) ∧
      ∀ now monotonic, ∃ snapshot, (s.server.diag.snapshot now monotonic).1 = some snapshot ∧
        snapshot.signalQuality.glitches1s = 0 ∧ snapshot.signalQuality.dominantRunaway = false ∧
        snapshot.behavioral = none := by
  intro s hlength
  have hgrows := captured_run ops format dumps
    ⟨⟨MainLoop.run shm pre, reader, polled, []⟩, server⟩ acts
  have hmain := MainLoop.writesSofs_run shm pre (hgrows.length_le.trans_lt hlength)
  have hreader := (RingHistory.init_sane hinit).2.trans hmain.index
  have hyields : s.watched.YieldsSofs :=
    yieldsSofs_run ⟨hmain, hreader.le, List.forall_mem_nil _⟩ acts hlength
  obtain ⟨served, hserver, hevents, -⟩ :=
    served_run ops format dumps (w := ⟨MainLoop.run shm pre, reader, polled, []⟩) rfl server acts
  have hsof : ∀ e ∈ Server.eventsRead served, e.event.type = .sof := by
    intro e he
    obtain ⟨poll, hpoll, hmem⟩ := List.mem_flatMap.mp (hevents ▸ List.mem_map_of_mem he)
    exact hyields.drained poll hpoll e.event hmem
  obtain ⟨reads, hdiagnosed, hreads, -⟩ := Server.diagnosed_run ops format dumps hstart served
  obtain ⟨calls, hrun, hcalls, -⟩ := hdiagnosed.calls
  rw [← hserver] at hdiagnosed hrun
  have hnone : s.server.diag.NoSignals := by
    rw [hrun]
    refine DiagnosticsAggregator.noSignals_run
      ⟨rfl, rfl, rfl, List.forall_mem_nil _, List.forall_mem_nil _⟩ calls fun e he => ?_
    rw [hcalls] at he
    obtain ⟨x, hx, rfl⟩ := List.mem_map.mp he
    exact hsof x (hreads.subset hx)
  refine ⟨fun row hrow => ?_, hnone.history, DiagnosticsAggregator.snapshot_noSignals hnone⟩
  rw [hdiagnosed.pru] at hrow
  obtain ⟨x, hx, rfl⟩ := List.mem_map.mp hrow
  rw [Server.pruRowOf, DiagLogger.pruRow, hsof x (hreads.subset hx)]
  rfl

def abortedSof : List Act :=
  let read (sweepNow : ℚ) : PassRead := ⟨fun _ => 0, fun _ => Server.noTimes, fun _ => 0,
    1700000000036000000, fun _ => ⟨0, fun _ => 0, fun _ => 0, "", 0⟩, sweepNow,
    fun _ => Server.noTimes⟩
  [.pru (.check 31000000), .pru (.edge 32000000), .pru (.check 33000000),
    .pass 34000000 1700000000034000000 (read 0), .pass 1034000000 1700000001034000000 (read 1)]

theorem alerts_raised_abortedSof :
    let s := run Binary64.ops formatDefault (fun _ => "") ⟨attached, Server.fresh⟩ abortedSof
    s.server.diag.alerts.history.map (·.category) = [.abortedFrame] ∧
      (∀ row ∈ s.server.logged .pru, row[1]? = some (.integer PruEventType.sof.value)) ∧
      (∀ a ∈ s.server.diag.alerts.history, a.category ∈ raised) ∧
      ∀ now monotonic, ∃ snapshot, (s.server.diag.snapshot now monotonic).1 = some snapshot ∧
        snapshot.signalQuality.glitches1s = 0 ∧ snapshot.signalQuality.dominantRunaway = false ∧
        snapshot.behavioral = none :=
  ⟨by decide +kernel, alerts_raised MainLoop.ringOff MainLoop.twoFrames ⟨2, 1700000000001000000⟩
    1700000000022000000 (by decide +kernel) 22000000
    (show Server.start none = some Server.fresh from rfl) abortedSof (by decide +kernel)⟩

end Sniffer
end CanSniffer
