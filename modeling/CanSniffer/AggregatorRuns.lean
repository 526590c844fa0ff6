import CanSniffer.DiagnosticsAggregator
import CanSniffer.MonitorRuns

namespace CanSniffer.DiagnosticsAggregator

open Library Models

inductive Call
  | pruEvent (event : PruEvent) (now ts : ℚ) (clock : Nat → ℚ)
  | abort (evt : AbortedFrameEvent) (now ts : ℚ) (clock : Nat → ℚ)
  | errorFrame (msg : RawCanMessage) (decoded now : ℚ) (clock : Nat → ℚ)
  | frame (frame : EnrichedFrame) (now : ℚ) (wall clock : Nat → ℚ)
  | checkPeriodicTimeouts (now : ℚ) (wall clock : Nat → ℚ)
  | snapshot (now monotonic : ℚ)
  | poll (poller : TecRecPoller)

def step (d : DiagnosticsAggregator) : Call → DiagnosticsAggregator
  | .pruEvent event now ts clock => d.ingestPruEvent event now ts clock
  | .abort evt now ts clock => d.ingestAbort evt now ts clock
  | .errorFrame msg decoded now clock => (d.ingestErrorFrame msg decoded now clock).2
  | .frame frame now wall clock => (d.ingestFrame frame now wall clock).1
  | .checkPeriodicTimeouts now wall clock => (d.checkPeriodicTimeouts now wall clock).1
  | .snapshot now monotonic => (d.snapshot now monotonic).2
  | .poll poller => { d with tecRec := d.tecRec.map fun _ => poller }

def run (d : DiagnosticsAggregator) (calls : List Call) : DiagnosticsAggregator :=
  calls.foldl step d

def submissions (d : DiagnosticsAggregator) : Call → List (Alert × ℚ)
  | .pruEvent event now ts clock => timed clock (d.sqm.ingestPruEvent event now ts).pendingAlerts
  | .abort evt now ts clock => timed clock (d.sqm.ingestAbort evt now ts).pendingAlerts
  | .errorFrame msg decoded now clock =>
    match ErrorDecoder.decode msg decoded with
    | none => []
    | some err =>
      let recent := ((d.errTs ++ [now]).filter fun t => Binary64.sub now t < 1).length
      timed clock (errorAlerts recent err now)
  | .frame frame now wall clock =>
    match d.behav with
    | none => []
    | some behav =>
      let (behav, raised) := behav.ingest frame now wall
      if raised then [] else timed clock behav.pendingAlerts
  | .checkPeriodicTimeouts now wall clock =>
    match d.behav with
    | none => []
    | some behav =>
      let (behav, raised) := behav.checkTimeouts now wall
      if raised then [] else timed clock behav.pendingAlerts
  | .snapshot _ _ | .poll _ => []

theorem step_alerts (d : DiagnosticsAggregator) (c : Call) :
    (d.step c).alerts = submitAll d.alerts (d.submissions c) := by
  cases c with
  | pruEvent event now ts clock => rfl
  | abort evt now ts clock => rfl
  | errorFrame msg decoded now clock =>
    rw [step, ingestErrorFrame, submissions]
    cases ErrorDecoder.decode msg decoded <;> rfl
  | frame frame now wall clock =>
    rw [step, ingestFrame, submissions]
    cases d.behav with
    | none => rfl
    | some behav =>
      dsimp only
      split_ifs <;> rfl
  | checkPeriodicTimeouts now wall clock =>
    rw [step, DiagnosticsAggregator.checkPeriodicTimeouts, submissions]
    cases d.behav with
    | none => rfl
    | some behav =>
      dsimp only
      split_ifs <;> rfl
  | snapshot now monotonic => rfl
  | poll poller => rfl

theorem run_concat (d : DiagnosticsAggregator) (calls : List Call) (c : Call) :
    d.run (calls ++ [c]) = (d.run calls).step c := by
  rw [run, List.foldl_append]
  rfl

def start (db : BehavioralMonitor.Database) (boot : Nat → ℚ) (tecRec : Option TecRecPoller) :
    DiagnosticsAggregator :=
  { behav := some (BehavioralMonitor.init db boot), tecRec }

structure Fresh (d : DiagnosticsAggregator) : Prop where
  sqm : ∀ a ∈ d.sqm.pendingAlerts, a.resolved = false
  behav : ∀ m, d.behav = some m → ∀ a ∈ m.pendingAlerts, a.resolved = false

variable {d : DiagnosticsAggregator}

theorem mem_of_mem_timed {clock : Nat → ℚ} {alerts : List Alert} {p : Alert × ℚ}
    (h : p ∈ timed clock alerts) : p.1 ∈ alerts := by
  obtain ⟨⟨a, i⟩, hmem, rfl⟩ := List.mem_map.mp h
  exact List.fst_mem_of_mem_zipIdx hmem

theorem fresh_append {alerts : List Alert} {a : Alert} (h : ∀ b ∈ alerts, b.resolved = false)
    (ha : a.resolved = false) : ∀ b ∈ alerts ++ [a], b.resolved = false := by
  intro b hb
  obtain hb | hb := List.mem_append.mp hb
  · exact h b hb
  · rwa [List.mem_singleton.mp hb]

theorem ingestPruEvent_fresh {sqm : SignalQualityMonitor}
    (h : ∀ a ∈ sqm.pendingAlerts, a.resolved = false) (event : PruEvent) (now ts : ℚ) :
    ∀ a ∈ (sqm.ingestPruEvent event now ts).pendingAlerts, a.resolved = false := by
  rw [SignalQualityMonitor.ingestPruEvent]
  split
  · dsimp only
    split_ifs
    · exact fresh_append h rfl
    · exact fresh_append h rfl
  · exact fresh_append h rfl
  · exact h

theorem ingestAbort_fresh {sqm : SignalQualityMonitor}
    (h : ∀ a ∈ sqm.pendingAlerts, a.resolved = false) (evt : AbortedFrameEvent) (now ts : ℚ) :
    ∀ a ∈ (sqm.ingestAbort evt now ts).pendingAlerts, a.resolved = false := by
  rw [SignalQualityMonitor.ingestAbort]
  dsimp only
  split_ifs
  · exact fresh_append h rfl
  · exact fresh_append h rfl

theorem posts_fresh {ok : Alert → Prop} {m m' : BehavioralMonitor}
    (h : BehavioralMonitor.Posts ok m m') (hm : ∀ a ∈ m.pendingAlerts, a.resolved = false) :
    ∀ a ∈ m'.pendingAlerts, a.resolved = false := by
  obtain ⟨alerts, hok, rfl⟩ := h
  intro a ha
  exact (List.mem_append.mp ha).elim (hm a) fun hnew => (hok a hnew).2

theorem ingest_fresh {m : BehavioralMonitor} (h : ∀ a ∈ m.pendingAlerts, a.resolved = false)
    (frame : EnrichedFrame) (now : ℚ) (wall : Nat → ℚ) :
    ∀ a ∈ (m.ingest frame now wall).1.pendingAlerts, a.resolved = false := by
  obtain ⟨_, _, -, ⟨_, hposts⟩, -⟩ := BehavioralMonitor.ingest_spec m frame now wall
  exact posts_fresh hposts h

theorem errorAlerts_fresh (recent : Nat) (err : DecodedError) (now : ℚ) :
    ∀ a ∈ errorAlerts recent err now, a.resolved = false := by
  rw [errorAlerts]
  intro a ha
  obtain ha | ha := List.mem_append.mp ha
  · split_ifs at ha
    · rw [List.mem_singleton.mp ha]
    · cases ha
  · split_ifs at ha
    · rw [List.mem_singleton.mp ha]
    · cases ha

theorem submissions_fresh (h : Fresh d) (c : Call) :
    ∀ p ∈ d.submissions c, p.1.resolved = false := by
  intro p hp
  cases c with
  | pruEvent event now ts clock =>
    exact ingestPruEvent_fresh h.sqm event now ts p.1 (mem_of_mem_timed hp)
  | abort evt now ts clock => exact ingestAbort_fresh h.sqm evt now ts p.1 (mem_of_mem_timed hp)
  | errorFrame msg decoded now clock =>
    rw [submissions] at hp
    cases hdec : ErrorDecoder.decode msg decoded with
    | none =>
      rw [hdec] at hp
      cases hp
    | some err =>
      rw [hdec] at hp
      exact errorAlerts_fresh _ err now p.1 (mem_of_mem_timed hp)
  | frame frame now wall clock =>
    rw [submissions] at hp
    cases hb : d.behav with
    | none =>
      rw [hb] at hp
      cases hp
    | some m =>
      rw [hb] at hp
      dsimp only at hp
      split_ifs at hp
      · cases hp
      · exact ingest_fresh (h.behav m hb) frame now wall p.1 (mem_of_mem_timed hp)
  | checkPeriodicTimeouts now wall clock =>
    rw [submissions] at hp
    cases hb : d.behav with
    | none =>
      rw [hb] at hp
      cases hp
    | some m =>
      rw [hb] at hp
      dsimp only at hp
      split_ifs at hp
      · cases hp
      · exact posts_fresh (BehavioralMonitor.checkTimeouts_posts m now wall) (h.behav m hb) p.1
          (mem_of_mem_timed hp)
  | snapshot now monotonic => cases hp
  | poll poller => cases hp

theorem Fresh.withBehav (h : Fresh d) {m : BehavioralMonitor}
    (hm : ∀ a ∈ m.pendingAlerts, a.resolved = false) : Fresh { d with behav := some m } where
  sqm := h.sqm
  behav := by
    rintro _ ⟨⟩
    exact hm

theorem Fresh.flush (h : Fresh d) (clock : Nat → ℚ) : Fresh (d.flushAlerts clock) where
  sqm := by simp [flushAlerts, SignalQualityMonitor.drainAlerts]
  behav := h.behav

theorem Fresh.flushBehavioural (h : Fresh d) (clock : Nat → ℚ) :
    Fresh (d.flushBehaviouralAlerts clock) := by
  rw [flushBehaviouralAlerts]
  cases d.behav with
  | none => exact h
  | some m => exact ⟨h.sqm, by rintro _ ⟨⟩; simp⟩

theorem fresh_step (h : Fresh d) (c : Call) : Fresh (d.step c) := by
  cases c with
  | pruEvent event now ts clock =>
    have hsqm : Fresh { d with sqm := d.sqm.ingestPruEvent event now ts } :=
      ⟨ingestPruEvent_fresh h.sqm event now ts, h.behav⟩
    exact hsqm.flush clock
  | abort evt now ts clock =>
    have hsqm : Fresh { d with sqm := d.sqm.ingestAbort evt now ts } :=
      ⟨ingestAbort_fresh h.sqm evt now ts, h.behav⟩
    exact hsqm.flush clock
  | errorFrame msg decoded now clock =>
    rw [step, ingestErrorFrame]
    cases ErrorDecoder.decode msg decoded with
    | none => exact h
    | some err => exact ⟨h.sqm, h.behav⟩
  | frame frame now wall clock =>
    rw [step, ingestFrame]
    cases hb : d.behav with
    | none => exact h
    | some m =>
      have hm := h.withBehav (ingest_fresh (h.behav m hb) frame now wall)
      dsimp only
      split_ifs
      · exact hm
      · exact hm.flushBehavioural clock
  | checkPeriodicTimeouts now wall clock =>
    rw [step, DiagnosticsAggregator.checkPeriodicTimeouts]
    cases hb : d.behav with
    | none => exact h
    | some m =>
      have hm := h.withBehav
        (posts_fresh (BehavioralMonitor.checkTimeouts_posts m now wall) (h.behav m hb))
      dsimp only
      split_ifs
      · exact hm
      · exact hm.flushBehavioural clock
  | snapshot now monotonic => exact ⟨h.sqm, h.behav⟩
  | poll poller => exact ⟨h.sqm, h.behav⟩

theorem fresh_run (db : BehavioralMonitor.Database) (boot : Nat → ℚ)
    (tecRec : Option TecRecPoller) (calls : List Call) :
    Fresh ((start db boot tecRec).run calls) := by
  induction calls using List.reverseRecOn with
  | nil =>
    refine ⟨by simp [run, start], ?_⟩
    rintro _ ⟨⟩
    simp [BehavioralMonitor.init]
  | append_singleton calls c ih =>
    rw [run_concat]
    exact fresh_step ih c

end CanSniffer.DiagnosticsAggregator
