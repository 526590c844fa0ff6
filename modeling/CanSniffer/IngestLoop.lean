import CanSniffer.CorrelatorRuns
import CanSniffer.PartialFrameDetector

namespace CanSniffer

open Models CorrelatorRuns

/-- The correlator and the detector as `_ingest_loop` and `_on_can_readable` drive them,
with the frames that have been handed on. -/
structure IngestLoop where
  correlator : Correlator
  detector : PartialFrameDetector
  emitted : List EnrichedFrame
  deriving DecidableEq

/-- What one pass of `_ingest_loop` reads: the drained events, each with the monotonic
time at its ingestion, the wall clock of `drain_matched` and the monotonic time of the
sweep. -/
structure Poll where
  events : List (PruEvent × ℚ)
  nowNs : Int
  sweepNow : ℚ

namespace IngestLoop

def init (maxDeltaNs : Int) (timeoutS : ℚ) : IngestLoop := ⟨.init maxDeltaNs, .init timeoutS, []⟩

def ingestEvent (s : IngestLoop) (e : PruEvent × ℚ) : IngestLoop :=
  { s with
    correlator := s.correlator.ingestPru e.1
    detector := s.detector.ingestPru e.1 e.2 }

def handleFrame (s : IngestLoop) (frame : EnrichedFrame) : IngestLoop :=
  { s with
    detector := if frame.pruTsNs.isSome then s.detector.markMatched else s.detector
    emitted := s.emitted ++ [frame] }

def drainFrames (s : IngestLoop) (nowNs : Int) : IngestLoop :=
  let (frames, correlator) := s.correlator.drainMatched nowNs
  frames.foldl handleFrame { s with correlator }

def sweep (s : IngestLoop) (now : ℚ) : IngestLoop :=
  { s with detector := s.detector.sweepTimeouts now }

def poll (s : IngestLoop) (p : Poll) : IngestLoop :=
  ((p.events.foldl ingestEvent s).drainFrames p.nowNs).sweep p.sweepNow

/-- The correlator's share of `_on_can_readable`. -/
def onCanReadable (s : IngestLoop) (batch : List RawCanMessage) : IngestLoop :=
  batch.foldl (fun s msg =>
    if msg.isErrorFrame then s else { s with correlator := s.correlator.ingestFrame msg }) s

inductive Act
  | readable (batch : List RawCanMessage)
  | poll (p : Poll)

def step (s : IngestLoop) : Act → IngestLoop
  | .readable batch => s.onCanReadable batch
  | .poll p => s.poll p

def run (maxDeltaNs : Int) (timeoutS : ℚ) (acts : List Act) : IngestLoop :=
  acts.foldl step (init maxDeltaNs timeoutS)

def Act.ops : Act → List Op
  | readable batch => (batch.filter (!·.isErrorFrame)).map .ingestFrame
  | poll p => p.events.map (fun e => .ingestPru e.1) ++ [.drainMatched p.nowNs]

def Act.entries : Act → List Pending
  | readable _ => []
  | poll p => (p.events.filter (·.1.type = .sof)).map fun e => ⟨e.1, e.2⟩

def session (s : IngestLoop) : Session := ⟨s.correlator, s.emitted⟩

variable (s : IngestLoop)

theorem session_ingestEvents (events : List (PruEvent × ℚ)) :
    (events.foldl ingestEvent s).session =
      (events.map fun e => Op.ingestPru e.1).foldl Session.step s.session := by
  induction events generalizing s with
  | nil => rfl
  | cons e events ih =>
    rw [List.foldl_cons, List.map_cons, List.foldl_cons, ih]
    rfl

theorem emitted_ingestEvents (events : List (PruEvent × ℚ)) :
    (events.foldl ingestEvent s).emitted = s.emitted := by
  induction events generalizing s with
  | nil => rfl
  | cons e events ih => exact ih (s.ingestEvent e)

theorem emitted_handleFrames (frames : List EnrichedFrame) :
    (frames.foldl handleFrame s).correlator = s.correlator ∧
      (frames.foldl handleFrame s).emitted = s.emitted ++ frames := by
  induction frames generalizing s with
  | nil => exact ⟨rfl, (List.append_nil _).symm⟩
  | cons frame frames ih =>
    rw [List.foldl_cons, (ih _).1, (ih _).2]
    exact ⟨rfl, by simp [handleFrame]⟩

theorem session_drainFrames (nowNs : Int) :
    (s.drainFrames nowNs).session = s.session.step (.drainMatched nowNs) := by
  have h := emitted_handleFrames { s with correlator := (s.correlator.drainMatched nowNs).2 }
    (s.correlator.drainMatched nowNs).1
  simp only [drainFrames, session, h.1, h.2]
  rfl

theorem session_poll (p : Poll) :
    (s.poll p).session = (Act.poll p).ops.foldl Session.step s.session := by
  rw [Act.ops, List.foldl_append, ← session_ingestEvents]
  exact session_drainFrames (p.events.foldl ingestEvent s) p.nowNs

theorem session_onCanReadable (batch : List RawCanMessage) :
    (s.onCanReadable batch).session = (Act.readable batch).ops.foldl Session.step s.session := by
  induction batch generalizing s with
  | nil => rfl
  | cons msg batch ih =>
    rw [onCanReadable, List.foldl_cons, ← onCanReadable, ih]
    cases herr : msg.isErrorFrame <;> simp [Act.ops, herr, session, Session.step]

theorem onCanReadable_frame (batch : List RawCanMessage) :
    (s.onCanReadable batch).detector = s.detector ∧ (s.onCanReadable batch).emitted = s.emitted := by
  induction batch generalizing s with
  | nil => exact ⟨rfl, rfl⟩
  | cons msg batch ih =>
    rw [onCanReadable, List.foldl_cons, ← onCanReadable, (ih _).1, (ih _).2]
    split <;> exact ⟨rfl, rfl⟩

theorem session_step (a : Act) : (s.step a).session = a.ops.foldl Session.step s.session := by
  cases a with
  | readable batch => exact session_onCanReadable s batch
  | poll p => exact session_poll s p

theorem detector_step (I : PartialFrameDetector → Prop)
    (hpru : ∀ d event now, I d → I (d.ingestPru event now)) (hmark : ∀ d, I d → I d.markMatched)
    (hsweep : ∀ d now, I d → I (d.sweepTimeouts now)) (a : Act) (h : I s.detector) :
    I (s.step a).detector := by
  cases a with
  | readable batch => exact (onCanReadable_frame s batch).1 ▸ h
  | poll p =>
    have hevents : I (p.events.foldl ingestEvent s).detector :=
      List.foldlRecOn p.events ingestEvent h fun t ht e _ => hpru t.detector e.1 e.2 ht
    apply hsweep
    rw [drainFrames]
    refine List.foldlRecOn (motive := fun t : IngestLoop => I t.detector) _ handleFrame hevents ?_
    intro t ht frame _
    rw [handleFrame]
    split
    · exact hmark _ ht
    · exact ht

theorem run_concat (maxDeltaNs : Int) (timeoutS : ℚ) (acts : List Act) (a : Act) :
    run maxDeltaNs timeoutS (acts ++ [a]) = (run maxDeltaNs timeoutS acts).step a := by
  rw [run, List.foldl_append]
  rfl

/-- The loop drives its correlator through a run of the correlator alone. -/
theorem session_run (maxDeltaNs : Int) (timeoutS : ℚ) (acts : List Act) :
    (run maxDeltaNs timeoutS acts).session = Session.run maxDeltaNs (acts.flatMap Act.ops) := by
  induction acts using List.reverseRecOn with
  | nil => rfl
  | append_singleton acts a ih =>
    rw [run_concat, session_step, ih]
    simp [Session.run, List.flatMap_append, List.foldl_append]

end IngestLoop
end CanSniffer
