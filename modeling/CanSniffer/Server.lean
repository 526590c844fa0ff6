import CanSniffer.AggregatorRuns
import CanSniffer.BusLoadMonitor
import CanSniffer.Captures
import CanSniffer.FrameStore
import CanSniffer.IngestLoop
import CanSniffer.PairUpdates
import CanSniffer.TimingStats

namespace CanSniffer

open Library Library.PyJson LatencyPairs Models

/-- What a request to arm says of the load that is to trigger. The endpoint takes any JSON value;
one that is no number is kept as it is and raises a TypeError when it is compared with the load. -/
inductive Threshold
  | absent | number (x : ℚ) | unordered
  deriving DecidableEq

structure ArmBody where
  type : ConditionType
  arbId : Option Int := none
  busLoadThreshold : Threshold := .absent

def ArmBody.condition (body : ArmBody) : TriggerCondition where
  type := body.type
  arbId := body.arbId
  busLoadThreshold :=
    match body.busLoadThreshold with
    | .number x => some x
    | .absent | .unordered => none

/-- The objects that `lifespan` creates. Of the logger it has the rows that were handed to each
buffer; no step reads them, and what is written of them is up to the logger. The flag `unordered`
says that the trigger's condition compares the load with a value that is no number, and `running`
that no exception has ended `_ingest_loop`. -/
structure Server where
  loop : IngestLoop
  frameStore : FrameStore EnrichedFrame 1000 := .init
  busLoad : BusLoadMonitor := {}
  diag : DiagnosticsAggregator := { tecRec := some {} }
  logged : Buf → List Row := fun _ => []
  timing : TimingStatsCollector := {}
  pairs : PairConfig
  trigger : TriggerCapture 200 200 := {}
  unordered : Bool := false
  running : Bool := true

structure DiagTimes where
  now : ℚ
  ts : ℚ
  clock : Nat → ℚ

/-- A drained event with the clocks that the detector, the aggregator and the logger read. -/
structure EventRead where
  event : PruEvent
  monotonic : ℚ
  times : DiagTimes
  logged : ℚ

/-- The clocks that `_diag.ingest_frame` reads for a frame, with the identifier and the time of a
session that the frame completes. -/
structure FrameRead where
  now : ℚ
  wall : Nat → ℚ
  clock : Nat → ℚ
  id : String
  saved : ℚ

/-- What one pass of `_ingest_loop` reads, from a ring of which the drain ends: `raises` says that
it ends with the ValueError of a slot after these events. Frame `i` of the pass comes with `frames
i`, abort `i` with `aborts i`. In a drain that does not end the whole event loop hangs, and there is
no pass. -/
structure Pass where
  events : List EventRead
  raises : Bool := false
  nowNs : Int
  frames : Nat → FrameRead
  sweepNow : ℚ
  aborts : Nat → DiagTimes

def Pass.poll (p : Pass) : Poll where
  events := p.events.map fun e => (e.event, e.monotonic)
  nowNs := p.nowNs
  sweepNow := p.sweepNow

namespace Server

/-- `none` is an exception of `load_pairs`. -/
def start (file : Option PairsFile) : Option Server := do
  let (explicit, patterns) ← loadPairs file
  pure {
    loop := .init Correlator.defaultMaxDeltaNs PartialFrameDetector.abortTimeoutS
    pairs := ⟨file, { explicit, patterns }⟩ }

def log (s : Server) (b : Buf) (row : Row) : Server :=
  { s with logged := Function.update s.logged b (s.logged b ++ [row]) }

/-- The next statement of `_ingest_loop`, unless an exception has ended it. -/
def andThen (s : Server) (f : Server → Server) : Server := if s.running then f s else s

def ingestEvent (s : Server) (e : EventRead) : Server :=
  { s with
    loop := s.loop.ingestEvent (e.event, e.monotonic)
    diag := s.diag.ingestPruEvent e.event e.times.now e.times.ts e.times.clock }.log .pru
      (DiagLogger.pruRow e.event e.logged false)

/-- The loop over the events that `pru.drain` yields. -/
def drainEvents (s : Server) (p : Pass) : Server :=
  let s := p.events.foldl ingestEvent s
  if p.raises then { s with running := false } else s

def ingestDiag (s : Server) (frame : EnrichedFrame) (r : FrameRead) : Server :=
  let (diag, raised) := s.diag.ingestFrame frame r.now r.wall r.clock
  { s with diag, running := !raised }

def ingestLatency (format : String → Nat → Option String) (s : Server) (frame : EnrichedFrame) :
    Server :=
  let (latency, raised) := s.pairs.latency.ingest format frame
  { s with pairs := { s.pairs with latency }, running := !raised }

/-- `_trigger.ingest(frame, _bus_load.current())`. Where the condition cannot be compared, the frame
is in the buffer already when the comparison raises. -/
def ingestTrigger (s : Server) (frame : EnrichedFrame) (r : FrameRead) : Server :=
  match s.busLoad.current with
  | none => { s with running := false }
  | some busLoad =>
    match s.trigger.ingest frame busLoad r.id r.saved with
    | none => { s with running := false }
    | some trigger =>
      { s with trigger, running := !(decide (s.trigger.state = .armed) && s.unordered) }

section

variable (ops : FloatOps) (format : String → Nat → Option String)

def handleFrame (s : Server) (frame : EnrichedFrame) (r : FrameRead) : Server :=
  s.andThen fun s =>
    let s := { s with
      loop := s.loop.handleFrame frame
      frameStore := s.frameStore.append frame
      busLoad := s.busLoad.record frame }
    (s.ingestDiag frame r).andThen fun s =>
      let s := s.log .frame (DiagLogger.frameRow frame false)
      let s := { s with timing := s.timing.ingest ops frame }
      (s.ingestLatency format frame).andThen fun s => s.ingestTrigger frame r

def handleFrames (s : Server) (p : Pass) (frames : List (EnrichedFrame × Nat)) : Server :=
  frames.foldl (fun s (frame, i) => s.handleFrame ops format frame (p.frames i)) s

def drainFrames (s : Server) (p : Pass) : Server :=
  let (frames, correlator) := s.loop.correlator.drainMatched p.nowNs
  { s with loop := { s.loop with correlator } }.handleFrames ops format p frames.zipIdx

/-- The callback of the detector gets each abort as it is fired, and does not act on the detector.
-/
def sweep (s : Server) (p : Pass) : Server :=
  s.andThen fun s =>
    let loop := s.loop.sweep p.sweepNow
    let fired := loop.detector.fired.drop s.loop.detector.fired.length
    { s with
      loop
      diag := fired.zipIdx.foldl (fun diag (evt, i) =>
        diag.ingestAbort evt (p.aborts i).now (p.aborts i).ts (p.aborts i).clock) s.diag }

/-- One pass of `_ingest_loop`. -/
def pass (s : Server) (p : Pass) : Server :=
  s.andThen fun s =>
    ((s.drainEvents p).andThen fun s => s.drainFrames ops format p).sweep p

end

/-- One message of a batch; the clock is read as `ts` by the decoder and as `now` after it. -/
def onMessage (s : Server) (msg : RawCanMessage) (t : DiagTimes) : Server :=
  if msg.isErrorFrame then
    let (err, diag) := s.diag.ingestErrorFrame msg t.ts t.now t.clock
    match err with
    | some err => { s with diag }.log .error (DiagLogger.errorRow err.toErrorEvent none)
    | none => { s with diag }
  else { s with loop := { s.loop with correlator := s.loop.correlator.ingestFrame msg } }

def onCanReadable (s : Server) (batch : List (RawCanMessage × DiagTimes)) : Server :=
  batch.foldl (fun s (msg, t) => s.onMessage msg t) s

/-- One pass of `_capture_logger_loop`. -/
def popCompleted (dumps : FrameDict → String) (s : Server) : Server :=
  let (cap, trigger) := s.trigger.popCompleted
  match cap with
  | some cap => { s with trigger }.log .cap (DiagLogger.captureRow (cap.toDict dumps))
  | none => { s with trigger }

def update (s : Server) (now monotonic : ℚ) : Server :=
  match s.busLoad.current with
  | some _ => { s with diag := (s.diag.snapshot now monotonic).2 }
  | none => s

def arm (s : Server) (body : ArmBody) : Server :=
  { s with
    trigger := s.trigger.arm body.condition
    unordered := body.type = .busLoad && body.busLoadThreshold = .unordered }

/-- What happens on the event loop: a readable socket, a pass of one of the tasks, an update or a
request. -/
inductive Act
  | readable (batch : List (RawCanMessage × DiagTimes))
  | pass (p : Pass)
  | popCompleted
  | checkTimeouts (now : ℚ) (wall clock : Nat → ℚ)
  | poll (poller : TecRecPoller)
  | update (now monotonic : ℚ)
  | arm (body : ArmBody)
  | disarm
  | fire
  | setPairs (body : List Json)
  | annotate (kernelTs : ℚ) (arbId : Int) (note : String) (now : ℚ)
  | resetTiming

section

variable (ops : FloatOps) (format : String → Nat → Option String) (dumps : FrameDict → String)

def step (s : Server) : Act → Server
  | .readable batch => s.onCanReadable batch
  | .pass p => s.pass ops format p
  | .popCompleted => s.popCompleted dumps
  | .checkTimeouts now wall clock =>
    { s with diag := (s.diag.checkPeriodicTimeouts now wall clock).1 }
  | .poll poller => { s with diag := { s.diag with tecRec := s.diag.tecRec.map fun _ => poller } }
  | .update now monotonic => s.update now monotonic
  | .arm body => s.arm body
  | .disarm => { s with trigger := s.trigger.disarm }
  | .fire => { s with trigger := s.trigger.fire }
  | .setPairs body => { s with pairs := (s.pairs.setLatencyPairs body).1 }
  | .annotate kernelTs arbId note now =>
    s.log .ann (DiagLogger.annotationRow kernelTs arbId (String.ofList (note.toList.take 500)) now)
  | .resetTiming => { s with timing := s.timing.reset }

def run (s : Server) (acts : List Act) : Server := acts.foldl (step ops format dumps) s

variable {ops format dumps}

theorem run_concat (s : Server) (acts : List Act) (a : Act) :
    s.run ops format dumps (acts ++ [a]) = (s.run ops format dumps acts).step ops format dumps a := by
  rw [run, List.foldl_append]
  rfl

theorem run_append (s : Server) (pre post : List Act) :
    s.run ops format dumps (pre ++ post) =
      (s.run ops format dumps pre).run ops format dumps post :=
  List.foldl_append ..

structure Keeps (ops : FloatOps) (format : String → Nat → Option String) (P : Server → Prop) :
    Prop where
  event : ∀ s e, P s → P (s.ingestEvent e)
  raised : ∀ s, P s → P { s with running := false }
  correlator : ∀ s correlator, P s → P { s with loop := { s.loop with correlator } }
  frame : ∀ s frame r, P s → P (s.handleFrame ops format frame r)
  sweep : ∀ s p, P s → P (s.sweep p)
  message : ∀ s msg t, P s → P (s.onMessage msg t)

theorem Keeps.frames {P : Server → Prop} (h : Keeps ops format P) {s : Server} (hs : P s) (p : Pass)
    (frames : List (EnrichedFrame × Nat)) : P (s.handleFrames ops format p frames) :=
  List.foldlRecOn frames _ hs fun t ht f _ => h.frame t f.1 _ ht

theorem Keeps.events {P : Server → Prop} (h : Keeps ops format P) {s : Server} (hs : P s)
    (p : Pass) : P (s.drainEvents p) := by
  have hevents : P (p.events.foldl ingestEvent s) :=
    List.foldlRecOn p.events ingestEvent hs fun t ht e _ => h.event t e ht
  rw [drainEvents]
  split_ifs
  · exact h.raised _ hevents
  · exact hevents

theorem Keeps.pass {P : Server → Prop} (h : Keeps ops format P) {s : Server} (hs : P s)
    (p : Pass) : P (s.pass ops format p) := by
  rw [Server.pass, andThen]
  split_ifs
  · apply h.sweep
    rw [andThen]
    split_ifs
    · exact h.frames (h.correlator _ _ (h.events hs p)) p _
    · exact h.events hs p
  · exact hs

theorem Keeps.readable {P : Server → Prop} (h : Keeps ops format P) {s : Server} (hs : P s)
    (batch : List (RawCanMessage × DiagTimes)) : P (s.onCanReadable batch) :=
  List.foldlRecOn batch _ hs fun t ht m _ => h.message t m.1 m.2 ht

end

end Server
end CanSniffer
