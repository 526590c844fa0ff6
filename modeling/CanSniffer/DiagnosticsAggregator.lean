import CanSniffer.AlertManager
import CanSniffer.BehavioralMonitor
import CanSniffer.ErrorDecoder
import CanSniffer.SignalQualityMonitor

namespace CanSniffer

open Library Models

/-- The poller's counters and state; `_poll` sets them at any time. -/
structure TecRecPoller where
  tec : Nat := 0
  recCount : Nat := 0
  state : BusState := .unknown
  deriving DecidableEq, Repr

structure ProtoCounts where
  bitErrors : Nat := 0
  stuffErrors : Nat := 0
  crcErrors : Nat := 0
  formErrors : Nat := 0
  ackErrors : Nat := 0
  deriving DecidableEq, Repr

structure BusHealth where
  tec : Nat
  recCount : Nat
  state : String
  errorFrames1s : Nat
  deriving DecidableEq, Repr

/-- The part of a snapshot on the behaviour of the bus. Its lists of mismatches, violations and
babbling transmitters are always empty and left out. -/
structure Behavioral where
  missingMsgs : List BehavioralMonitor.PeriodicStatus
  unexpectedIds : List String
  deriving DecidableEq, Repr

structure Snapshot where
  busHealth : BusHealth
  protocolErrors : ProtoCounts
  signalQuality : SignalQuality
  behavioral : Option Behavioral
  alerts : List AlertDict
  deriving DecidableEq, Repr

structure DiagnosticsAggregator where
  sqm : SignalQualityMonitor := {}
  alerts : AlertManager := .init
  behav : Option BehavioralMonitor := none
  tecRec : Option TecRecPoller := none
  errTs : List ℚ := []
  protoCounts : ProtoCounts := {}

namespace DiagnosticsAggregator

def errBurstThreshold : Nat := 3

/-- The alerts of one call, each with the value of `time.time()` in its submission. -/
def timed (clock : Nat → ℚ) (alerts : List Alert) : List (Alert × ℚ) :=
  alerts.zipIdx.map fun (a, i) => (a, clock i)

def submitAll (mgr : AlertManager) (alerts : List (Alert × ℚ)) : AlertManager :=
  alerts.foldl (fun mgr (a, now) => (mgr.submit a now).2) mgr

def flushAlerts (d : DiagnosticsAggregator) (clock : Nat → ℚ) : DiagnosticsAggregator :=
  let (alerts, sqm) := d.sqm.drainAlerts
  { d with sqm, alerts := submitAll d.alerts (timed clock alerts) }

def flushBehaviouralAlerts (d : DiagnosticsAggregator) (clock : Nat → ℚ) :
    DiagnosticsAggregator :=
  match d.behav with
  | none => d
  | some behav =>
    let (alerts, behav) := behav.drainAlerts
    { d with behav := some behav, alerts := submitAll d.alerts (timed clock alerts) }

def ingestPruEvent (d : DiagnosticsAggregator) (event : PruEvent) (now ts : ℚ)
    (clock : Nat → ℚ) : DiagnosticsAggregator :=
  { d with sqm := d.sqm.ingestPruEvent event now ts }.flushAlerts clock

def ingestAbort (d : DiagnosticsAggregator) (evt : AbortedFrameEvent) (now ts : ℚ)
    (clock : Nat → ℚ) : DiagnosticsAggregator :=
  { d with sqm := d.sqm.ingestAbort evt now ts }.flushAlerts clock

def updateProtoCounts (c : ProtoCounts) (err : DecodedError) : ProtoCounts where
  bitErrors := if err.bitError then c.bitErrors + 1 else c.bitErrors
  stuffErrors := if err.stuffError then c.stuffErrors + 1 else c.stuffErrors
  crcErrors := if err.crcError then c.crcErrors + 1 else c.crcErrors
  formErrors := if err.formError then c.formErrors + 1 else c.formErrors
  ackErrors := if err.ackError then c.ackErrors + 1 else c.ackErrors

def updateBusStateFromError (p : TecRecPoller) (err : DecodedError) : TecRecPoller :=
  { p with tec := err.tec.getD p.tec, recCount := err.recCount.getD p.recCount }

def errorAlerts (recent : Nat) (err : DecodedError) (now : ℚ) : List Alert :=
  (if errBurstThreshold ≤ recent then
    [{ severity := .warn, category := .repeatedErrorFrames,
       msg := recent.repr ++ " error frames in last 1 s", ts := now }]
  else []) ++
  if err.busOff then
    [{ severity := .critical, category := .busOff,
       msg := "CAN controller entered bus-off state", ts := now }]
  else []

/-- The clock is read as `decoded` by the decoder and as `now` after it. -/
def ingestErrorFrame (d : DiagnosticsAggregator) (msg : RawCanMessage) (decoded now : ℚ)
    (clock : Nat → ℚ) : Option DecodedError × DiagnosticsAggregator :=
  match ErrorDecoder.decode msg decoded with
  | none => (none, d)
  | some err =>
    let errTs := (d.errTs ++ [now]).filter fun t => Binary64.sub now t < 1
    (some err, { d with
      protoCounts := updateProtoCounts d.protoCounts err
      tecRec := d.tecRec.map fun p => updateBusStateFromError p err
      errTs
      alerts := submitAll d.alerts (timed clock (errorAlerts errTs.length err now)) })

/-- The flag says that an exception left the call. -/
def ingestFrame (d : DiagnosticsAggregator) (frame : EnrichedFrame) (now : ℚ)
    (wall clock : Nat → ℚ) : DiagnosticsAggregator × Bool :=
  match d.behav with
  | none => (d, false)
  | some behav =>
    let (behav, raised) := behav.ingest frame now wall
    let d := { d with behav := some behav }
    if raised then (d, true) else (d.flushBehaviouralAlerts clock, false)

/-- The flag says that an exception left the call. -/
def checkPeriodicTimeouts (d : DiagnosticsAggregator) (now : ℚ) (wall clock : Nat → ℚ) :
    DiagnosticsAggregator × Bool :=
  match d.behav with
  | none => (d, false)
  | some behav =>
    let (behav, raised) := behav.checkTimeouts now wall
    let d := { d with behav := some behav }
    if raised then (d, true) else (d.flushBehaviouralAlerts clock, false)

def shownAlerts (alerts : AlertManager) : List (Nat × Alert) := alerts.activeAlerts.rtake 20

/-- The outer `none` is an exception. -/
def behavioral (d : DiagnosticsAggregator) (monotonic : ℚ) : Option (Option Behavioral) :=
  match d.behav with
  | none => some none
  | some behav =>
    (behav.periodicMessageStatus monotonic).map fun missing => some ⟨missing, behav.unexpectedIds⟩

/-- `now` is the value of `time.time()` and `monotonic` that of `time.monotonic()`. -/
def snapshot (d : DiagnosticsAggregator) (now monotonic : ℚ) :
    Option Snapshot × DiagnosticsAggregator :=
  let tecRec := d.tecRec.getD {}
  let (signalQuality, sqm) := d.sqm.snapshot now
  ((d.behavioral monotonic).map fun behavioral =>
    { busHealth := ⟨tecRec.tec, tecRec.recCount, tecRec.state.value, d.errTs.length⟩
      protocolErrors := d.protoCounts
      signalQuality
      behavioral
      alerts := (shownAlerts d.alerts).map fun p => p.2.toDict },
    { d with sqm })

end DiagnosticsAggregator
end CanSniffer
