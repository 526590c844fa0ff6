import CanSniffer.Models

namespace CanSniffer

open Library Library.PyText Models

structure SignalQualityMonitor where
  glitchWindow : List ℚ := []
  abortWindow : List ℚ := []
  pendingAlerts : List Alert := []
  runawayActive : Bool := false

/-- What `snapshot` tells of the signal quality. -/
structure SignalQuality where
  glitches1s : Nat
  aborts1s : Nat
  dominantRunaway : Bool
  deriving DecidableEq, Repr

namespace SignalQualityMonitor

def glitchBurstThreshold : Nat := 3

def abortBurstThreshold : Nat := 5

def windowS : ℚ := 1

/-- The loop drops instants from the left while they are older than the window. -/
def trim (window : List ℚ) (now : ℚ) : List ℚ :=
  let cutoff := Binary64.sub now windowS
  window.dropWhile (· < cutoff)

/-- `ts` is the value of `time.time()` in the constructor of the alert. -/
def emit (s : SignalQualityMonitor) (category : AlertCategory) (msg : String) (ts : ℚ) :
    SignalQualityMonitor :=
  { s with pendingAlerts := s.pendingAlerts ++
      [{ severity := alertSeverityMap category, category, msg, ts }] }

def ingestPruEvent (s : SignalQualityMonitor) (event : PruEvent) (now ts : ℚ) :
    SignalQualityMonitor :=
  match event.type with
  | .glitch =>
    let s := { s with glitchWindow := trim (s.glitchWindow ++ [now]) now }
    if glitchBurstThreshold ≤ s.glitchWindow.length then
      s.emit .glitchBurst
        (s.glitchWindow.length.repr ++ " glitches in last " ++ fixed 0 windowS ++ " s") ts
    else s.emit .singleGlitch ("Glitch: " ++ event.pulseNs.repr ++ " ns dominant pulse") ts
  | .dominantRunaway =>
    { s with runawayActive := true }.emit .dominantRunaway
      ("Bus stuck dominant for " ++ fixed 1 (Binary64.div event.pulseNs 1000000) ++ " ms") ts
  | .sof => s

def ingestAbort (s : SignalQualityMonitor) (_ : AbortedFrameEvent) (now ts : ℚ) :
    SignalQualityMonitor :=
  let s := { s with abortWindow := trim (s.abortWindow ++ [now]) now }
  if abortBurstThreshold ≤ s.abortWindow.length then
    s.emit .repeatedAborts
      (s.abortWindow.length.repr ++ " aborted frames in last " ++ fixed 0 windowS ++ " s") ts
  else s.emit .abortedFrame "SOF detected but no frame delivered" ts

def drainAlerts (s : SignalQualityMonitor) : List Alert × SignalQualityMonitor :=
  (s.pendingAlerts, { s with pendingAlerts := [] })

def snapshot (s : SignalQualityMonitor) (now : ℚ) : SignalQuality × SignalQualityMonitor :=
  let s := { s with glitchWindow := trim s.glitchWindow now, abortWindow := trim s.abortWindow now }
  (⟨s.glitchWindow.length, s.abortWindow.length, s.runawayActive⟩, s)

end SignalQualityMonitor
end CanSniffer
