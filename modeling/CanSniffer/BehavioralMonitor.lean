import CanSniffer.Library.Deque
import CanSniffer.Library.ForLoop
import CanSniffer.Library.PyDict
import CanSniffer.Models

namespace CanSniffer

open Library Library.PyText Models

inductive SignalValue
  | number (x : PyNumber)
  | label (text : String)
  deriving DecidableEq, Repr

namespace SignalValue

def text : SignalValue → String
  | number x => x.text
  | label text => text

/-- `bound is not None and value < bound`; `none` is the TypeError of a label. -/
def below : SignalValue → Option PyNumber → Option Bool
  | _, none => some false
  | number x, some bound => some (x.value < bound.value)
  | label _, some _ => none

/-- `bound is not None and value > bound`; `none` is the TypeError of a label. -/
def above : SignalValue → Option PyNumber → Option Bool
  | _, none => some false
  | number x, some bound => some (bound.value < x.value)
  | label _, some _ => none

end SignalValue

namespace BehavioralMonitor

structure Signal where
  minimum : Option PyNumber
  maximum : Option PyNumber

structure Message where
  frameId : Nat
  name : String
  length : Nat
  cycleTime : Option PyNumber
  /-- `none` is the KeyError. -/
  getSignalByName : String → Option Signal

structure Database where
  messages : List Message
  getMessageByFrameId : Nat → Option Message
  decodeMessage : Nat → List UInt8 → Option (PyDict String SignalValue)

structure MessageInfo where
  canId : Nat
  name : String
  expectedDlc : Nat
  cycleTimeMs : Option PyNumber
  isKnown : Bool := true

structure MessageState extends MessageInfo where
  lastRxTime : ℚ
  rxCount : Nat := 0
  babbleWindow : Deque ℚ 20 := Deque.empty
  lastSignals : PyDict String SignalValue := PyDict.empty

def Message.info (msg : Message) : MessageInfo where
  canId := msg.frameId
  name := msg.name
  expectedDlc := msg.length
  cycleTimeMs := msg.cycleTime

def unknownInfo (frame : EnrichedFrame) : MessageInfo where
  canId := frame.arbId
  name := "0x" ++ hexUpper 0 frame.arbId
  expectedDlc := frame.dlc
  cycleTimeMs := none
  isKnown := false

structure PeriodicStatus where
  id : String
  name : String
  cycleMs : PyNumber
  overdueMs : ℚ
  deriving DecidableEq, Repr

def overateRatio : ℚ := 3 / 2

def overdueWarn : ℚ := 2

def overdueInfo : ℚ := 3 / 2

end BehavioralMonitor

open BehavioralMonitor

structure BehavioralMonitor where
  db : Database
  states : PyDict Nat MessageState
  pendingAlerts : List Alert

namespace BehavioralMonitor

/-- `boot i` is the value of `time.monotonic()` in the constructor of the state of message `i`. -/
def initKnownIds (messages : List Message) (boot : Nat → ℚ) : PyDict Nat MessageState :=
  messages.zipIdx.foldl
    (fun states (msg, i) => states.set msg.frameId { msg.info with lastRxTime := boot i })
    PyDict.empty

def init (db : Database) (boot : Nat → ℚ) : BehavioralMonitor :=
  ⟨db, initKnownIds db.messages boot, []⟩

/-- `wall i` is the value of `time.time()` in the constructor of the alert that becomes pending
alert `i`. -/
def emit (m : BehavioralMonitor) (wall : Nat → ℚ) (category : AlertCategory) (msg : String)
    (canId : Nat) (signalName : Option String := none) : BehavioralMonitor :=
  { m with pendingAlerts := m.pendingAlerts ++
      [{ severity := alertSeverityMap category, category, msg, ts := wall m.pendingAlerts.length,
         canId := some (canId : Int), signalName }] }

def setState (m : BehavioralMonitor) (id : Nat) (state : MessageState) : BehavioralMonitor :=
  { m with states := m.states.set id state }

/-- The state of the frame's message, after the alerts on its identifier and its length. -/
def lookup (m : BehavioralMonitor) (frame : EnrichedFrame) (now : ℚ) (wall : Nat → ℚ) :
    BehavioralMonitor × MessageState :=
  match m.states.get? frame.arbId with
  | none =>
    let state : MessageState := { unknownInfo frame with lastRxTime := now }
    ((m.setState frame.arbId state).emit wall .unexpectedId
      ("Unknown CAN ID 0x" ++ hexUpper 0 frame.arbId ++ " first seen") frame.arbId, state)
  | some state =>
    if frame.dlc ≠ state.expectedDlc then
      (m.emit wall .dlcMismatch
        (state.name ++ ": expected DLC " ++ state.expectedDlc.repr ++ ", got " ++ frame.dlc.repr)
        frame.arbId, state)
    else (m, state)

def receive (state : MessageState) (now : ℚ) : MessageState :=
  { state with
    rxCount := state.rxCount + 1, babbleWindow := state.babbleWindow.append now,
    lastRxTime := now }

def expectedHz (cycle : PyNumber) : Option ℚ := do Binary64.div? 1000 (← cycle.toFloat?)

/-- `none` is an exception. -/
def checkBabble (m : BehavioralMonitor) (state : MessageState) (wall : Nat → ℚ) :
    Option BehavioralMonitor :=
  let window := state.babbleWindow.items
  match state.cycleTimeMs with
  | none => some m
  | some cycle =>
    if window.length < 10 then some m
    else
      let spanS := Binary64.sub (window.getLastD 0) (window.headD 0)
      if spanS ≤ 0 then some m
      else do
        let actualHz := Binary64.div (window.length - 1 : Nat) spanS
        let expectedHz ← expectedHz cycle
        if Binary64.mul expectedHz overateRatio < actualHz then
          some (m.emit wall .babblingTx
            (state.name ++ ": " ++ fixed 1 actualHz ++ " Hz (expected " ++ fixed 1 expectedHz ++
              " Hz)") state.canId)
        else some m

def checkSignal (msgDef : Message) (frame : EnrichedFrame) (state : MessageState)
    (wall : Nat → ℚ) (m : BehavioralMonitor) : String × SignalValue → Option BehavioralMonitor
  | (sigName, value) =>
    match msgDef.getSignalByName sigName with
    | none => some m
    | some sig => do
      if ← value.below sig.minimum then
        some (m.emit wall .rangeViolation
          (state.name ++ "." ++ sigName ++ " = " ++ value.text ++ " < min " ++
            strOption PyNumber.text sig.minimum) frame.arbId (some sigName))
      else if ← value.above sig.maximum then
        some (m.emit wall .rangeViolation
          (state.name ++ "." ++ sigName ++ " = " ++ value.text ++ " > max " ++
            strOption PyNumber.text sig.maximum) frame.arbId (some sigName))
      else some m

/-- The flag says that an exception left the call. -/
def checkSignals (m : BehavioralMonitor) (frame : EnrichedFrame) (state : MessageState)
    (wall : Nat → ℚ) : BehavioralMonitor × Bool :=
  match m.db.getMessageByFrameId frame.arbId, m.db.decodeMessage frame.arbId frame.data with
  | some msgDef, some decoded =>
    let (m, raised) := ForLoop.tryFold (checkSignal msgDef frame state wall) m decoded.items
    if raised then (m, true)
    else (m.setState frame.arbId { state with lastSignals := decoded }, false)
  | _, _ => (m, false)

/-- `now` is the value of `time.monotonic()`. The flag says that an exception left the call. -/
def ingest (m : BehavioralMonitor) (frame : EnrichedFrame) (now : ℚ) (wall : Nat → ℚ) :
    BehavioralMonitor × Bool :=
  let (m, state) := m.lookup frame now wall
  let state := receive state now
  let m := m.setState frame.arbId state
  match m.checkBabble state wall with
  | none => (m, true)
  | some m => if state.isKnown then m.checkSignals frame state wall else (m, false)

def checkTimeout (now : ℚ) (wall : Nat → ℚ) (m : BehavioralMonitor) (state : MessageState) :
    Option BehavioralMonitor :=
  match state.cycleTimeMs with
  | none => some m
  | some cycle =>
    if !state.isKnown then some m
    else do
      let overdueS := Binary64.sub now state.lastRxTime
      let cycleMs ← cycle.toFloat?
      let ratio ← Binary64.div? overdueS (Binary64.div cycleMs 1000)
      if overdueWarn < ratio then
        some (m.emit wall .missingMsg
          (state.name ++ " overdue " ++ fixed 0 (Binary64.mul overdueS 1000) ++ " ms (cycle " ++
            fixed 0 cycleMs ++ " ms)") state.canId)
      else if overdueInfo < ratio then
        some (m.emit wall .missingMsgTransient (state.name ++ " missed one cycle") state.canId)
      else some m

def checkTimeouts (m : BehavioralMonitor) (now : ℚ) (wall : Nat → ℚ) : BehavioralMonitor × Bool :=
  ForLoop.tryFold (checkTimeout now wall) m m.states.values

def drainAlerts (m : BehavioralMonitor) : List Alert × BehavioralMonitor :=
  (m.pendingAlerts, { m with pendingAlerts := [] })

/-- The entry of one state; the outer `none` is an exception. -/
def periodicStatus (now : ℚ) (s : MessageState) : Option (Option PeriodicStatus) :=
  match s.cycleTimeMs with
  | none => some none
  | some cycle =>
    if !s.isKnown then some none
    else do
      let elapsedMs := Binary64.mul (Binary64.sub now s.lastRxTime) 1000
      let overdueMs := max 0 (Binary64.sub elapsedMs (← cycle.toFloat?))
      some (some {
        id := "0x" ++ hexUpper 0 s.canId
        name := s.name
        cycleMs := cycle
        overdueMs := Binary64.roundDigits 1 overdueMs })

/-- `none` is an exception. -/
def periodicMessageStatus (m : BehavioralMonitor) (now : ℚ) : Option (List PeriodicStatus) :=
  (m.states.values.mapM (periodicStatus now)).map (·.filterMap id)

def unexpectedIds (m : BehavioralMonitor) : List String :=
  (m.states.values.filter (!·.isKnown)).map fun s => "0x" ++ hexUpper 0 s.canId

end BehavioralMonitor
end CanSniffer
