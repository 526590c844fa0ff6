import CanSniffer.Library.Binary64
import CanSniffer.Library.PyText

namespace CanSniffer.Models

inductive PruEventType
  | sof | glitch | dominantRunaway
  deriving DecidableEq, Repr

namespace PruEventType

def value : PruEventType → Nat
  | .sof => 0x01
  | .glitch => 0x02
  | .dominantRunaway => 0x03

/-- The enum call `PruEventType(etype)`; `none` is its ValueError. -/
def ofValue? : Nat → Option PruEventType
  | 0x01 => some .sof
  | 0x02 => some .glitch
  | 0x03 => some .dominantRunaway
  | _ => none

end PruEventType

structure PruEvent where
  type : PruEventType
  flags : Nat
  seq : Nat
  tFallNs : Int
  pulseNs : Nat
  deriving DecidableEq, Repr

/-- The part of a received frame that the pipeline reads. A timestamp is the exact
value of the Python float. -/
structure RawCanMessage where
  timestamp : ℚ
  arbitrationId : Nat
  dlc : Nat
  data : List UInt8
  isExtendedId : Bool
  isErrorFrame : Bool
  deriving DecidableEq, Repr

/-- `int(msg.timestamp * 1_000_000_000)`, a double product truncated to an integer. -/
def RawCanMessage.timestampNs (msg : RawCanMessage) : Int :=
  Library.Binary64.trunc (Library.Binary64.mul msg.timestamp 1000000000)

theorem timestampNs_mono {a b : RawCanMessage} (h : a.timestamp ≤ b.timestamp) :
    a.timestampNs ≤ b.timestampNs :=
  Library.Binary64.trunc_mono (Library.Binary64.mul_mono_left (by norm_num) h)

structure EnrichedFrame where
  arbId : Nat
  dlc : Nat
  data : List UInt8
  isExtended : Bool
  pruTsNs : Option Int
  kernelTs : ℚ
  channel : Nat := 0
  deriving DecidableEq, Repr

structure FrameDict where
  arbId : String
  dlc : Nat
  data : String
  isExtended : Bool
  pruTsNs : Option Int
  kernelTs : ℚ
  channel : Nat
  deriving DecidableEq, Repr

def EnrichedFrame.toDict (f : EnrichedFrame) : FrameDict where
  arbId := "0x" ++ Library.PyText.hexUpper 3 f.arbId
  dlc := f.dlc
  data := " ".intercalate (f.data.map fun b => Library.PyText.hexUpper 2 b.toNat)
  isExtended := f.isExtended
  pruTsNs := f.pruTsNs
  kernelTs := f.kernelTs
  channel := f.channel

structure AbortedFrameEvent where
  pruTsNs : Int
  wallTime : ℚ
  deriving DecidableEq, Repr

structure ErrorEvent where
  ts : ℚ
  errorClass : Nat
  tec : Option Nat
  recCount : Option Nat
  rawData : List UInt8
  deriving DecidableEq, Repr

inductive AlertSeverity
  | info | warn | critical
  deriving DecidableEq, Repr

def AlertSeverity.value : AlertSeverity → String
  | .info => "INFO"
  | .warn => "WARN"
  | .critical => "CRITICAL"

inductive AlertCategory
  | busOff | errorPassive | errorWarning | dominantRunaway | repeatedAborts | glitchBurst
  | abortedFrame | missingMsg | missingMsgTransient | babblingTx | unexpectedId | dlcMismatch
  | rangeViolation | singleGlitch | busRecovery | controllerRestarted | repeatedErrorFrames
  deriving DecidableEq, Repr

def AlertCategory.value : AlertCategory → String
  | .busOff => "BUS_OFF"
  | .errorPassive => "ERROR_PASSIVE"
  | .errorWarning => "ERROR_WARNING"
  | .dominantRunaway => "DOMINANT_RUNAWAY"
  | .repeatedAborts => "REPEATED_ABORTS"
  | .glitchBurst => "GLITCH_BURST"
  | .abortedFrame => "ABORTED_FRAME"
  | .missingMsg => "MISSING_MSG"
  | .missingMsgTransient => "MISSING_MSG_TRANSIENT"
  | .babblingTx => "BABBLING_TX"
  | .unexpectedId => "UNEXPECTED_ID"
  | .dlcMismatch => "DLC_MISMATCH"
  | .rangeViolation => "RANGE_VIOLATION"
  | .singleGlitch => "SINGLE_GLITCH"
  | .busRecovery => "BUS_RECOVERY"
  | .controllerRestarted => "CONTROLLER_RESTARTED"
  | .repeatedErrorFrames => "REPEATED_ERROR_FRAMES"

def alertSeverityMap : AlertCategory → AlertSeverity
  | .busOff | .errorPassive | .dominantRunaway | .repeatedAborts => .critical
  | .errorWarning | .glitchBurst | .repeatedErrorFrames | .missingMsg | .babblingTx
  | .rangeViolation | .dlcMismatch | .abortedFrame => .warn
  | .unexpectedId | .missingMsgTransient | .singleGlitch | .busRecovery
  | .controllerRestarted => .info

def alertCooldownS : AlertSeverity → ℚ
  | .critical => 0
  | .warn => 5
  | .info => 10

structure Alert where
  severity : AlertSeverity
  category : AlertCategory
  msg : String
  ts : ℚ
  canId : Option Int := none
  signalName : Option String := none
  count : Nat := 1
  resolved : Bool := false
  resolvedTs : Option ℚ := none
  deriving DecidableEq, Repr

structure AlertDict where
  severity : String
  category : String
  msg : String
  ts : ℚ
  canId : Option String
  signalName : Option String
  count : Nat
  resolved : Bool
  deriving DecidableEq, Repr

def Alert.toDict (a : Alert) : AlertDict where
  severity := a.severity.value
  category := a.category.value
  msg := a.msg
  ts := a.ts
  canId := a.canId.map fun n => "0x" ++ Library.PyText.hexInt n
  signalName := a.signalName
  count := a.count
  resolved := a.resolved

inductive BusState
  | active | errorWarning | errorPassive | busOff | unknown
  deriving DecidableEq, Repr

def BusState.value : BusState → String
  | .active => "error-active"
  | .errorWarning => "error-warning"
  | .errorPassive => "error-passive"
  | .busOff => "bus-off"
  | .unknown => "unknown"

end CanSniffer.Models
