import CanSniffer.Models

namespace CanSniffer

open Models

structure DecodedError extends ErrorEvent where
  bitError : Bool
  stuffError : Bool
  formError : Bool
  crcError : Bool
  ackError : Bool
  busOff : Bool
  restarted : Bool
  deriving DecidableEq, Repr

namespace ErrorDecoder

def errCrtl : Nat := 0x004
def errProt : Nat := 0x008
def errAck : Nat := 0x020
def errBusoff : Nat := 0x040
def errRestarted : Nat := 0x100

def protBit : Nat := 0x01
def protForm : Nat := 0x02
def protStuff : Nat := 0x04

def locCrcSeq : Nat := 0x08

def hasBit (mask bit : Nat) : Bool := mask &&& bit ≠ 0

def padded (data : List UInt8) : List UInt8 := data ++ List.replicate (8 - data.length) 0

def decode (msg : RawCanMessage) (now : ℚ) : Option DecodedError :=
  if !msg.isErrorFrame then none
  else
    let ec := msg.arbitrationId
    let data := padded msg.data
    let protType := if hasBit ec errProt then (data.getD 2 0).toNat else 0
    let protLoc := if hasBit ec errProt then (data.getD 3 0).toNat else 0
    let tec := if hasBit ec errCrtl then some (data.getD 6 0).toNat else none
    let recCount := if hasBit ec errCrtl then some (data.getD 7 0).toNat else none
    some {
      ts := if msg.timestamp = 0 then now else msg.timestamp
      errorClass := ec
      tec
      recCount
      rawData := data
      bitError := hasBit protType protBit
      stuffError := hasBit protType protStuff
      formError := hasBit protType protForm
      crcError := hasBit ec errProt && hasBit protLoc locCrcSeq
      ackError := hasBit ec errAck
      busOff := hasBit ec errBusoff
      restarted := hasBit ec errRestarted }

end ErrorDecoder
end CanSniffer
