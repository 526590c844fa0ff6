import CanSniffer.Library.PyStruct
import CanSniffer.Models

namespace CanSniffer

open Library Models

structure ControlMessage where
  level : Int
  type : Int
  data : List UInt8
  deriving DecidableEq, Repr

namespace SocketCanReader

def canEffFlag : Nat := 0x80000000
def canErrFlag : Nat := 0x20000000
def canEffMask : Nat := 0x1FFFFFFF
def canSffMask : Nat := 0x000007FF
def canErrMask : Nat := 0x1FFFFFFF

def canFrameSize : Nat := 16

def solSocket : Int := 1

def soTimestamp : Int := 29

/-- `struct.Struct("=IB3x8s")`; `none` is the struct.error. -/
def unpackCanFrame (order : ByteOrder) (data : List UInt8) : Option (Nat × Nat × List UInt8) :=
  if data.length = canFrameSize then
    some (PyStruct.unsigned order (data.take 4), (data.getD 4 0).toNat, data.drop 8)
  else none

/-- Two signed numbers of so many bytes each; `none` is the struct.error. -/
def unpackPair (order : ByteOrder) (width : Nat) (data : List UInt8) : Option (Int × Int) :=
  if data.length = 2 * width then
    some (PyStruct.signed order (data.take width), PyStruct.signed order (data.drop width))
  else none

def isTimestamp (c : ControlMessage) : Bool := c.level = solSocket ∧ c.type = soTimestamp

/-- The `struct timeval` of a control message. -/
def timeval (order : ByteOrder) (cdata : List UInt8) : Option (Int × Int) :=
  if 16 ≤ cdata.length then unpackPair order 8 (cdata.take 16)
  else unpackPair order 4 (cdata.take 8)

/-- `sec + usec / 1_000_000` -/
def seconds (sec usec : Int) : ℚ :=
  Binary64.add (Binary64.round sec) (Binary64.div usec 1000000)

def timestamp (order : ByteOrder) (ancdata : List ControlMessage) : Option ℚ :=
  match ancdata.find? isTimestamp with
  | none => some 0
  | some c => (timeval order c.data).map fun (sec, usec) => seconds sec usec

/-- `order` is the byte order of the host and `now` the value of `time.time()`. An exception
is `none`. -/
def parse (order : ByteOrder) (data : List UInt8) (ancdata : List ControlMessage) (now : ℚ) :
    Option RawCanMessage := do
  let (canId, dlc, payload) ← unpackCanFrame order data
  let isErr := canId &&& canErrFlag ≠ 0
  let isExt := canId &&& canEffFlag ≠ 0
  let arb :=
    if isErr then canId &&& canErrMask
    else if isExt then canId &&& canEffMask
    else canId &&& canSffMask
  let n := if dlc ≤ 8 then dlc else 8
  let ts ← timestamp order ancdata
  some {
    timestamp := if ts = 0 then now else ts
    arbitrationId := arb
    dlc := n
    data := payload.take n
    isExtendedId := isExt
    isErrorFrame := isErr }

/-- What `recvmsg` does when it is called, with the clock that is read when its frame is parsed. -/
inductive Outcome
  | received (data : List UInt8) (ancdata : List ControlMessage) (now : ℚ)
  | wouldBlock
  | osError
  deriving DecidableEq, Repr

/-- The loop of `recv_batch` from its call number `pos` of `recvmsg` on; `none` is an exception,
which `out` does not survive. The number of calls of `recvmsg` made by then comes with it. -/
def recvLoop (order : ByteOrder) (recvmsg : Nat → Outcome) :
    Nat → Nat → List RawCanMessage → Option (List RawCanMessage) × Nat
  | 0, pos, out => (some out, pos)
  | left + 1, pos, out =>
    match recvmsg pos with
    | .osError => (none, pos + 1)
    | .wouldBlock => (some out, pos + 1)
    | .received data ancdata now =>
      if data.length < canFrameSize then recvLoop order recvmsg left (pos + 1) out
      else
        match parse order data ancdata now with
        | none => (none, pos + 1)
        | some msg => recvLoop order recvmsg left (pos + 1) (out ++ [msg])

def recvBatch (order : ByteOrder) (recvmsg : Nat → Outcome) (maxBatch pos : Nat) :
    Option (List RawCanMessage) × Nat :=
  recvLoop order recvmsg maxBatch pos []

end SocketCanReader
end CanSniffer
