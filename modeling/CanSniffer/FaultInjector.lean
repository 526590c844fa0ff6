import CanSniffer.Library.Trace

namespace CanSniffer

def faultShmMagic : UInt32 := 0xFA017123

def faultIdle : UInt32 := 0

def faultGlitch : UInt32 := 1

def faultGlitchBurst : UInt32 := 2

def faultDominant : UInt32 := 3

def faultIntermittent : UInt32 := 4

/-- `fault_shm_t` -/
structure FaultShm where
  magic : UInt32
  faultMode : UInt32
  faultsDone : UInt32
  pad : UInt32
  deriving DecidableEq, Repr

/-- Where the firmware stands: in front of the next access to the shared words or to R30. Waiting
touches neither. -/
inductive FirmwarePc
  | loop
  | idle
  | glitchLow (oneShot : Bool)
  | glitchHigh (oneShot : Bool)
  | glitchLoad (oneShot : Bool)
  | glitchStore (oneShot : Bool) (done : UInt32)
  | reset
  | dominantLow
  | dominantPoll
  | dominantHigh
  | dominantLoad
  | dominantStore (done : UInt32)
  deriving DecidableEq, Repr

namespace FirmwarePc

/-- The `switch` over the mode that was read. -/
def ofMode (mode : UInt32) : FirmwarePc :=
  if mode = faultIdle then .idle
  else if mode = faultGlitch then .glitchLow true
  else if mode = faultGlitchBurst then .glitchLow false
  else if mode = faultDominant then .dominantLow
  else if mode = faultIntermittent then .glitchLow false
  else .idle

/-- From the read of `FAULT_GLITCH` to the reset of the mode. -/
def oneShot : FirmwarePc → Bool
  | glitchLow oneShot | glitchHigh oneShot | glitchLoad oneShot | glitchStore oneShot _ => oneShot
  | reset => true
  | loop | idle | dominantLow | dominantPoll | dominantHigh | dominantLoad | dominantStore _ => false

end FirmwarePc

/-- What `pack_into` stores for a number; a number that does not fit raises a `struct.error`. -/
def word? (n : Int) : Option UInt32 :=
  if 0 ≤ n ∧ n < 2 ^ 32 then some (.ofNat n.toNat) else none

/-- Where `set_mode` stands. All words are loaded, then `pack_into` fills its sixteen bytes with
zeros before it packs the first value. -/
inductive SetModePc
  | ready
  | loadMagic (mode : Int)
  | loadMode (mode : Int)
  | loadDone (mode : Int)
  | loadPad (mode : Int) (done : UInt32)
  | clearMagic (mode : Int) (done : UInt32)
  | clearMode (mode : Int) (done : UInt32)
  | clearDone (mode : Int) (done : UInt32)
  | clearPad (mode : Int) (done : UInt32)
  | storeMagic (mode : Int) (done : UInt32)
  | storeMode (mode : Int) (done : UInt32)
  | storeDone (done : UInt32)
  | storePad
  deriving DecidableEq, Repr

/-- The injector and the program that commands it. No step reads `command`, the mode that the call
of `set_mode` under way or last made has stored, `stores`, how often calls have stored to
`fault_mode`, nor `seen`, how often they had when the firmware last began an iteration. -/
structure FaultInjector where
  shm : FaultShm
  recessive : Bool
  firmware : FirmwarePc
  setMode : SetModePc
  command : Option UInt32
  stores : Nat
  seen : Nat
  deriving DecidableEq, Repr

namespace FaultInjector

inductive Move
  | firmware
  | call (mode : Int)
  | setMode
  deriving DecidableEq, Repr

def start (pad : UInt32) : FaultInjector where
  shm := ⟨faultShmMagic, faultIdle, 0, pad⟩
  recessive := true
  firmware := .loop
  setMode := .ready
  command := none
  stores := 0
  seen := 0

def storeDone (s : FaultInjector) (done : UInt32) : FaultInjector :=
  { s with shm := { s.shm with faultsDone := done } }

def storeMode (s : FaultInjector) (mode : UInt32) : FaultInjector :=
  { s with shm := { s.shm with faultMode := mode } }

def stepFirmware (s : FaultInjector) : FaultInjector :=
  match s.firmware with
  | .loop => { s with firmware := .ofMode s.shm.faultMode, seen := s.stores }
  | .idle => { s with recessive := true, firmware := .loop }
  | .glitchLow oneShot => { s with recessive := false, firmware := .glitchHigh oneShot }
  | .glitchHigh oneShot => { s with recessive := true, firmware := .glitchLoad oneShot }
  | .glitchLoad oneShot => { s with firmware := .glitchStore oneShot s.shm.faultsDone }
  | .glitchStore oneShot done =>
    { s.storeDone (done + 1) with firmware := if oneShot then .reset else .idle }
  | .reset => { s.storeMode faultIdle with firmware := .loop }
  | .dominantLow => { s with recessive := false, firmware := .dominantPoll }
  | .dominantPoll =>
    { s with firmware := if s.shm.faultMode = faultDominant then .dominantPoll else .dominantHigh }
  | .dominantHigh => { s with recessive := true, firmware := .dominantLoad }
  | .dominantLoad => { s with firmware := .dominantStore s.shm.faultsDone }
  | .dominantStore done => { s.storeDone (done + 1) with firmware := .loop }

/-- The next access of a `set_mode` that is under way. -/
def stepSetMode (s : FaultInjector) : FaultInjector :=
  match s.setMode with
  | .ready => s
  | .loadMagic mode => { s with setMode := .loadMode mode }
  | .loadMode mode => { s with setMode := .loadDone mode }
  | .loadDone mode => { s with setMode := .loadPad mode s.shm.faultsDone }
  | .loadPad mode done => { s with setMode := .clearMagic mode done }
  | .clearMagic mode done =>
    { s with shm := { s.shm with magic := 0 }, setMode := .clearMode mode done }
  | .clearMode mode done =>
    { s.storeMode 0 with setMode := .clearDone mode done, command := none, stores := s.stores + 1 }
  | .clearDone mode done => { s.storeDone 0 with setMode := .clearPad mode done }
  | .clearPad mode done =>
    { s with shm := { s.shm with pad := 0 }, setMode := .storeMagic mode done }
  | .storeMagic mode done =>
    { s with shm := { s.shm with magic := faultShmMagic }, setMode := .storeMode mode done }
  | .storeMode mode done =>
    match word? mode with
    | some word =>
      { s.storeMode word with
        setMode := .storeDone done, command := some word, stores := s.stores + 1 }
    | none => { s with setMode := .ready }
  | .storeDone done => { s.storeDone done with setMode := .storePad }
  | .storePad => { s with shm := { s.shm with pad := 0 }, setMode := .ready }

/-- `set_mode` does not wait inside, so that a call begins after the one before it. -/
def call (s : FaultInjector) (mode : Int) : FaultInjector :=
  if s.setMode = .ready then { s with setMode := .loadMagic mode } else s

def step (s : FaultInjector) : Move → FaultInjector
  | .firmware => s.stepFirmware
  | .call mode => s.call mode
  | .setMode => s.stepSetMode

end FaultInjector
end CanSniffer
