import CanSniffer.Library.RingSlots

namespace CanSniffer.Firmware

open Library.RingSlots

def pruShmMagic : UInt32 := 0xCAFE1234
def pruRingDepth : UInt32 := 256
def evtSof : UInt8 := 0x01

/-- The ticks, of 1 ns, that the main loop waits after a capture. -/
def blindCounts : UInt32 := 10000000

-- The ring's size is a constant of every module that reads a slot.
instance neZero_ringDepth : NeZero 256 := ⟨by decide⟩

structure PruEventT where
  type : UInt8
  flags : UInt8
  seq : UInt16
  tFallNs : UInt64
  pulseNs : UInt32
  deriving DecidableEq, Repr

structure PruShmT where
  magic : UInt32
  writeIdx : UInt32
  pad : UInt32
  pruPrevIep : UInt32
  pruRolloverNs : UInt64
  ring : Fin 256 → PruEventT

/-- One volatile store of `write_event`. -/
inductive Store
  | type (idx : UInt32) (v : UInt8)
  | flags (idx : UInt32) (v : UInt8)
  | seq (idx : UInt32) (v : UInt16)
  | tFallNs (idx : UInt32) (v : UInt64)
  | pulseNs (idx : UInt32) (v : UInt32)
  | incWriteIdx
  deriving DecidableEq, Repr

def PruShmT.setSlot (shm : PruShmT) (idx : UInt32) (f : PruEventT → PruEventT) : PruShmT :=
  { shm with ring := put shm.ring idx.toNat (f (shm.ring (slot 256 idx.toNat))) }

def Store.apply : Store → PruShmT → PruShmT
  | .type idx v, shm => shm.setSlot idx fun e => { e with type := v }
  | .flags idx v, shm => shm.setSlot idx fun e => { e with flags := v }
  | .seq idx v, shm => shm.setSlot idx fun e => { e with seq := v }
  | .tFallNs idx v, shm => shm.setSlot idx fun e => { e with tFallNs := v }
  | .pulseNs idx v, shm => shm.setSlot idx fun e => { e with pulseNs := v }
  | .incWriteIdx, shm => { shm with writeIdx := shm.writeIdx + 1 }

/-- The stores of `write_event` in program order, for the index read on entry. -/
def writeStores (writeIdx : UInt32) (type : UInt8) (seq : UInt16) (tFallNs : UInt64)
    (pulseNs : UInt32) : List Store :=
  let idx := writeIdx &&& (pruRingDepth - 1)
  [.type idx type, .flags idx 0, .seq idx seq, .tFallNs idx tFallNs, .pulseNs idx pulseNs,
    .incWriteIdx]

def writeEvent (shm : PruShmT) (type : UInt8) (seq : UInt16) (tFallNs : UInt64)
    (pulseNs : UInt32) : PruShmT :=
  (writeStores shm.writeIdx type seq tFallNs pulseNs).foldl (fun shm st => st.apply shm) shm

def iepPeriodNs : UInt64 := 4294967296

/-- Extend the 32-bit IEP counter; the rollover state lives in shared memory. -/
def iepToNs (shm : PruShmT) (count : UInt32) : UInt64 × PruShmT :=
  let rollover := if count < shm.pruPrevIep then shm.pruRolloverNs + iepPeriodNs else shm.pruRolloverNs
  (rollover + count.toUInt64 * 1, { shm with pruRolloverNs := rollover, pruPrevIep := count })

/-- Shared memory together with the firmware's local `seq`. -/
structure Pru where
  shm : PruShmT
  seq : UInt16

/-- The part of `main` before its loop. The ring keeps its old content. -/
def start (shm : PruShmT) : Pru :=
  ⟨{ shm with magic := pruShmMagic, writeIdx := 0, pruPrevIep := 0, pruRolloverNs := 0 }, 0⟩

def Pru.writeSof (pru : Pru) (tFallNs : UInt64) : Pru :=
  ⟨writeEvent pru.shm evtSof pru.seq tFallNs 0, pru.seq + 1⟩

/-- One pass of the main loop, from the counter snapshot to the published event. -/
def Pru.capture (pru : Pru) (iepSnap : UInt32) : Pru :=
  let (tFallNs, shm) := iepToNs pru.shm iepSnap
  Pru.writeSof ⟨shm, pru.seq⟩ tFallNs

theorem slot_mask (i : UInt32) : slot 256 (i &&& (pruRingDepth - 1)).toNat = slot 256 i.toNat := by
  apply Fin.ext
  have hm : (pruRingDepth - 1).toNat = 2 ^ 8 - 1 := by decide
  simp only [slot, UInt32.toNat_and, hm, Nat.and_two_pow_sub_one_eq_mod]
  omega

theorem setSlot_mask (shm : PruShmT) (i : UInt32) (f : PruEventT → PruEventT) :
    shm.setSlot (i &&& (pruRingDepth - 1)) f =
      { shm with ring := put shm.ring i.toNat (f (shm.ring (slot 256 i.toNat))) } := by
  simp only [PruShmT.setSlot, put, slot_mask]

/-- The whole call stores one complete event in its slot and then publishes it. -/
theorem writeEvent_eq (shm : PruShmT) (type : UInt8) (seq : UInt16) (tFallNs : UInt64)
    (pulseNs : UInt32) :
    writeEvent shm type seq tFallNs pulseNs =
      { shm with
        ring := put shm.ring shm.writeIdx.toNat ⟨type, 0, seq, tFallNs, pulseNs⟩
        writeIdx := shm.writeIdx + 1 } := by
  simp only [writeEvent, writeStores, List.foldl_cons, List.foldl_nil, Store.apply, setSlot_mask]
  simp [put]

end CanSniffer.Firmware
