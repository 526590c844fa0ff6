import CanSniffer.Library.WhileLoop
import CanSniffer.Firmware
import CanSniffer.Models

namespace CanSniffer

open Library.WhileLoop Library.RingSlots Models Firmware

/-- The reader's own state; the shared memory is passed to each operation. -/
structure PruShm where
  readIdx : Nat
  epochOffsetNs : Int
  deriving DecidableEq, Repr

namespace PruShm

def unpackSlot (shm : PruShmT) (i : Nat) : PruEventT :=
  shm.ring (slot 256 (i &&& (256 - 1)))

def latestPruNs (shm : PruShmT) : Int :=
  let w := shm.writeIdx.toNat
  if w = 0 then 0 else (unpackSlot shm (w - 1)).tFallNs.toNat

/-- `nowNs` is the value of `time.time_ns()`. -/
def calibrate (shm : PruShmT) (nowNs : Int) : Int := nowNs - latestPruNs shm

/-- `PruShm.__init__`; `none` is its RuntimeError. -/
def init (shm : PruShmT) (nowNs : Int) : Option PruShm :=
  if shm.magic ≠ pruShmMagic then none
  else some ⟨shm.writeIdx.toNat, calibrate shm nowNs⟩

def normalWrap (writeIdx readIdx : Nat) : Prop :=
  let readMod := readIdx &&& 0xFFFFFFFF
  writeIdx ≠ readMod ∧ ((readMod : Int) - writeIdx) % 2 ^ 32 < 256

instance (writeIdx readIdx : Nat) : Decidable (normalWrap writeIdx readIdx) :=
  inferInstanceAs (Decidable (_ ∧ _))

def detectRestart (p : PruShm) (shm : PruShmT) (nowNs : Int) : PruShm :=
  let writeIdx := shm.writeIdx.toNat
  if normalWrap writeIdx p.readIdx then p
  else if writeIdx = 0 ∧ p.readIdx > 256 then ⟨0, calibrate shm nowNs⟩
  else p

/-- The recalibration that `drain` makes when there is something to yield. -/
def recalibrate (p : PruShm) (shm : PruShmT) (nowNs : Int) : PruShm :=
  if shm.writeIdx.toNat ≠ p.readIdx then
    let latest := latestPruNs shm
    if latest > 0 then { p with epochOffsetNs := nowNs - latest } else p
  else p

/-- `drain` up to its loop. A call reads the clock at most once: after a restart the
indices are equal. -/
def prepare (p : PruShm) (shm : PruShmT) (nowNs : Int) : PruShm :=
  (p.detectRestart shm nowNs).recalibrate shm nowNs

/-- Build the yielded event; `none` is the ValueError of `PruEventType(etype)`. -/
def decodeEvent (e : PruEventT) (epochOffsetNs : Int) : Option PruEvent :=
  (PruEventType.ofValue? e.type.toNat).map fun type =>
    { type, flags := e.flags.toNat, seq := e.seq.toNat
      tFallNs := e.tFallNs.toNat + epochOffsetNs, pulseNs := e.pulseNs.toNat }

/-- A suspended `drain` generator with everything it has yielded so far. -/
structure Drain where
  reader : PruShm
  yielded : List PruEvent := []
  raised : Bool := false
  deriving DecidableEq, Repr

def drainBody (shm : PruShmT) (writeIdx : Nat) (d : Drain) : Option Drain :=
  if d.raised then none
  else if d.reader.readIdx ≠ writeIdx then
    match decodeEvent (unpackSlot shm d.reader.readIdx) d.reader.epochOffsetNs with
    | some event => some { d with
        reader := { d.reader with readIdx := d.reader.readIdx + 1 }
        yielded := d.yielded ++ [event] }
    | none => some { d with raised := true }
  else none

/-- `drain` resumed at most `fuel` times, with no firmware write in between. -/
def drain (fuel : Nat) (shm : PruShmT) (nowNs : Int) (p : PruShm) : Drain :=
  loop (drainBody shm shm.writeIdx.toNat) fuel { reader := p.prepare shm nowNs }

/-- The generator has run to its end without an exception. -/
def Drain.Ended (shm : PruShmT) (d : Drain) : Prop :=
  drainBody shm shm.writeIdx.toNat d = none ∧ d.raised = false

theorem unpackSlot_eq (shm : PruShmT) (i : Nat) : unpackSlot shm i = shm.ring (slot 256 i) := by
  have hs : slot 256 (i &&& (256 - 1)) = slot 256 i := by
    apply Fin.ext
    simp only [slot, show (256 - 1 : Nat) = 2 ^ 8 - 1 by decide, Nat.and_two_pow_sub_one_eq_mod]
    omega
  rw [unpackSlot, hs]

theorem normalWrap_iff {writeIdx readIdx : Nat} (hr : readIdx < 2 ^ 32) :
    normalWrap writeIdx readIdx ↔
      writeIdx ≠ readIdx ∧ ((readIdx : Int) - writeIdx) % 2 ^ 32 < 256 := by
  have hm : readIdx &&& 0xFFFFFFFF = readIdx := by
    rw [show (0xFFFFFFFF : Nat) = 2 ^ 32 - 1 by decide, Nat.and_two_pow_sub_one_eq_mod,
      Nat.mod_eq_of_lt hr]
  simp only [normalWrap, hm]

theorem prepare_readIdx (p : PruShm) (shm : PruShmT) (nowNs : Int) (hr : p.readIdx < 2 ^ 32) :
    (p.prepare shm nowNs).readIdx =
      if shm.writeIdx.toNat = 0 ∧ 256 < p.readIdx then 0 else p.readIdx := by
  have hw := shm.writeIdx.toNat_lt
  have hrecal : ∀ q : PruShm, (q.recalibrate shm nowNs).readIdx = q.readIdx := by
    intro q
    rw [recalibrate]
    dsimp only
    split_ifs <;> rfl
  rw [prepare, hrecal, detectRestart]
  simp only [normalWrap_iff hr]
  split_ifs
  all_goals first | rfl | omega

theorem drainLoop_yields (shm : PruShmT) (n : Nat) (d : Drain) (hraised : d.raised = false)
    (hdec : ∀ i, d.reader.readIdx ≤ i → i < d.reader.readIdx + n →
      (decodeEvent (unpackSlot shm i) d.reader.epochOffsetNs).isSome) :
    loop (drainBody shm (d.reader.readIdx + n)) n d =
      { reader := { d.reader with readIdx := d.reader.readIdx + n }
        yielded := d.yielded ++ (List.range' d.reader.readIdx n).filterMap fun i =>
          decodeEvent (unpackSlot shm i) d.reader.epochOffsetNs
        raised := false } := by
  induction n generalizing d with
  | zero => cases d; simp_all [loop]
  | succ n ih =>
    obtain ⟨event, he⟩ := Option.isSome_iff_exists.mp (hdec d.reader.readIdx le_rfl (by omega))
    let next : Drain :=
      ⟨{ d.reader with readIdx := d.reader.readIdx + 1 }, d.yielded ++ [event], d.raised⟩
    have hbody : drainBody shm (d.reader.readIdx + (n + 1)) d = some next := by
      simp [drainBody, hraised, he, next]
    have hrec := ih next hraised fun i hlo hhi =>
      hdec i (by simp only [next] at hlo; omega) (by simp only [next] at hhi; omega)
    have hidx : next.reader.readIdx + n = d.reader.readIdx + (n + 1) := by
      simp only [next]; omega
    rw [hidx] at hrec
    rw [loop_succ hbody, hrec]
    simp [next, List.range'_succ, he]

/-- The cursor only moves forward, so it never comes back to an index behind it. -/
theorem drainLoop_forward (shm : PruShmT) (writeIdx fuel : Nat) (d : Drain) :
    d.reader.readIdx ≤ (loop (drainBody shm writeIdx) fuel d).reader.readIdx := by
  refine loop_invariant (fun t : Drain => d.reader.readIdx ≤ t.reader.readIdx) ?_ fuel le_rfl
  intro s t hst hs
  rw [drainBody] at hst
  split_ifs at hst
  split at hst <;> cases hst
  · exact hs.trans (Nat.le_succ _)
  · exact hs

theorem ended_readIdx {shm : PruShmT} {d : Drain} (h : d.Ended shm) :
    d.reader.readIdx = shm.writeIdx.toNat := by
  obtain ⟨hbody, hraised⟩ := h
  by_contra hne
  simp only [drainBody, hraised, Bool.false_eq_true, if_false, ne_eq, hne, not_false_eq_true,
    if_true] at hbody
  split at hbody <;> cases hbody

end PruShm
end CanSniffer
