import CanSniffer.Library.Trace
import CanSniffer.PruShm

namespace CanSniffer.RingHistory

open Library.WhileLoop Library.RingSlots Library.Trace Models Firmware PruShm

structure SharedRing where
  shm : PruShmT
  reader : PruShm

/-- What happened at one step: a complete `write_event` call, a firmware restart, or
a complete `drain` call together with the events it yielded. -/
inductive Label
  | wrote (type : PruEventType) (seq : UInt16) (tFallNs : UInt64) (pulseNs : UInt32)
  | restarted
  | drained (nowNs : Int) (events : List PruEvent)
  deriving DecidableEq

def typeCode (type : PruEventType) : UInt8 := UInt8.ofNat type.value

inductive Step : SharedRing → Label → SharedRing → Prop
  | write (r : SharedRing) (type : PruEventType) (seq : UInt16) (tFallNs : UInt64) (pulseNs : UInt32) :
      Step r (.wrote type seq tFallNs pulseNs)
        ⟨writeEvent r.shm (typeCode type) seq tFallNs pulseNs, r.reader⟩
  | restart (r : SharedRing) : Step r .restarted ⟨(start r.shm).shm, r.reader⟩
  | drain (r : SharedRing) (nowNs : Int) (fuel : Nat)
      (hend : (drain fuel r.shm nowNs r.reader).Ended r.shm) :
      Step r (.drained nowNs (drain fuel r.shm nowNs r.reader).yielded)
        ⟨r.shm, (drain fuel r.shm nowNs r.reader).reader⟩

def Reaches (labels : List Label) (r : SharedRing) : Prop :=
  ∃ shm nowNs reader, PruShm.init shm nowNs = some reader ∧ Run Step ⟨shm, reader⟩ labels r

/-- The cursor fits the index type, and unread slots hold events of a known type. -/
structure Sane (r : SharedRing) : Prop where
  cursor : r.reader.readIdx < 2 ^ 32
  known : ∀ i, r.reader.readIdx ≤ i → i < r.shm.writeIdx.toNat →
    ∃ type, (r.shm.ring (slot 256 i)).type = typeCode type

theorem typeCode_decodes (type : PruEventType) :
    PruEventType.ofValue? (typeCode type).toNat = some type := by
  cases type <;> rfl

theorem decodeEvent_isSome {e : PruEventT} {type : PruEventType} (h : e.type = typeCode type)
    (off : Int) : (decodeEvent e off).isSome := by
  simp [decodeEvent, h, typeCode_decodes]

theorem init_sane {shm : PruShmT} {nowNs : Int} {reader : PruShm}
    (h : PruShm.init shm nowNs = some reader) :
    Sane ⟨shm, reader⟩ ∧ reader.readIdx = shm.writeIdx.toNat := by
  rw [PruShm.init] at h
  split_ifs at h
  cases h
  exact ⟨⟨shm.writeIdx.toNat_lt, fun i hlo hhi => absurd hlo (by simpa using hhi)⟩, rfl⟩

theorem write_sane {r : SharedRing} (h : Sane r) (type : PruEventType) (seq : UInt16)
    (tFallNs : UInt64) (pulseNs : UInt32) :
    Sane ⟨writeEvent r.shm (typeCode type) seq tFallNs pulseNs, r.reader⟩ := by
  rw [writeEvent_eq]
  refine ⟨h.cursor, fun i hlo hhi => ?_⟩
  simp only [UInt32.toNat_add, UInt32.reduceToNat] at hhi
  by_cases hs : slot 256 i = slot 256 r.shm.writeIdx.toNat
  · exact ⟨type, by simp [put, hs]⟩
  · have hi : i < r.shm.writeIdx.toNat := by
      have hne : i ≠ r.shm.writeIdx.toNat := fun he => hs (by rw [he])
      omega
    simpa [put, hs] using h.known i hlo hi

/-- A completed drain leaves nothing unread, whatever branch `drain` took. -/
theorem drain_catches_up {r : SharedRing} {nowNs : Int} {fuel : Nat}
    (hend : (drain fuel r.shm nowNs r.reader).Ended r.shm) :
    Sane ⟨r.shm, (drain fuel r.shm nowNs r.reader).reader⟩ := by
  have hidx := ended_readIdx hend
  refine ⟨by simpa only [hidx] using r.shm.writeIdx.toNat_lt, fun i hlo hhi => ?_⟩
  simp only [hidx] at hlo
  exact absurd hlo (by simpa using hhi)

theorem step_sane {r r' : SharedRing} {l : Label} (h : Sane r) (hstep : Step r l r') : Sane r' := by
  cases hstep with
  | write type seq tFallNs pulseNs => exact write_sane h type seq tFallNs pulseNs
  | restart => exact ⟨h.cursor, fun i _ hhi => absurd hhi (by simp [start])⟩
  | drain nowNs fuel hend => exact drain_catches_up hend

theorem reaches_sane {labels : List Label} {r : SharedRing} (h : Reaches labels r) : Sane r := by
  obtain ⟨shm, nowNs, reader, hinit, hrun⟩ := h
  exact hrun.invariant Sane (fun _ _ _ => step_sane) (init_sane hinit).1

theorem drain_unique {shm : PruShmT} {nowNs : Int} {p : PruShm} {f g : Nat}
    (hf : (drain f shm nowNs p).Ended shm) (hg : (drain g shm nowNs p).Ended shm) :
    drain f shm nowNs p = drain g shm nowNs p := by
  obtain hle | hle := Nat.le_total f g
  · exact (loop_stable hf.1 hle).symm
  · exact loop_stable hg.1 hle

theorem ended_of_exit {r : SharedRing} {nowNs : Int} {fuel : Nat} {p : PruShm}
    {events : List PruEvent}
    (h : drain fuel r.shm nowNs r.reader =
      { reader := { p with readIdx := r.shm.writeIdx.toNat }, yielded := events, raised := false }) :
    (drain fuel r.shm nowNs r.reader).Ended r.shm := by
  rw [h]
  simp [Drain.Ended, drainBody]

theorem drain_of_le {r : SharedRing} (h : Sane r) (hle : r.reader.readIdx ≤ r.shm.writeIdx.toNat)
    (nowNs : Int) :
    let p := r.reader.prepare r.shm nowNs
    let n := r.shm.writeIdx.toNat - r.reader.readIdx
    p.readIdx = r.reader.readIdx ∧ drain n r.shm nowNs r.reader =
      { reader := { p with readIdx := r.shm.writeIdx.toNat }
        yielded := (List.range' r.reader.readIdx n).filterMap fun i =>
          decodeEvent (r.shm.ring (slot 256 i)) p.epochOffsetNs
        raised := false } := by
  intro p n
  have hp : p.readIdx = r.reader.readIdx := by
    rw [prepare_readIdx _ _ _ h.cursor, if_neg (by omega)]
  have hn : p.readIdx + n = r.shm.writeIdx.toNat := by omega
  have hloop := drainLoop_yields r.shm n { reader := p } rfl fun i hlo hhi => by
    obtain ⟨type, ht⟩ := h.known i (hp ▸ hlo) (by simpa only [hn] using hhi)
    exact decodeEvent_isSome (by rw [unpackSlot_eq, ht]) _
  simp only [hn, List.nil_append, unpackSlot_eq] at hloop
  exact ⟨hp, by rw [drain, hloop, hp]⟩

end CanSniffer.RingHistory
