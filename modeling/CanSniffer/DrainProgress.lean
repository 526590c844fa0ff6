import CanSniffer.RingHistory

namespace CanSniffer.DrainProgress

open Library.WhileLoop Library.Trace Models Firmware PruShm RingHistory

/-- A `drain` call, fully consumed, ends without an exception and its cursor equals
the published index modulo `2 ^ 32`. -/
def CatchesUp (r : SharedRing) (nowNs : Int) : Prop :=
  ∃ fuel, (drain fuel r.shm nowNs r.reader).Ended r.shm ∧
    (drain fuel r.shm nowNs r.reader).reader.readIdx ≡ r.shm.writeIdx.toNat [MOD 2 ^ 32]

/-- The cursor is not ahead of the index, or `drain` recognises a restart. -/
def Recoverable (r : SharedRing) : Prop :=
  r.reader.readIdx ≤ r.shm.writeIdx.toNat ∨ r.shm.writeIdx.toNat = 0 ∧ 256 < r.reader.readIdx

instance (r : SharedRing) : Decidable (Recoverable r) := inferInstanceAs (Decidable (_ ∨ _))

theorem catches_up_of_le {r : SharedRing} (h : Sane r)
    (hle : r.reader.readIdx ≤ r.shm.writeIdx.toNat) (nowNs : Int) : CatchesUp r nowNs := by
  obtain ⟨-, hd⟩ := drain_of_le h hle nowNs
  refine ⟨_, ended_of_exit hd, ?_⟩
  rw [hd]

theorem catches_up_of_restart {r : SharedRing} (h : Sane r) (hw : r.shm.writeIdx.toNat = 0)
    (hr : 256 < r.reader.readIdx) (nowNs : Int) : CatchesUp r nowNs := by
  have hp : (r.reader.prepare r.shm nowNs).readIdx = 0 := by
    rw [prepare_readIdx _ _ _ h.cursor, if_pos ⟨hw, hr⟩]
  refine ⟨0, by simp [drain, loop, Drain.Ended, drainBody, hp, hw], ?_⟩
  rw [drain, loop, hp, hw]

/-- A cursor ahead of the index is increased further by each pass of the loop. -/
theorem recoverable_of_ended {r : SharedRing} (h : Sane r) {nowNs : Int} {fuel : Nat}
    (hend : (drain fuel r.shm nowNs r.reader).Ended r.shm) : Recoverable r := by
  have hfwd := drainLoop_forward r.shm r.shm.writeIdx.toNat fuel
    { reader := r.reader.prepare r.shm nowNs }
  have hidx := ended_readIdx hend
  rw [drain] at hidx
  rw [hidx, prepare_readIdx _ _ _ h.cursor] at hfwd
  rw [Recoverable]
  split_ifs at hfwd with hc
  · exact .inr hc
  · exact .inl hfwd

theorem catches_up_iff {r : SharedRing} (h : Sane r) (nowNs : Int) :
    CatchesUp r nowNs ↔ Recoverable r := by
  constructor
  · rintro ⟨fuel, hend, -⟩
    exact recoverable_of_ended h hend
  · rintro (hle | ⟨hw, hr⟩)
    · exact catches_up_of_le h hle nowNs
    · exact catches_up_of_restart h hw hr nowNs

/-- In every state of every run, with any number of wraps and restarts, the next
`drain` ends and catches up exactly when its cursor can still meet the index. -/
theorem drain_ends_iff_recoverable (labels : List Label) (r : SharedRing) (h : Reaches labels r)
    (nowNs : Int) : CatchesUp r nowNs ↔ Recoverable r :=
  catches_up_iff (reaches_sane h) nowNs

/-- Running firmware that has not captured anything; every slot holds an old SOF. -/
def idleMemory : PruShmT :=
  ⟨pruShmMagic, 0, 0, 0, 0, fun _ => ⟨evtSof, 0, 0, 1, 0⟩⟩

def afterFirst : SharedRing :=
  ⟨writeEvent idleMemory (typeCode .sof) 0 1000 0, ⟨0, 500⟩⟩

theorem afterFirst_reached : Reaches [.wrote .sof 0 1000 0] afterFirst :=
  ⟨idleMemory, 500, ⟨0, 500⟩, by decide, .snoc .nil (.write _ .sof 0 1000 0)⟩

theorem afterFirst_ends : CatchesUp afterFirst 4000 :=
  (drain_ends_iff_recoverable [.wrote .sof 0 1000 0] afterFirst afterFirst_reached 4000).mpr
    (by decide)

/-- One event is written and drained, then the firmware restarts: the cursor 1 is
ahead of the index 0 and within the ring depth, so no branch resets it. -/
theorem restart_after_one_event_never_ends :
    ∃ r, Reaches [.wrote .sof 0 1000 0, .drained 4000 [⟨.sof, 0, 0, 4000, 0⟩], .restarted] r ∧
      ¬ CatchesUp r 5000 := by
  have hend : (drain 1 afterFirst.shm 4000 afterFirst.reader).Ended afterFirst.shm := by
    constructor <;> decide
  have hrun : Reaches [.wrote .sof 0 1000 0, .drained 4000 [⟨.sof, 0, 0, 4000, 0⟩], .restarted]
      ⟨(start afterFirst.shm).shm, ⟨1, 3000⟩⟩ :=
    ⟨idleMemory, 500, ⟨0, 500⟩, by decide,
      .snoc (.snoc (.snoc .nil (.write _ .sof 0 1000 0)) (.drain afterFirst 4000 1 hend)) (.restart _)⟩
  refine ⟨_, hrun, fun hc => ?_⟩
  have hr := (catches_up_iff (reaches_sane hrun) 5000).mp hc
  revert hr
  decide

end CanSniffer.DrainProgress
