import CanSniffer.Library.WrapCounter
import CanSniffer.Firmware

namespace CanSniffer.IepTime

open Library.WrapCounter Library.RingSlots Firmware

/-- What successive calls of `iep_to_ns` return. -/
def recorded : PruShmT → List UInt32 → List UInt64
  | _, [] => []
  | shm, c :: cs => (iepToNs shm c).1 :: recorded (iepToNs shm c).2 cs

def iepCount (t : Nat) : UInt32 := UInt32.ofNat t

/-- The private header fields as an extended counter. -/
def view (shm : PruShmT) : Extender := ⟨shm.pruRolloverNs.toNat, shm.pruPrevIep.toNat⟩

theorem toNat_iepCount (t : Nat) : (iepCount t).toNat = t % 2 ^ 32 := by
  simp [iepCount, UInt32.toNat_ofNat']

theorem iepToNs_view (shm : PruShmT) (c : UInt32)
    (hfit : ((view shm).read (2 ^ 32) c.toNat).total < 2 ^ 64) :
    (iepToNs shm c).1.toNat = ((view shm).read (2 ^ 32) c.toNat).total ∧
      view (iepToNs shm c).2 = (view shm).read (2 ^ 32) c.toNat := by
  by_cases hwrap : c < shm.pruPrevIep
  · have hread : (view shm).read (2 ^ 32) c.toNat =
        ⟨shm.pruRolloverNs.toNat + 2 ^ 32, c.toNat⟩ :=
      Extender.read_of_lt (UInt32.lt_iff_toNat_lt.mp hwrap)
    simp only [hread, Extender.total] at hfit
    have hroll : (shm.pruRolloverNs + iepPeriodNs).toNat = shm.pruRolloverNs.toNat + 2 ^ 32 := by
      rw [UInt64.toNat_add, show iepPeriodNs.toNat = 2 ^ 32 by decide]
      omega
    rw [hread]
    simp only [iepToNs, view, Extender.total, if_pos hwrap, hroll, UInt64.toNat_add,
      UInt64.mul_one, UInt32.toNat_toUInt64]
    exact ⟨Nat.mod_eq_of_lt hfit, trivial⟩
  · have hread : (view shm).read (2 ^ 32) c.toNat = ⟨shm.pruRolloverNs.toNat, c.toNat⟩ :=
      Extender.read_of_le (UInt32.le_iff_toNat_le.mp (UInt32.not_lt.mp hwrap))
    simp only [hread, Extender.total] at hfit
    rw [hread]
    simp only [iepToNs, view, Extender.total, if_neg hwrap, UInt64.toNat_add,
      UInt64.mul_one, UInt32.toNat_toUInt64]
    exact ⟨Nat.mod_eq_of_lt hfit, trivial⟩

theorem recorded_totals (shm : PruShmT) {t : Nat} (ticks : List Nat)
    (hprev : (view shm).prev = t % 2 ^ 32) (htotal : (view shm).total ≤ t)
    (hmono : (t :: ticks).IsChain (· ≤ ·)) (hbound : ∀ u ∈ ticks, u < 2 ^ 64) :
    (recorded shm (ticks.map iepCount)).map UInt64.toNat =
      (view shm).totals (2 ^ 32) (ticks.map (· % 2 ^ 32)) := by
  induction ticks generalizing t shm with
  | nil => rfl
  | cons u us ih =>
    obtain ⟨htu, hmono'⟩ := List.isChain_cons_cons.mp hmono
    have hle := Extender.total_read_le (by norm_num) hprev htotal htu
    have hu := hbound u List.mem_cons_self
    obtain ⟨hval, hview⟩ := iepToNs_view shm (iepCount u)
      (by rw [toNat_iepCount]; omega)
    rw [toNat_iepCount] at hval hview
    have hrest := @ih (iepToNs shm (iepCount u)).2 u (by rw [hview]; rfl)
      (by rwa [hview]) hmono' (fun v hv => hbound v (List.mem_cons_of_mem u hv))
    rw [hview] at hrest
    rw [List.map_cons, List.map_cons, recorded, List.map_cons, hval, hrest, Extender.totals]

/-- Events at the given true times are recorded at exactly these times, which increase. -/
def ExactTimes (shm : PruShmT) (ticks : List Nat) : Prop :=
  (recorded shm (ticks.map iepCount)).map UInt64.toNat = ticks ∧
    (recorded shm (ticks.map iepCount)).Pairwise (· < ·)

/-- The counter is read again before it has wrapped past its last reading. -/
def SampledEachPeriod (ticks : List Nat) : Prop :=
  (0 :: ticks).IsChain fun t u => u - t < 2 ^ 32

theorem recorded_pairwise {shm : PruShmT} {ticks : List Nat} (hmono : ticks.IsChain (· < ·))
    (h : (recorded shm (ticks.map iepCount)).map UInt64.toNat = ticks) :
    (recorded shm (ticks.map iepCount)).Pairwise (· < ·) := by
  rw [← h, List.isChain_iff_pairwise, List.pairwise_map] at hmono
  exact hmono.imp fun hlt => UInt64.lt_iff_toNat_lt.mpr hlt

theorem isChain_zero_le {ticks : List Nat} (hmono : ticks.IsChain (· < ·)) :
    (0 :: ticks).IsChain (· ≤ ·) := by
  rw [List.isChain_iff_pairwise] at hmono ⊢
  exact List.pairwise_cons.mpr ⟨fun _ _ => Nat.zero_le _, hmono.imp Nat.le_of_lt⟩

theorem recorded_eq_iff (shm : PruShmT) (hprev : shm.pruPrevIep = 0)
    (hrollover : shm.pruRolloverNs = 0) {ticks : List Nat} (hmono : ticks.IsChain (· < ·))
    (hbound : ∀ t ∈ ticks, t < 2 ^ 63) :
    (recorded shm (ticks.map iepCount)).map UInt64.toNat = ticks ↔ SampledEachPeriod ticks := by
  have hview : view shm = ⟨0, 0⟩ := by simp [view, hprev, hrollover]
  have hle := isChain_zero_le hmono
  have htotals := recorded_totals shm (t := 0) ticks (by simp [hview])
    (by simp [hview, Extender.total]) hle fun u hu => (hbound u hu).trans (by norm_num)
  rw [htotals]
  exact Extender.totals_eq_iff (by norm_num) ticks (by simp [hview])
    (by simp [hview, Extender.total]) hle

/-- The rollover accumulator is right exactly when every wrap of the counter is seen by
some event. -/
theorem iepToNs_exact_iff (shm : PruShmT) (hprev : shm.pruPrevIep = 0)
    (hrollover : shm.pruRolloverNs = 0) (ticks : List Nat) (hmono : ticks.IsChain (· < ·))
    (hbound : ∀ t ∈ ticks, t < 2 ^ 63) : ExactTimes shm ticks ↔ SampledEachPeriod ticks := by
  have hiff := recorded_eq_iff shm hprev hrollover hmono hbound
  constructor
  · rintro ⟨hexact, -⟩
    exact hiff.mp hexact
  · intro h
    have hexact := hiff.mpr h
    exact ⟨hexact, recorded_pairwise hmono hexact⟩

theorem iepToNs_exact_steady : ExactTimes (start
      ⟨0, 0, 0, 0, 0, fun _ => ⟨0, 0, 0, 0, 0⟩⟩).shm [100, 4294967295, 8589934590] ↔
    SampledEachPeriod [100, 4294967295, 8589934590] :=
  iepToNs_exact_iff _ rfl rfl _ (by decide) (by decide)

/-- After an idle bus for a little more than one period, the second event is recorded
5 ns after the first. -/
theorem idle_period_lost : ¬ ∀ (shm : PruShmT) (ticks : List Nat), shm.pruPrevIep = 0 →
    shm.pruRolloverNs = 0 → ticks.IsChain (fun t u => t < u ∧ blindCounts.toNat ≤ u - t) →
    (∀ t ∈ ticks, t < 2 ^ 63) → ExactTimes shm ticks := by
  intro h
  have hexact := h (start ⟨0, 0, 0, 0, 0, fun _ => ⟨0, 0, 0, 0, 0⟩⟩).shm
    [100, 100 + 4294967296 + 5] rfl rfl (by decide) (by decide)
  exact absurd hexact.1 (by decide)

/-- The events of `main` for the times it recorded. -/
def sofEvents : UInt16 → List UInt64 → List PruEventT
  | _, [] => []
  | seq, t :: ts => ⟨evtSof, 0, seq, t, 0⟩ :: sofEvents (seq + 1) ts

theorem capture_eq (pru : Pru) (c : UInt32) :
    pru.capture c = Pru.writeSof ⟨(iepToNs pru.shm c).2, pru.seq⟩ (iepToNs pru.shm c).1 := rfl

theorem recorded_writeEvent (shm : PruShmT) (type : UInt8) (seq : UInt16) (tFallNs : UInt64)
    (pulseNs : UInt32) (counts : List UInt32) :
    recorded (writeEvent shm type seq tFallNs pulseNs) counts = recorded shm counts := by
  rw [writeEvent_eq]
  induction counts generalizing shm with
  | nil => rfl
  | cons c cs ih =>
    rw [recorded, recorded]
    apply congrArg
    exact ih (iepToNs shm c).2

theorem capturesHold_from (counts : List UInt32) (pru : Pru) (done : List PruEventT)
    (hidx : slot 256 pru.shm.writeIdx.toNat = slot 256 (0 + done.length))
    (hdone : Holds pru.shm.ring 0 done) :
    Holds (counts.foldl Pru.capture pru).shm.ring 0
      (done ++ sofEvents pru.seq (recorded pru.shm counts)) := by
  induction counts generalizing pru done with
  | nil => simpa [recorded, sofEvents] using hdone
  | cons c cs ih =>
    let event : PruEventT := ⟨evtSof, 0, pru.seq, (iepToNs pru.shm c).1, 0⟩
    have hring : (pru.capture c).shm.ring = put pru.shm.ring (0 + done.length) event := by
      rw [capture_eq, Pru.writeSof, writeEvent_eq, put, put, ← hidx]
      rfl
    have hwrite : (pru.capture c).shm.writeIdx = pru.shm.writeIdx + 1 := by
      rw [capture_eq, Pru.writeSof, writeEvent_eq]
      rfl
    have hnext := ih (pru.capture c) (done ++ [event]) ?_ (hring ▸ holds_put hdone event)
    · rw [capture_eq, Pru.writeSof, recorded_writeEvent, List.append_assoc] at hnext
      exact hnext
    · rw [hwrite]
      have hmod := congrArg Fin.val hidx
      apply Fin.ext
      simp only [slot, List.length_append, List.length_singleton, UInt32.toNat_add,
        UInt32.reduceToNat] at hmod ⊢
      omega

theorem captures_hold (shm : PruShmT) (counts : List UInt32) :
    Holds (counts.foldl Pru.capture (start shm)).shm.ring 0
      (sofEvents 0 (recorded (start shm).shm counts)) :=
  capturesHold_from counts (start shm) [] rfl (holds_nil _ _)

/-- With the counter read in each period, the ring shows every capture at its true time. -/
theorem captures_exact (shm : PruShmT) (ticks : List Nat) (hmono : ticks.IsChain (· < ·))
    (hbound : ∀ t ∈ ticks, t < 2 ^ 63) (hsampled : SampledEachPeriod ticks) :
    Holds ((ticks.map iepCount).foldl Pru.capture (start shm)).shm.ring 0
      (sofEvents 0 (ticks.map UInt64.ofNat)) := by
  have hexact := (recorded_eq_iff (start shm).shm rfl rfl hmono hbound).mpr hsampled
  have hround : UInt64.ofNat ∘ UInt64.toNat = id := by
    funext t
    exact UInt64.ofNat_toNat
  have hrec := congrArg (List.map UInt64.ofNat) hexact
  rw [List.map_map, hround, List.map_id] at hrec
  rw [← hrec]
  exact captures_hold shm _

end CanSniffer.IepTime
