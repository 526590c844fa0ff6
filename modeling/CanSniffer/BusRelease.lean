import CanSniffer.FaultInjector

namespace CanSniffer.FaultInjector

inductive Access
  | readMode (mode : UInt32)
  | resetMode
  | readDone
  | writeDone
  | writeBit (recessive : Bool)
  deriving DecidableEq, Repr

def Access.isReadMode : Access → Bool
  | readMode _ => true
  | resetMode | readDone | writeDone | writeBit _ => false

/-- The access that `stepFirmware` makes. -/
def access (s : FaultInjector) : Access :=
  match s.firmware with
  | .loop | .dominantPoll => .readMode s.shm.faultMode
  | .glitchLow _ | .dominantLow => .writeBit false
  | .idle | .glitchHigh _ | .dominantHigh => .writeBit true
  | .glitchLoad _ | .dominantLoad => .readDone
  | .glitchStore _ _ | .dominantStore _ => .writeDone
  | .reset => .resetMode

/-- The firmware after its first accesses, and these, when its successive reads of `fault_mode`
return `reads`. -/
def firmwareRun (pad : UInt32) (reads : Nat → UInt32) : Nat → FaultInjector × List Access
  | 0 => (start pad, [])
  | n + 1 =>
    let before := firmwareRun pad reads n
    let s := before.1.storeMode (reads (before.2.countP Access.isReadMode))
    (s.stepFirmware, before.2 ++ [s.access])

def falls (s t : FaultInjector) : Bool := s.recessive && !t.recessive

/-- The intervals in which the bit was 0: each begins with a fall, since it starts as 1. -/
def intervals (pad : UInt32) (reads : Nat → UInt32) (n : Nat) : Nat :=
  (List.range n).countP fun k => falls (firmwareRun pad reads k).1 (firmwareRun pad reads (k + 1)).1

/-- No write to R30 follows a read of another mode than `FAULT_DOMINANT`. -/
def NotReleased (accesses : List Access) : Prop :=
  ∀ before mode after, accesses = before ++ .readMode mode :: after → mode ≠ faultDominant →
    ∀ recessive, .writeBit recessive ∉ after

/-- A read has returned `FAULT_DOMINANT`, and the first write to R30 after a later read of another
mode has not come yet. -/
def HeldDominant (accesses : List Access) : Prop :=
  ∃ before after, accesses = before ++ .readMode faultDominant :: after ∧ NotReleased after

variable {s : FaultInjector} {accesses : List Access} {pad : UInt32} {reads : Nat → UInt32}

def isDominant : FirmwarePc → Bool
  | .glitchHigh _ | .dominantPoll | .dominantHigh => true
  | .loop | .idle | .glitchLow _ | .glitchLoad _ | .glitchStore _ _ | .reset
  | .dominantLow | .dominantLoad | .dominantStore _ => false

/-- The intervals of the iteration under way that are not counted yet. -/
def uncounted : FirmwarePc → Nat
  | .glitchHigh _ | .glitchLoad _ | .glitchStore _ _
  | .dominantPoll | .dominantHigh | .dominantLoad | .dominantStore _ => 1
  | .loop | .idle | .glitchLow _ | .reset | .dominantLow => 0

def Driven (s : FaultInjector) : Prop := s.recessive = !isDominant s.firmware

theorem isDominant_ofMode (mode : UInt32) : isDominant (.ofMode mode) = false := by
  rw [FirmwarePc.ofMode]
  split_ifs <;> rfl

theorem uncounted_ofMode (mode : UInt32) : uncounted (.ofMode mode) = 0 := by
  rw [FirmwarePc.ofMode]
  split_ifs <;> rfl

theorem Driven.stepFirmware (h : Driven s) :
    Driven s.stepFirmware ∧
      (falls s s.stepFirmware).toNat + uncounted s.firmware =
        [s.access].count .writeDone + uncounted s.stepFirmware.firmware := by
  obtain ⟨shm, recessive, firmware, setMode, command, stores, seen⟩ := s
  obtain rfl : recessive = !isDominant firmware := h
  cases firmware with
  | loop =>
    dsimp only [FaultInjector.stepFirmware, Driven]
    rw [isDominant_ofMode, uncounted_ofMode]
    exact ⟨rfl, rfl⟩
  | dominantPoll =>
    dsimp only [FaultInjector.stepFirmware, Driven]
    split_ifs
    · exact ⟨rfl, rfl⟩
    · exact ⟨rfl, rfl⟩
  | glitchStore oneShot done =>
    cases oneShot with
    | true => exact ⟨rfl, rfl⟩
    | false => exact ⟨rfl, rfl⟩
  | idle => exact ⟨rfl, rfl⟩
  | glitchLow oneShot => exact ⟨rfl, rfl⟩
  | glitchHigh oneShot => exact ⟨rfl, rfl⟩
  | glitchLoad oneShot => exact ⟨rfl, rfl⟩
  | reset => exact ⟨rfl, rfl⟩
  | dominantLow => exact ⟨rfl, rfl⟩
  | dominantHigh => exact ⟨rfl, rfl⟩
  | dominantLoad => exact ⟨rfl, rfl⟩
  | dominantStore done => exact ⟨rfl, rfl⟩

theorem driven_firmwareRun (pad : UInt32) (reads : Nat → UInt32) (n : Nat) :
    Driven (firmwareRun pad reads n).1 := by
  induction n with
  | zero => rfl
  | succ n ih =>
    have hsupplied : Driven ((firmwareRun pad reads n).1.storeMode
        (reads ((firmwareRun pad reads n).2.countP Access.isReadMode))) := ih
    exact hsupplied.stepFirmware.1

theorem intervals_eq (pad : UInt32) (reads : Nat → UInt32) (n : Nat) :
    intervals pad reads n = (firmwareRun pad reads n).2.count .writeDone +
      uncounted (firmwareRun pad reads n).1.firmware := by
  induction n with
  | zero => rfl
  | succ n ih =>
    have hsupplied : Driven ((firmwareRun pad reads n).1.storeMode
        (reads ((firmwareRun pad reads n).2.countP Access.isReadMode))) :=
      driven_firmwareRun pad reads n
    have hstep := hsupplied.stepFirmware.2
    have hlast : intervals pad reads (n + 1) = intervals pad reads n +
        (falls (firmwareRun pad reads n).1 (firmwareRun pad reads (n + 1)).1).toNat := by
      rw [intervals, List.range_succ, List.countP_append, List.countP_singleton, intervals,
        Bool.toNat, Bool.cond_eq_ite]
    rw [hlast, ih, firmwareRun, List.count_append]
    have hpc : ((firmwareRun pad reads n).1.storeMode
        (reads ((firmwareRun pad reads n).2.countP Access.isReadMode))).firmware =
          (firmwareRun pad reads n).1.firmware := rfl
    rw [hpc] at hstep
    dsimp only [falls, storeMode] at hstep ⊢
    omega

theorem driven_run (pad : UInt32) (ms : List Move) : Driven (ms.foldl step (start pad)) := by
  refine List.foldlRecOn (motive := Driven) _ _ rfl fun s hs m _ => ?_
  cases m with
  | firmware => exact hs.stepFirmware.1
  | call mode =>
    rw [step, call]
    split_ifs
    · exact hs
    · exact hs
  | setMode =>
    obtain ⟨shm, recessive, firmware, setMode, command, stores, seen⟩ := s
    cases setMode with
    | storeMode mode done =>
      dsimp only [step, stepSetMode]
      split
      · exact hs
      · exact hs
    | _ => exact hs

/-- What the accesses so far say while the firmware executes `FAULT_DOMINANT`. -/
def Explained : FirmwarePc → List Access → Prop
  | .dominantLow, accesses | .dominantPoll, accesses =>
    ∃ before after, accesses = before ++ .readMode faultDominant :: after ∧
      ∀ mode, .readMode mode ∈ after → mode = faultDominant
  | .dominantHigh, accesses => HeldDominant accesses
  | .loop, _ | .idle, _ | .glitchLow _, _ | .glitchHigh _, _ | .glitchLoad _, _
  | .glitchStore _ _, _ | .reset, _ | .dominantLoad, _ | .dominantStore _, _ => True

theorem explained_ofMode (mode : UInt32) :
    Explained (.ofMode mode) (accesses ++ [.readMode mode]) := by
  by_cases hdominant : mode = faultDominant
  · subst hdominant
    exact ⟨accesses, [], rfl, fun mode hmem => nomatch hmem⟩
  · rw [FirmwarePc.ofMode, if_neg hdominant]
    split_ifs <;> trivial

theorem notReleased_of_forall
    (h : ∀ mode, Access.readMode mode ∈ accesses → mode = faultDominant) :
    NotReleased accesses := by
  rintro before mode after rfl hne
  exact absurd (h mode (by simp)) hne

theorem notReleased_snoc {mode : UInt32}
    (h : ∀ mode, Access.readMode mode ∈ accesses → mode = faultDominant) :
    NotReleased (accesses ++ [.readMode mode]) := by
  intro before other after heq hne recessive hmem
  obtain rfl | ⟨after, last, rfl⟩ := after.eq_nil_or_concat
  · cases hmem
  · rw [List.concat_eq_append, ← List.cons_append, ← List.append_assoc] at heq
    have hinit := (List.append_inj' heq rfl).1
    exact hne (h other (by simp [hinit]))

theorem Explained.step (h : Explained s.firmware accesses) :
    Explained s.stepFirmware.firmware (accesses ++ [s.access]) := by
  obtain ⟨shm, recessive, firmware, setMode, command, stores, seen⟩ := s
  cases firmware with
  | loop => exact explained_ofMode shm.faultMode
  | dominantLow =>
    obtain ⟨before, after, rfl, hreads⟩ := h
    refine ⟨before, after ++ [.writeBit false], by simp; rfl, fun mode hmem => hreads mode ?_⟩
    simpa using hmem
  | dominantPoll =>
    obtain ⟨before, after, rfl, hreads⟩ := h
    dsimp only [stepFirmware, access]
    split_ifs with hmode
    · refine ⟨before, after ++ [.readMode shm.faultMode], by simp, fun mode hmem => ?_⟩
      obtain hmem | hlast := List.mem_append.mp hmem
      · exact hreads mode hmem
      · cases List.mem_singleton.mp hlast
        exact hmode
    · exact ⟨before, after ++ [.readMode shm.faultMode], by simp, notReleased_snoc hreads⟩
  | glitchStore oneShot done =>
    cases oneShot with
    | true => trivial
    | false => trivial
  | idle => trivial
  | glitchLow oneShot => trivial
  | glitchHigh oneShot => trivial
  | glitchLoad oneShot => trivial
  | reset => trivial
  | dominantHigh => trivial
  | dominantLoad => trivial
  | dominantStore done => trivial

theorem explained_firmwareRun (pad : UInt32) (reads : Nat → UInt32) (n : Nat) :
    Explained (firmwareRun pad reads n).1.firmware (firmwareRun pad reads n).2 := by
  induction n with
  | zero => trivial
  | succ n ih =>
    apply Explained.step
    exact ih

/-- The bit is 0 only within a pulse or while `FAULT_DOMINANT` is executed. -/
theorem dominant_cases (hs : Driven s) (h : Explained s.firmware accesses)
    (hbit : s.recessive = false) :
    (∃ oneShot, s.firmware = .glitchHigh oneShot) ∨ HeldDominant accesses := by
  have hdominant : isDominant s.firmware = true := by
    rw [Driven, hbit] at hs
    simpa using hs.symm
  generalize s.firmware = pc at h hdominant
  cases pc with
  | glitchHigh oneShot => exact .inl ⟨oneShot, rfl⟩
  | dominantPoll =>
    obtain ⟨before, after, heq, hreads⟩ := h
    exact .inr ⟨before, after, heq, notReleased_of_forall hreads⟩
  | dominantHigh => exact .inr h
  | loop => cases hdominant
  | idle => cases hdominant
  | glitchLow oneShot => cases hdominant
  | glitchLoad oneShot => cases hdominant
  | glitchStore oneShot done => cases hdominant
  | reset => cases hdominant
  | dominantLow => cases hdominant
  | dominantLoad => cases hdominant
  | dominantStore done => cases hdominant

/-- For all values that the reads of `fault_mode` return: in front of an iteration the bit is 1 and
every interval is counted, and it is 0 only in a pulse or while `FAULT_DOMINANT` is executed. -/
theorem bus_released (pad : UInt32) (reads : Nat → UInt32) (n : Nat) :
    ((firmwareRun pad reads n).1.firmware = .loop →
        (firmwareRun pad reads n).1.recessive = true) ∧
      ((firmwareRun pad reads n).1.recessive = false →
        (∃ oneShot, (firmwareRun pad reads n).1.firmware = .glitchHigh oneShot) ∨
          HeldDominant (firmwareRun pad reads n).2) ∧
      ((firmwareRun pad reads n).1.firmware = .loop →
        (firmwareRun pad reads n).2.count .writeDone = intervals pad reads n) := by
  have hdriven := driven_firmwareRun pad reads n
  refine ⟨?_, ?_, ?_⟩
  · intro hloop
    rw [Driven, hloop] at hdriven
    exact hdriven
  · exact dominant_cases hdriven (explained_firmwareRun pad reads n)
  · intro hloop
    rw [intervals_eq, hloop]
    rfl

end CanSniffer.FaultInjector
