import CanSniffer.FaultInjector

namespace CanSniffer

/-- What the firmware has loaded of `faults_done++` and not stored yet. -/
def FirmwarePc.held : FirmwarePc → Option UInt32
  | glitchStore _ done | dominantStore done => some done
  | loop | idle | glitchLow _ | glitchHigh _ | glitchLoad _ | reset
  | dominantLow | dominantPoll | dominantHigh | dominantLoad => none

/-- The next access of the firmware is the load of `faults_done++`. -/
def FirmwarePc.loadsDone : FirmwarePc → Bool
  | glitchLoad _ | dominantLoad => true
  | loop | idle | glitchLow _ | glitchHigh _ | glitchStore _ _ | reset
  | dominantLow | dominantPoll | dominantHigh | dominantStore _ => false

namespace SetModePc

/-- What a call has loaded of `faults_done` and is to store back; one that raises stores nothing
back. -/
def held : SetModePc → Option UInt32
  | loadPad mode done | clearMagic mode done | clearMode mode done | clearDone mode done
  | clearPad mode done | storeMagic mode done | storeMode mode done =>
    (word? mode).map fun _ => done
  | storeDone done => some done
  | ready | loadMagic _ | loadMode _ | loadDone _ | storePad => none

/-- The next access clears `faults_done` in a call that raises. -/
def dropsDone : SetModePc → Bool
  | clearDone mode _ => (word? mode).isNone
  | ready | loadMagic _ | loadMode _ | loadDone _ | loadPad _ _ | clearMagic _ _ | clearMode _ _
  | clearPad _ _ | storeMagic _ _ | storeMode _ _ | storeDone _ | storePad => false

/-- A call that raises has not cleared `faults_done` yet. -/
def willDrop : SetModePc → Bool
  | loadMagic mode | loadMode mode | loadDone mode | loadPad mode _ | clearMagic mode _
  | clearMode mode _ | clearDone mode _ => (word? mode).isNone
  | ready | clearPad _ _ | storeMagic _ _ | storeMode _ _ | storeDone _ | storePad => false

end SetModePc

namespace FaultInjector

open Library.Trace

/-- An injection is complete with the store of its increment. -/
def injected (s : FaultInjector) (m : Move) : Nat :=
  if m = .firmware ∧ s.firmware.held.isSome then 1 else 0

def injections (s : FaultInjector) : List Move → Nat
  | [] => 0
  | m :: ms => s.injected m + injections (s.step m) ms

/-- Neither side is in the middle of an update. -/
def Quiet (s : FaultInjector) : Prop := s.firmware.held = none ∧ s.setMode = .ready

instance (s : FaultInjector) : Decidable (Quiet s) :=
  inferInstanceAs (Decidable (s.firmware.held = none ∧ s.setMode = .ready))

def CounterExact (pad : UInt32) (ms : List Move) : Prop :=
  Quiet (ms.foldl step (start pad)) →
    (ms.foldl step (start pad)).shm.faultsDone.toNat = injections (start pad) ms % 2 ^ 32

instance (pad : UInt32) (ms : List Move) : Decidable (CounterExact pad ms) :=
  inferInstanceAs (Decidable (Quiet (ms.foldl step (start pad)) →
    (ms.foldl step (start pad)).shm.faultsDone.toNat = injections (start pad) ms % 2 ^ 32))

/-- While a call holds a counter that it is to store back, the firmware stores and loads no other
value than that; and a call that raises clears the counter only while it is 0, or while the firmware
holds it. -/
def NotOverwritten (s : FaultInjector) : Move → Prop
  | .firmware => ∀ back ∈ s.setMode.held,
      (∀ done ∈ s.firmware.held, back = done + 1) ∧
        (s.firmware.loadsDone = true → back = s.shm.faultsDone)
  | .setMode => s.setMode.dropsDone = true → s.firmware.held = none → s.shm.faultsDone = 0
  | .call _ => True

/-- The call under way is run to its end; none makes more accesses. -/
def finish : List Move := List.replicate 12 .setMode

variable {s t : FaultInjector} {m : Move} {pad : UInt32} {n : Nat}

theorem stepFirmware_counter (s : FaultInjector) :
    s.stepFirmware.setMode = s.setMode ∧
      ((∃ done, s.firmware.held = some done ∧ s.stepFirmware.shm.faultsDone = done + 1 ∧
          s.stepFirmware.firmware.held = none) ∨
        (s.firmware.loadsDone = true ∧ s.firmware.held = none ∧
          s.stepFirmware.shm.faultsDone = s.shm.faultsDone ∧
          s.stepFirmware.firmware.held = some s.shm.faultsDone) ∨
        (s.firmware.loadsDone = false ∧ s.firmware.held = none ∧
          s.stepFirmware.shm.faultsDone = s.shm.faultsDone ∧
          s.stepFirmware.firmware.held = none)) := by
  obtain ⟨shm, recessive, firmware, setMode, command, stores, seen⟩ := s
  cases firmware with
  | glitchStore oneShot done =>
    refine ⟨rfl, .inl ⟨done, rfl, rfl, ?_⟩⟩
    cases oneShot with
    | true => rfl
    | false => rfl
  | dominantStore done => exact ⟨rfl, .inl ⟨done, rfl, rfl, rfl⟩⟩
  | glitchLoad oneShot => exact ⟨rfl, .inr (.inl ⟨rfl, rfl, rfl, rfl⟩)⟩
  | dominantLoad => exact ⟨rfl, .inr (.inl ⟨rfl, rfl, rfl, rfl⟩)⟩
  | loop =>
    refine ⟨rfl, .inr (.inr ⟨rfl, rfl, rfl, ?_⟩)⟩
    dsimp only [stepFirmware, FirmwarePc.ofMode]
    split_ifs <;> rfl
  | dominantPoll =>
    refine ⟨rfl, .inr (.inr ⟨rfl, rfl, rfl, ?_⟩)⟩
    dsimp only [stepFirmware]
    split_ifs <;> rfl
  | idle => exact ⟨rfl, .inr (.inr ⟨rfl, rfl, rfl, rfl⟩)⟩
  | glitchLow oneShot => exact ⟨rfl, .inr (.inr ⟨rfl, rfl, rfl, rfl⟩)⟩
  | glitchHigh oneShot => exact ⟨rfl, .inr (.inr ⟨rfl, rfl, rfl, rfl⟩)⟩
  | reset => exact ⟨rfl, .inr (.inr ⟨rfl, rfl, rfl, rfl⟩)⟩
  | dominantLow => exact ⟨rfl, .inr (.inr ⟨rfl, rfl, rfl, rfl⟩)⟩
  | dominantHigh => exact ⟨rfl, .inr (.inr ⟨rfl, rfl, rfl, rfl⟩)⟩

/-- What a step of `set_mode` does to the counter: it loads it, clears it, stores back what it
holds, or leaves it alone. -/
inductive CounterStep (s t : FaultInjector) : Prop
  | load : s.setMode.held = none → t.shm.faultsDone = s.shm.faultsDone →
      (∀ back ∈ t.setMode.held, back = s.shm.faultsDone) → CounterStep s t
  | clear : t.shm.faultsDone = 0 → t.setMode.held = s.setMode.held → s.setMode.dropsDone = false →
      s.setMode.held.isSome = true → CounterStep s t
  | drop : t.shm.faultsDone = 0 → t.setMode.held = none → s.setMode.held = none →
      s.setMode.dropsDone = true → CounterStep s t
  | store (back : UInt32) : s.setMode.held = some back → t.shm.faultsDone = back →
      t.setMode.held = none → CounterStep s t
  | skip : t.shm.faultsDone = s.shm.faultsDone → t.setMode.held = s.setMode.held →
      CounterStep s t

theorem stepSetMode_counter (s : FaultInjector) :
    s.stepSetMode.firmware = s.firmware ∧ CounterStep s s.stepSetMode := by
  obtain ⟨shm, recessive, firmware, setMode, command, stores, seen⟩ := s
  cases setMode with
  | loadDone mode =>
    refine ⟨rfl, .load rfl rfl fun back hback => ?_⟩
    obtain ⟨word, -, rfl⟩ := Option.map_eq_some_iff.mp hback
    rfl
  | clearDone mode done =>
    refine ⟨rfl, ?_⟩
    cases hword : word? mode with
    | some word =>
      refine .clear rfl rfl ?_ ?_
      · simp [SetModePc.dropsDone, hword]
      · simp [SetModePc.held, hword]
    | none =>
      refine .drop rfl ?_ ?_ ?_
      · simp [stepSetMode, SetModePc.held, hword]
      · simp [SetModePc.held, hword]
      · simp [SetModePc.dropsDone, hword]
  | storeMode mode done =>
    dsimp only [stepSetMode]
    cases hword : word? mode with
    | some word => exact ⟨rfl, .skip rfl (by simp [SetModePc.held, hword])⟩
    | none => exact ⟨rfl, .skip rfl (by simp [SetModePc.held, hword])⟩
  | storeDone done => exact ⟨rfl, .store done rfl rfl rfl⟩
  | ready => exact ⟨rfl, .skip rfl rfl⟩
  | loadMagic mode => exact ⟨rfl, .skip rfl rfl⟩
  | loadMode mode => exact ⟨rfl, .skip rfl rfl⟩
  | loadPad mode done => exact ⟨rfl, .skip rfl rfl⟩
  | clearMagic mode done => exact ⟨rfl, .skip rfl rfl⟩
  | clearMode mode done => exact ⟨rfl, .skip rfl rfl⟩
  | clearPad mode done => exact ⟨rfl, .skip rfl rfl⟩
  | storeMagic mode done => exact ⟨rfl, .skip rfl rfl⟩
  | storePad => exact ⟨rfl, .skip rfl rfl⟩

theorem call_counter (s : FaultInjector) (mode : Int) :
    (s.call mode).shm = s.shm ∧ (s.call mode).firmware = s.firmware ∧
      (s.call mode).setMode.held = s.setMode.held := by
  rw [FaultInjector.call]
  split_ifs with hready
  · exact ⟨rfl, rfl, by rw [hready]; rfl⟩
  · exact ⟨rfl, rfl, rfl⟩

theorem injections_append (s : FaultInjector) (ms ns : List Move) :
    injections s (ms ++ ns) = injections s ms + injections (ms.foldl step s) ns := by
  induction ms generalizing s with
  | nil => exact (Nat.zero_add _).symm
  | cons m ms ih =>
    rw [List.cons_append, injections, injections, ih, List.foldl_cons, Nat.add_assoc]

theorem injections_replicate_setMode (s : FaultInjector) (k : Nat) :
    injections s (List.replicate k .setMode) = 0 := by
  induction k generalizing s with
  | zero => rfl
  | succ k ih =>
    have hmove : ¬(Move.setMode = Move.firmware ∧ s.firmware.held.isSome = true) :=
      fun h => nomatch h.1
    rw [List.replicate_succ, injections, ih, injected, if_neg hmove]

/-- The firmware holds the number of injections. While it holds nothing, a call holds that number,
or else the counter is it. -/
structure Counted (s : FaultInjector) (n : Nat) : Prop where
  firmware : ∀ done ∈ s.firmware.held, done = UInt32.ofNat n
  setMode : s.firmware.held = none → ∀ back ∈ s.setMode.held, back = UInt32.ofNat n
  counter : s.firmware.held = none → s.setMode.held = none → s.shm.faultsDone = UInt32.ofNat n

theorem counted_start (pad : UInt32) : Counted (start pad) 0 := ⟨nofun, nofun, fun _ _ => rfl⟩

theorem Counted.stepFirmware (h : Counted s n) (hm : NotOverwritten s .firmware) :
    Counted s.stepFirmware (n + s.injected .firmware) := by
  obtain ⟨hset, ⟨done, hheld, hcounter, hnone⟩ | ⟨hloads, hheld, hcounter, hsome⟩ |
    ⟨-, hheld, hcounter, hnone⟩⟩ := stepFirmware_counter s
  · have hinjected : s.injected .firmware = 1 := if_pos ⟨rfl, by rw [hheld]; rfl⟩
    have hdone : done + 1 = UInt32.ofNat (n + 1) := by
      rw [h.firmware done hheld, UInt32.ofNat_add]
      rfl
    rw [hinjected]
    refine ⟨?_, fun _ back hback => ?_, fun _ _ => hcounter.trans hdone⟩
    · rw [hnone]
      exact nofun
    · rw [hset] at hback
      exact ((hm back hback).1 done hheld).trans hdone
  · have hinjected : s.injected .firmware = 0 := if_neg (by rw [hheld]; exact fun h => nomatch h.2)
    -- what is loaded is what the call is to store back, if one holds anything
    have hloaded : s.shm.faultsDone = UInt32.ofNat n := by
      cases hback : s.setMode.held with
      | none => exact h.counter hheld hback
      | some back =>
        rw [← (hm back hback).2 hloads]
        exact h.setMode hheld back hback
    rw [hinjected]
    refine ⟨?_, fun hnone => ?_, fun hnone => ?_⟩
    · rw [hsome]
      rintro _ ⟨⟩
      exact hloaded
    · rw [hsome] at hnone
      cases hnone
    · rw [hsome] at hnone
      cases hnone
  · have hinjected : s.injected .firmware = 0 := if_neg (by rw [hheld]; exact fun h => nomatch h.2)
    rw [hinjected]
    refine ⟨?_, fun _ => ?_, fun _ hset' => ?_⟩
    · rw [hnone]
      exact nofun
    · rw [hset]
      exact h.setMode hheld
    · rw [hcounter]
      exact h.counter hheld (hset ▸ hset')

theorem Counted.stepSetMode (h : Counted s n) (hm : NotOverwritten s .setMode) :
    Counted s.stepSetMode n := by
  obtain ⟨hfirmware, hstep⟩ := stepSetMode_counter s
  refine ⟨hfirmware ▸ h.firmware, fun hnone => ?_, fun hnone hset => ?_⟩
  · rw [hfirmware] at hnone
    cases hstep with
    | load hheld _ hload => exact fun back hback => (hload back hback).trans (h.counter hnone hheld)
    | clear _ hsame _ _ => exact hsame ▸ h.setMode hnone
    | drop _ hheld _ _ =>
      rw [hheld]
      exact nofun
    | store back _ _ hheld =>
      rw [hheld]
      exact nofun
    | skip _ hsame => exact hsame ▸ h.setMode hnone
  · rw [hfirmware] at hnone
    cases hstep with
    | load hheld hcounter _ => exact hcounter.trans (h.counter hnone hheld)
    | clear _ hsame _ hsome =>
      rw [← hsame, hset] at hsome
      cases hsome
    | drop hcounter _ hheld hdrops =>
      rw [hcounter, ← hm hdrops hnone]
      exact h.counter hnone hheld
    | store back hback hcounter _ => exact hcounter.trans (h.setMode hnone back hback)
    | skip hcounter hsame => exact hcounter.trans (h.counter hnone (hsame ▸ hset))

theorem Counted.call (h : Counted s n) (mode : Int) : Counted (s.call mode) n := by
  obtain ⟨hshm, hfirmware, hheld⟩ := call_counter s mode
  constructor
  · rw [hfirmware]
    exact h.firmware
  · rw [hfirmware, hheld]
    exact h.setMode
  · rw [hfirmware, hheld, hshm]
    exact h.counter

theorem Counted.step (h : Counted s n) (hm : NotOverwritten s m) :
    Counted (s.step m) (n + s.injected m) := by
  cases m with
  | firmware => exact h.stepFirmware hm
  | call mode => exact h.call mode
  | setMode => exact h.stepSetMode hm

theorem Counted.run {ms : List Move} (h : Counted s n)
    (hms : AllSteps FaultInjector.step NotOverwritten s ms) :
    Counted (ms.foldl FaultInjector.step s) (n + injections s ms) := by
  induction ms generalizing s n with
  | nil => exact h
  | cons m ms ih =>
    rw [injections, ← Nat.add_assoc]
    exact ih (h.step hms.1) hms.2

theorem Counted.exact (h : Counted s n) (hs : Quiet s) :
    s.shm.faultsDone.toNat = n % 2 ^ 32 := by
  rw [h.counter hs.1 (by rw [hs.2]; rfl), UInt32.toNat_ofNat']

theorem stepFirmware_setMode (s : FaultInjector) : s.stepFirmware.setMode = s.setMode :=
  (stepFirmware_counter s).1

theorem finish_setMode (s : FaultInjector) :
    (finish.foldl step s).setMode = .ready ∧ (finish.foldl step s).firmware = s.firmware ∧
      (∀ back ∈ s.setMode.held, (finish.foldl step s).shm.faultsDone = back) ∧
      (s.setMode.willDrop = true → (finish.foldl step s).shm.faultsDone = 0) := by
  obtain ⟨shm, recessive, firmware, setMode, command, stores, seen⟩ := s
  cases setMode
  case ready => exact ⟨rfl, rfl, nofun, nofun⟩
  case storePad => exact ⟨rfl, rfl, nofun, nofun⟩
  case storeDone done =>
    refine ⟨rfl, rfl, ?_, nofun⟩
    rintro _ ⟨⟩
    rfl
  case loadMagic mode | loadMode mode | loadDone mode =>
    cases hword : word? mode <;>
      simp [finish, List.replicate_succ, step, stepSetMode, storeMode, storeDone, hword,
        SetModePc.held, SetModePc.willDrop]
  case loadPad mode done | clearMagic mode done | clearMode mode done | clearDone mode done |
      clearPad mode done | storeMagic mode done | storeMode mode done =>
    cases hword : word? mode <;>
      simp [finish, List.replicate_succ, step, stepSetMode, storeMode, storeDone, hword,
        SetModePc.held, SetModePc.willDrop]

theorem held_of_loadsDone {pc : FirmwarePc} (h : pc.loadsDone = true) : pc.held = none := by
  cases pc <;> first | rfl | cases h

theorem willDrop_of_dropsDone {pc : SetModePc} (h : pc.dropsDone = true) : pc.willDrop = true := by
  cases pc <;> first | exact h | cases h

/-- A call that raises finds the counter 0, unless the firmware holds it. -/
def DropsNothing (s : FaultInjector) : Prop :=
  s.firmware.held = none → s.setMode.willDrop = true → s.shm.faultsDone = 0

theorem DropsNothing.stepSetMode (h : DropsNothing s) : DropsNothing s.stepSetMode := by
  have hstep : s.stepSetMode.firmware = s.firmware ∧
      (s.stepSetMode.setMode.willDrop = true →
        s.setMode.willDrop = true ∧ s.stepSetMode.shm.faultsDone = s.shm.faultsDone) := by
    refine ⟨(stepSetMode_counter s).1, ?_⟩
    obtain ⟨shm, recessive, firmware, setMode, command, stores, seen⟩ := s
    cases setMode with
    | storeMode mode done =>
      dsimp only [FaultInjector.stepSetMode]
      cases word? mode <;> rintro ⟨⟩
    | _ => first | exact fun h => ⟨h, rfl⟩ | rintro ⟨⟩
  intro hnone hdrop
  rw [hstep.1] at hnone
  obtain ⟨hbefore, hsame⟩ := hstep.2 hdrop
  rw [hsame]
  exact h hnone hbefore

theorem DropsNothing.setMode_run (h : DropsNothing s) (k : Nat) :
    AllSteps step NotOverwritten s (List.replicate k .setMode) := by
  induction k generalizing s with
  | zero => trivial
  | succ k ih =>
    rw [List.replicate_succ]
    exact ⟨fun hdrops hnone => h hnone (willDrop_of_dropsDone hdrops), ih h.stepSetMode⟩

theorem firmware_run (hset : s.setMode.held = none) (j : Nat) :
    AllSteps step NotOverwritten s (List.replicate j .firmware) := by
  induction j generalizing s with
  | zero => trivial
  | succ j ih =>
    rw [List.replicate_succ]
    refine ⟨?_, ih (by rw [step, stepFirmware_setMode, hset])⟩
    rw [NotOverwritten, hset]
    exact nofun

theorem counter_of_exact {before : List Move} (more : List Move)
    (hexact : CounterExact pad (before ++ more))
    (hquiet : Quiet (more.foldl step (before.foldl step (start pad)))) :
    (more.foldl step (before.foldl step (start pad))).shm.faultsDone =
      UInt32.ofNat (injections (start pad) before +
        injections (before.foldl step (start pad)) more) := by
  rw [CounterExact, List.foldl_append, injections_append] at hexact
  rw [← UInt32.toNat_inj, hexact hquiet, UInt32.toNat_ofNat']

/-- Where a call under way is run to its end and the counter is exact, it found nothing to drop. -/
theorem dropsNothing_of_exact {before : List Move}
    (hcounted : Counted (before.foldl step (start pad)) (injections (start pad) before))
    (hexact : CounterExact pad (before ++ finish)) : DropsNothing (before.foldl step (start pad)) := by
  intro hnone hdrop
  obtain ⟨hready, hfirmware, -, hzero⟩ := finish_setMode (before.foldl step (start pad))
  have hcounter := counter_of_exact finish hexact ⟨by rw [hfirmware, hnone], hready⟩
  rw [hzero hdrop, finish, injections_replicate_setMode, Nat.add_zero] at hcounter
  have hheld : (before.foldl step (start pad)).setMode.held = none := by
    rw [← Option.not_isSome_iff_eq_none]
    intro hsome
    cases hpc : (before.foldl step (start pad)).setMode <;> rw [hpc] at hsome hdrop <;>
      simp_all [SetModePc.held, SetModePc.willDrop]
  rw [hcounted.counter hnone hheld, ← hcounter]

/-- What the firmware stores or loads while a call holds a counter is what that is to store back, if
the counter is exact after both. -/
theorem firmware_of_exact {before : List Move}
    (hcounted : Counted (before.foldl step (start pad)) (injections (start pad) before))
    (hexact : ∀ j, CounterExact pad
      (before ++ (.firmware :: finish ++ List.replicate j .firmware))) :
    NotOverwritten (before.foldl step (start pad)) .firmware := by
  set s := before.foldl step (start pad) with hs
  intro back hback
  obtain ⟨hready, hfirmware, hstored, -⟩ := finish_setMode s.stepFirmware
  have hset := stepFirmware_setMode s
  have hcounter := hstored back (by rwa [hset])
  obtain ⟨-, ⟨done, hheld, -, hnone⟩ | ⟨-, hheld, -, hsome⟩ | ⟨hloads, hheld, -, -⟩⟩ :=
    stepFirmware_counter s
  · -- the increment is lost unless the call stores the same
    have hat := counter_of_exact (.firmware :: finish) (by simpa using hexact 0)
      ⟨by rw [← hs]; exact (congrArg _ hfirmware).trans hnone, by rw [← hs]; exact hready⟩
    have hinjected : injections s (.firmware :: finish) = 1 := by
      rw [injections, finish, injections_replicate_setMode, injected, hheld]
      rfl
    have hback : back = done + 1 := by
      rw [← hs, hinjected] at hat
      rw [← hcounter, hcounted.firmware done hheld]
      exact hat.trans (UInt32.ofNat_add _ _)
    refine ⟨?_, fun hloads => ?_⟩
    · rw [hheld]
      rintro _ ⟨⟩
      exact hback
    · rw [held_of_loadsDone hloads] at hheld
      cases hheld
  · refine ⟨by rw [hheld]; exact nofun, fun _ => ?_⟩
    -- what is loaded comes back by one more after the call has ended
    have hloaded : (finish.foldl step s.stepFirmware).firmware.held = some s.shm.faultsDone :=
      (congrArg _ hfirmware).trans hsome
    obtain ⟨hset', ⟨done, hdone, hmore, hnone⟩ | ⟨-, hnone, -⟩ | ⟨-, hnone, -⟩⟩ :=
      stepFirmware_counter (finish.foldl step s.stepFirmware)
    · rw [hloaded, Option.some_inj] at hdone
      have hfold : (Move.firmware :: finish ++ [Move.firmware]).foldl step s =
          (finish.foldl step s.stepFirmware).stepFirmware := by
        rw [List.foldl_append]
        rfl
      have hat := counter_of_exact (.firmware :: finish ++ [.firmware])
        (by simpa using hexact 1)
        ⟨by rw [← hs, hfold]; exact hnone, by rw [← hs, hfold]; exact hset'.trans hready⟩
      have hinjected : injections s (.firmware :: finish ++ [.firmware]) = 1 := by
        have hfirst : injections s [.firmware] = 0 := by
          rw [injections, injections, injected, hheld]
          rfl
        have hlast : injections (finish.foldl step s.stepFirmware) [.firmware] = 1 := by
          rw [injections, injections, injected, hloaded]
          rfl
        rw [injections_append, injections, finish, injections_replicate_setMode, ← finish]
        rw [injections] at hfirst
        rw [List.foldl_cons, step, hlast]
        omega
      rw [← hs, hinjected, hfold, hmore, ← hdone, UInt32.ofNat_add] at hat
      rw [hcounted.setMode hheld back hback]
      exact ((UInt32.add_left_inj 1).mp hat).symm
    · rw [hloaded] at hnone
      cases hnone
    · rw [hloaded] at hnone
      cases hnone
  · refine ⟨by rw [hheld]; exact nofun, fun h => ?_⟩
    rw [hloads] at h
    cases h

/-- In every run in which each step meets the condition the counter is exact. And wherever a run is
broken off for a call under way, and then the firmware, to go on alone, the counter is exact
precisely if each step up to the end of that call meets the condition. -/
theorem counter_exact_iff (pad : UInt32) (ms : List Move) :
    (AllSteps step NotOverwritten (start pad) ms → CounterExact pad ms) ∧
      ((∀ before, before <+: ms → ∀ j,
          CounterExact pad (before ++ finish ++ List.replicate j .firmware)) ↔
        ∀ before, before <+: ms → AllSteps step NotOverwritten (start pad) (before ++ finish)) := by
  have hrun {ns : List Move} (hns : AllSteps step NotOverwritten (start pad) ns) :
      Counted (ns.foldl step (start pad)) (injections (start pad) ns) := by
    have hcounted := (counted_start pad).run hns
    rwa [Nat.zero_add] at hcounted
  refine ⟨fun hms => (hrun hms).exact, ⟨fun hexact => ?_, fun hsafe before hbefore j => ?_⟩⟩
  · have hhere {before : List Move} (hbefore : before <+: ms) :
        CounterExact pad (before ++ finish) := by
      simpa using hexact before hbefore 0
    have hsteps : ∀ before, before <+: ms → AllSteps step NotOverwritten (start pad) before := by
      intro before
      induction before using List.reverseRecOn with
      | nil => exact fun _ => trivial
      | append_singleton before m ih =>
        intro hbefore
        have hshort : before <+: ms := (List.prefix_append before [m]).trans hbefore
        have hms := ih hshort
        refine (allSteps_snoc ..).mpr ⟨hms, ?_⟩
        cases m with
        | call mode => trivial
        | setMode =>
          exact fun hdrops hnone => dropsNothing_of_exact (hrun hms) (hhere hshort) hnone
            (willDrop_of_dropsDone hdrops)
        | firmware =>
          apply firmware_of_exact (hrun hms)
          intro j
          have hnext := hexact (before ++ [.firmware]) hbefore j
          rwa [List.append_assoc, List.append_assoc, List.singleton_append,
            ← List.cons_append] at hnext
    intro before hbefore
    have hms := hsteps before hbefore
    exact (allSteps_append ..).mpr
      ⟨hms, (dropsNothing_of_exact (hrun hms) (hhere hbefore)).setMode_run 12⟩
  · have hms := hsafe before hbefore
    have hready := (finish_setMode (before.foldl step (start pad))).1
    rw [← List.foldl_append] at hready
    exact (hrun ((allSteps_append ..).mpr ⟨hms, firmware_run (by rw [hready]; rfl) j⟩)).exact

/-- `set_mode(FAULT_GLITCH_BURST)`, and `set_mode(FAULT_IDLE)` across the first increment. -/
def overwritten : List Move :=
  .call 2 :: List.replicate 12 .setMode ++ List.replicate 4 .firmware ++
    .call 0 :: List.replicate 3 .setMode ++ .firmware :: List.replicate 9 .setMode

theorem increment_lost : ¬ CounterExact 0 overwritten := by
  decide +kernel

end FaultInjector
end CanSniffer
