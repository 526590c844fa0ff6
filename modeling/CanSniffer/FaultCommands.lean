import CanSniffer.FaultInjector

namespace CanSniffer.FaultInjector

open Library.Trace

/-- Until the next call stores to it, the mode that a call has stored stands in memory, unless it is
`FAULT_GLITCH`. -/
def Honoured (s : FaultInjector) : Prop :=
  ∀ mode ∈ s.command, mode ≠ faultGlitch → s.shm.faultMode = mode

-- decided by the stored mode alone, and not by going through all words of 32 bits
instance (s : FaultInjector) : Decidable (Honoured s) :=
  match h : s.command with
  | none => isTrue fun mode hmem => by
      rw [h] at hmem
      cases hmem
  | some mode => decidable_of_iff (mode ≠ faultGlitch → s.shm.faultMode = mode) (by
      simp [Honoured, h])

/-- A reset replaces `FAULT_GLITCH`, and no call has stored to the word since that was read. -/
def ResetsExecuted (s : FaultInjector) (m : Move) : Prop :=
  m = .firmware → s.firmware = .reset → s.shm.faultMode = faultGlitch ∧ s.stores = s.seen

instance (s : FaultInjector) (m : Move) : Decidable (ResetsExecuted s m) :=
  inferInstanceAs (Decidable (m = .firmware → s.firmware = .reset →
    s.shm.faultMode = faultGlitch ∧ s.stores = s.seen))

/-- A step does not lose a command. -/
def Keeps (s : FaultInjector) (m : Move) : Prop := ResetsExecuted s m ∧ Honoured (s.step m)

instance (s : FaultInjector) (m : Move) : Decidable (Keeps s m) :=
  inferInstanceAs (Decidable (ResetsExecuted s m ∧ Honoured (s.step m)))

def NoneLost (pad : UInt32) (ms : List Move) : Prop := AllSteps step Keeps (start pad) ms

/-- The next access of `set_mode` is a store to `fault_mode`: the zero, or a mode that fits. -/
def storesMode : SetModePc → Bool
  | .clearMode _ _ => true
  | .storeMode mode _ => (word? mode).isSome
  | .ready | .loadMagic _ | .loadMode _ | .loadDone _ | .loadPad _ _ | .clearMagic _ _
  | .clearDone _ _ | .clearPad _ _ | .storeMagic _ _ | .storeDone _ | .storePad => false

/-- No call stores to `fault_mode` while the firmware is between its read of `FAULT_GLITCH` and the
reset. -/
def Undisturbed (s : FaultInjector) (m : Move) : Prop :=
  m = .setMode → s.firmware.oneShot = true → storesMode s.setMode = false

instance (s : FaultInjector) (m : Move) : Decidable (Undisturbed s m) :=
  inferInstanceAs (Decidable (_ → _ → _))

variable {s : FaultInjector} {m : Move} {pad : UInt32}

theorem ofMode_oneShot {mode : UInt32} (h : (FirmwarePc.ofMode mode).oneShot = true) :
    mode = faultGlitch := by
  by_contra hglitch
  have hfalse : (FirmwarePc.ofMode mode).oneShot = false := by
    rw [FirmwarePc.ofMode, if_neg hglitch]
    split_ifs <;> rfl
  rw [hfalse] at h
  cases h

/-- How many accesses of the firmware come before the reset. -/
def remaining : FirmwarePc → Nat
  | .glitchLow _ => 4
  | .glitchHigh _ => 3
  | .glitchLoad _ => 2
  | .glitchStore _ _ => 1
  | _ => 0

theorem stepFirmware_cases (s : FaultInjector) :
    (s.firmware = .loop ∧ s.stepFirmware =
        { s with firmware := .ofMode s.shm.faultMode, seen := s.stores }) ∨
      (s.firmware = .reset ∧ s.stepFirmware = { s.storeMode faultIdle with firmware := .loop }) ∨
      (s.stepFirmware.shm.faultMode = s.shm.faultMode ∧ s.stepFirmware.command = s.command ∧
        s.stepFirmware.stores = s.stores ∧
        s.stepFirmware.seen = s.seen ∧
        s.stepFirmware.firmware.oneShot = s.firmware.oneShot ∧
        (s.firmware.oneShot = true →
          remaining s.firmware = remaining s.stepFirmware.firmware + 1)) := by
  obtain ⟨shm, recessive, firmware, setMode, command, stores, seen⟩ := s
  cases firmware with
  | loop => exact .inl ⟨rfl, rfl⟩
  | reset => exact .inr (.inl ⟨rfl, rfl⟩)
  | glitchStore oneShot done =>
    cases oneShot with
    | true => exact .inr (.inr ⟨rfl, rfl, rfl, rfl, rfl, fun _ => rfl⟩)
    | false => exact .inr (.inr ⟨rfl, rfl, rfl, rfl, rfl, nofun⟩)
  | glitchLow oneShot => exact .inr (.inr ⟨rfl, rfl, rfl, rfl, rfl, fun _ => rfl⟩)
  | glitchHigh oneShot => exact .inr (.inr ⟨rfl, rfl, rfl, rfl, rfl, fun _ => rfl⟩)
  | glitchLoad oneShot => exact .inr (.inr ⟨rfl, rfl, rfl, rfl, rfl, fun _ => rfl⟩)
  | dominantPoll =>
    refine .inr (.inr ⟨rfl, rfl, rfl, rfl, ?_, nofun⟩)
    dsimp only [stepFirmware]
    split_ifs
    · rfl
    · rfl
  | idle => exact .inr (.inr ⟨rfl, rfl, rfl, rfl, rfl, nofun⟩)
  | dominantLow => exact .inr (.inr ⟨rfl, rfl, rfl, rfl, rfl, nofun⟩)
  | dominantHigh => exact .inr (.inr ⟨rfl, rfl, rfl, rfl, rfl, nofun⟩)
  | dominantLoad => exact .inr (.inr ⟨rfl, rfl, rfl, rfl, rfl, nofun⟩)
  | dominantStore done => exact .inr (.inr ⟨rfl, rfl, rfl, rfl, rfl, nofun⟩)

theorem stepSetMode_cases (s : FaultInjector) :
    s.stepSetMode.firmware = s.firmware ∧ s.stepSetMode.seen = s.seen ∧
      ((storesMode s.setMode = true ∧ Honoured s.stepSetMode ∧
          s.stepSetMode.stores = s.stores + 1) ∨
        (storesMode s.setMode = false ∧ s.stepSetMode.shm.faultMode = s.shm.faultMode ∧
          s.stepSetMode.command = s.command ∧ s.stepSetMode.stores = s.stores)) := by
  obtain ⟨shm, recessive, firmware, setMode, command, stores, seen⟩ := s
  cases setMode with
  | clearMode mode done =>
    refine ⟨rfl, rfl, .inl ⟨rfl, ?_, rfl⟩⟩
    rintro _ ⟨⟩
  | storeMode mode done =>
    dsimp only [stepSetMode, storesMode]
    cases hword : word? mode with
    | none => exact ⟨rfl, rfl, .inr ⟨rfl, rfl, rfl, rfl⟩⟩
    | some word =>
      refine ⟨rfl, rfl, .inl ⟨rfl, ?_, rfl⟩⟩
      rintro _ ⟨⟩ -
      rfl
  | ready => exact ⟨rfl, rfl, .inr ⟨rfl, rfl, rfl, rfl⟩⟩
  | loadMagic mode => exact ⟨rfl, rfl, .inr ⟨rfl, rfl, rfl, rfl⟩⟩
  | loadMode mode => exact ⟨rfl, rfl, .inr ⟨rfl, rfl, rfl, rfl⟩⟩
  | loadDone mode => exact ⟨rfl, rfl, .inr ⟨rfl, rfl, rfl, rfl⟩⟩
  | loadPad mode done => exact ⟨rfl, rfl, .inr ⟨rfl, rfl, rfl, rfl⟩⟩
  | clearMagic mode done => exact ⟨rfl, rfl, .inr ⟨rfl, rfl, rfl, rfl⟩⟩
  | clearDone mode done => exact ⟨rfl, rfl, .inr ⟨rfl, rfl, rfl, rfl⟩⟩
  | clearPad mode done => exact ⟨rfl, rfl, .inr ⟨rfl, rfl, rfl, rfl⟩⟩
  | storeMagic mode done => exact ⟨rfl, rfl, .inr ⟨rfl, rfl, rfl, rfl⟩⟩
  | storeDone done => exact ⟨rfl, rfl, .inr ⟨rfl, rfl, rfl, rfl⟩⟩
  | storePad => exact ⟨rfl, rfl, .inr ⟨rfl, rfl, rfl, rfl⟩⟩

/-- While the firmware executes a glitch its command stands in memory and is the last one. -/
structure Current (s : FaultInjector) : Prop where
  honoured : Honoured s
  executing : s.firmware.oneShot = true → s.shm.faultMode = faultGlitch ∧ s.stores = s.seen

theorem current_start (pad : UInt32) : Current (start pad) := by
  constructor
  · rintro mode ⟨⟩
  · rintro ⟨⟩

theorem Current.stepFirmware (h : Current s) : Current s.stepFirmware := by
  obtain ⟨-, heq⟩ | ⟨hreset, heq⟩ | ⟨hmode, hcommand, hstores, hseen, hshot, -⟩ :=
    stepFirmware_cases s
  · rw [heq]
    exact ⟨h.honoured, fun hshot => ⟨ofMode_oneShot hshot, rfl⟩⟩
  · rw [heq]
    refine ⟨fun mode hmem hne => ?_, nofun⟩
    -- what is reset is the glitch, so that no other mode was stored last
    have hglitch := (h.executing (by rw [hreset]; rfl)).1
    rw [h.honoured mode hmem hne] at hglitch
    exact absurd hglitch hne
  · constructor
    · rw [Honoured, hmode, hcommand]
      exact h.honoured
    · rw [hshot, hmode, hstores, hseen]
      exact h.executing

theorem Current.stepSetMode (h : Current s) (hstore : Undisturbed s .setMode) :
    Current s.stepSetMode := by
  obtain ⟨hfirmware, hseen, ⟨hstoring, hhonoured, -⟩ | ⟨-, hmode, hcommand, hstores⟩⟩ :=
    stepSetMode_cases s
  · refine ⟨hhonoured, ?_⟩
    rw [hfirmware]
    intro hshot
    rw [hstore rfl hshot] at hstoring
    cases hstoring
  · constructor
    · rw [Honoured, hmode, hcommand]
      exact h.honoured
    · rw [hfirmware, hmode, hstores, hseen]
      exact h.executing

theorem Current.call (h : Current s) (mode : Int) : Current (s.call mode) := by
  rw [FaultInjector.call]
  split_ifs
  · exact ⟨h.honoured, h.executing⟩
  · exact h

theorem Current.step (h : Current s) (hm : Undisturbed s m) : Current (s.step m) := by
  cases m with
  | firmware => exact h.stepFirmware
  | call mode => exact h.call mode
  | setMode => exact h.stepSetMode hm

theorem Current.resetsExecuted (h : Current s) (m : Move) : ResetsExecuted s m := by
  rintro - hreset
  apply h.executing
  rw [hreset]
  rfl

theorem Current.run {ms : List Move} (h : Current s)
    (hms : AllSteps FaultInjector.step Undisturbed s ms) :
    AllSteps FaultInjector.step Keeps s ms := by
  induction ms generalizing s with
  | nil => trivial
  | cons m ms ih =>
    have hstep := h.step hms.1
    exact ⟨⟨h.resetsExecuted m, hstep.honoured⟩, ih hstep hms.2⟩

structure Stale (s : FaultInjector) : Prop where
  executing : s.firmware.oneShot = true
  stored : s.seen < s.stores

theorem Stale.stepSetMode (h : Stale s) :
    Stale s.stepSetMode ∧ s.stepSetMode.firmware = s.firmware := by
  obtain ⟨hfirmware, hseen, hcases⟩ := stepSetMode_cases s
  refine ⟨⟨hfirmware ▸ h.executing, ?_⟩, hfirmware⟩
  rw [hseen]
  obtain ⟨-, -, hstores⟩ | ⟨-, -, -, hstores⟩ := hcases
  · rw [hstores]
    exact h.stored.trans (Nat.lt_succ_self _)
  · rw [hstores]
    exact h.stored

theorem Stale.call (h : Stale s) (mode : Int) :
    Stale (s.call mode) ∧ (s.call mode).firmware = s.firmware := by
  rw [FaultInjector.call]
  split_ifs
  · exact ⟨⟨h.executing, h.stored⟩, rfl⟩
  · exact ⟨h, rfl⟩

theorem Stale.stepFirmware (h : Stale s) (hreset : s.firmware ≠ .reset) :
    Stale s.stepFirmware ∧ remaining s.firmware = remaining s.stepFirmware.firmware + 1 := by
  obtain ⟨hloop, -⟩ | ⟨hreset', -⟩ | ⟨-, -, hstores, hseen, hshot, hremaining⟩ :=
    stepFirmware_cases s
  · have hshot := h.executing
    rw [hloop] at hshot
    cases hshot
  · exact absurd hreset' hreset
  · refine ⟨⟨hshot.trans h.executing, ?_⟩, hremaining h.executing⟩
    rw [hstores, hseen]
    exact h.stored

/-- The reset then replaces another mode than the one that was executed. -/
theorem Stale.lost {ms : List Move} (h : Stale s)
    (hms : remaining s.firmware < ms.count .firmware) : ¬ AllSteps step Keeps s ms := by
  induction ms generalizing s with
  | nil => exact absurd hms (Nat.not_lt_zero _)
  | cons m ms ih =>
    rintro ⟨⟨hexecuted, -⟩, hrest⟩
    cases m with
    | firmware =>
      by_cases hreset : s.firmware = .reset
      · exact h.stored.ne' (hexecuted rfl hreset).2
      · obtain ⟨hstale, hremaining⟩ := h.stepFirmware hreset
        rw [List.count_cons_self] at hms
        exact ih hstale (by omega) hrest
    | call mode =>
      obtain ⟨hstale, hfirmware⟩ := h.call mode
      have hne : Move.call mode ≠ .firmware := nofun
      rw [List.count_cons_of_ne hne] at hms
      exact ih hstale (hfirmware ▸ hms) hrest
    | setMode =>
      obtain ⟨hstale, hfirmware⟩ := h.stepSetMode
      have hne : Move.setMode ≠ .firmware := nofun
      rw [List.count_cons_of_ne hne] at hms
      exact ih hstale (hfirmware ▸ hms) hrest

theorem seen_le_step (h : s.seen ≤ s.stores) (m : Move) : (s.step m).seen ≤ (s.step m).stores := by
  cases m with
  | firmware =>
    obtain ⟨-, heq⟩ | ⟨-, heq⟩ | ⟨-, -, hstores, hseen, -⟩ := stepFirmware_cases s
    · rw [step, heq]
    · rw [step, heq]
      exact h
    · rw [step, hstores, hseen]
      exact h
  | call mode =>
    rw [step, FaultInjector.call]
    split_ifs
    · exact h
    · exact h
  | setMode =>
    obtain ⟨-, hseen, ⟨-, -, hstores⟩ | ⟨-, -, -, hstores⟩⟩ := stepSetMode_cases s
    · rw [step, hseen, hstores]
      exact h.trans (Nat.le_succ _)
    · rw [step, hseen, hstores]
      exact h

theorem seen_le_run (h : s.seen ≤ s.stores) (ms : List Move) :
    (ms.foldl step s).seen ≤ (ms.foldl step s).stores :=
  List.foldlRecOn (motive := fun t : FaultInjector => t.seen ≤ t.stores) _ _ h
    fun _ ht m _ => seen_le_step ht m

theorem stale_of_disturbed (hseen : s.seen ≤ s.stores) (hm : ¬ Undisturbed s m) :
    Stale (s.step m) := by
  simp only [Undisturbed, not_forall, Bool.not_eq_false] at hm
  obtain ⟨rfl, hshot, hstoring⟩ := hm
  obtain ⟨hfirmware, hkept, ⟨-, -, hstores⟩ | ⟨hnot, -⟩⟩ := stepSetMode_cases s
  · constructor
    · rw [step, hfirmware]
      exact hshot
    · rw [step, hkept, hstores]
      exact Nat.lt_succ_of_le hseen
  · rw [hstoring] at hnot
    cases hnot

theorem remaining_le (pc : FirmwarePc) : remaining pc ≤ 4 := by
  cases pc <;> simp [remaining]

/-- In a run, however long the firmware then goes on, no command is lost exactly if no call stores
to `fault_mode` while a glitch is executed. -/
theorem none_lost_iff (pad : UInt32) (ms : List Move) :
    (∀ n, NoneLost pad (ms ++ List.replicate n .firmware)) ↔
      AllSteps step Undisturbed (start pad) ms := by
  constructor
  · intro hkept
    rw [allSteps_iff]
    rintro before m after rfl
    by_contra hm
    have hseen : (start pad).seen ≤ (start pad).stores := le_rfl
    have hstale := stale_of_disturbed (seen_le_run hseen before) hm
    have hrun := hkept 5
    rw [NoneLost, List.append_assoc, allSteps_append, List.cons_append] at hrun
    refine hstale.lost ?_ hrun.2.2
    have hle := remaining_le (step (before.foldl step (start pad)) m).firmware
    rw [List.count_append, List.count_replicate_self]
    omega
  · intro hms n
    apply (current_start pad).run
    rw [allSteps_append]
    refine ⟨hms, ?_⟩
    rw [allSteps_iff]
    rintro before m after heq rfl
    have hmem : Move.setMode ∈ List.replicate n Move.firmware := by simp [heq]
    cases List.eq_of_mem_replicate hmem

/-- `set_mode(FAULT_GLITCH)`, and `set_mode(FAULT_DOMINANT)` while the glitch is injected. -/
def overtaken : List Move :=
  .call 1 :: List.replicate 12 .setMode ++ List.replicate 3 .firmware ++
    .call 3 :: List.replicate 12 .setMode ++ List.replicate 3 .firmware

theorem command_lost : ¬ NoneLost 0 overtaken := by
  rw [NoneLost]
  decide +kernel

end CanSniffer.FaultInjector
