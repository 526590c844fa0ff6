import CanSniffer.AggregatorRuns

namespace CanSniffer.ErrorClasses

open Library Models ErrorDecoder DiagnosticsAggregator

def byte (msg : RawCanMessage) (i : Nat) : Nat := (msg.data.getD i 0).toNat

def IsProtocol (msg : RawCanMessage) : Prop := msg.arbitrationId &&& 0x008 ≠ 0

instance (msg : RawCanMessage) : Decidable (IsProtocol msg) :=
  inferInstanceAs (Decidable (msg.arbitrationId &&& 0x008 ≠ 0))

/-- The counters that the documented classes give for some error frames. -/
def documented (msgs : List RawCanMessage) : ProtoCounts where
  bitErrors := msgs.countP fun msg => IsProtocol msg ∧ byte msg 2 &&& 0x01 ≠ 0
  stuffErrors := msgs.countP fun msg => IsProtocol msg ∧ byte msg 2 &&& 0x04 ≠ 0
  crcErrors := msgs.countP fun msg => IsProtocol msg ∧ byte msg 3 = 0x08
  formErrors := msgs.countP fun msg => IsProtocol msg ∧ byte msg 2 &&& 0x02 ≠ 0
  ackErrors := msgs.countP fun msg => msg.arbitrationId &&& 0x020 ≠ 0

def levels (msg : RawCanMessage) : Option Nat × Option Nat :=
  if msg.arbitrationId &&& 0x004 ≠ 0 then (some (byte msg 6), some (byte msg 7)) else (none, none)

def withLevels (msg : RawCanMessage) (p : TecRecPoller) : TecRecPoller :=
  if msg.arbitrationId &&& 0x004 ≠ 0 then { p with tec := byte msg 6, recCount := byte msg 7 }
  else p

def errorFrame : Call → Option RawCanMessage
  | .errorFrame msg _ _ _ => if msg.isErrorFrame then some msg else none
  | .pruEvent _ _ _ _ | .abort _ _ _ _ | .frame _ _ _ _ | .checkPeriodicTimeouts _ _ _
  | .snapshot _ _ | .poll _ => none

def errorFrames (calls : List Call) : List RawCanMessage := calls.filterMap errorFrame

/-- A run counts its error frames by the documented classes, and takes TEC and REC from those of
the controller's class only. -/
def CountsByClass (d : DiagnosticsAggregator) (calls : List Call) : Prop :=
  (d.run calls).protoCounts = documented (errorFrames calls) ∧
    ∀ before msg decoded now clock after,
      calls = before ++ .errorFrame msg decoded now clock :: after → msg.isErrorFrame →
        ((d.run before).ingestErrorFrame msg decoded now clock).1.map
            (fun err => (err.tec, err.recCount)) = some (levels msg) ∧
          ((d.run before).ingestErrorFrame msg decoded now clock).2.tecRec =
            (d.run before).tecRec.map (withLevels msg)

variable {msg : RawCanMessage} {d : DiagnosticsAggregator} {calls : List Call} {decoded : ℚ}

theorem padded_getD (msg : RawCanMessage) (i : Nat) :
    ((padded msg.data).getD i 0).toNat = byte msg i := by
  rw [byte, padded, List.getD_eq_getElem?_getD, List.getD_eq_getElem?_getD, List.getElem?_append]
  split_ifs with hlt
  · rfl
  · rw [List.getElem?_eq_none (not_lt.mp hlt), List.getElem?_replicate]
    split_ifs <;> rfl

theorem decode_spec (decoded : ℚ) (h : msg.isErrorFrame) :
    ∃ err, decode msg decoded = some err ∧ (err.tec, err.recCount) = levels msg ∧
      (err.bitError = true ↔ IsProtocol msg ∧ byte msg 2 &&& 0x01 ≠ 0) ∧
      (err.stuffError = true ↔ IsProtocol msg ∧ byte msg 2 &&& 0x04 ≠ 0) ∧
      (err.crcError = true ↔ IsProtocol msg ∧ byte msg 3 &&& 0x08 ≠ 0) ∧
      (err.formError = true ↔ IsProtocol msg ∧ byte msg 2 &&& 0x02 ≠ 0) ∧
      (err.ackError = true ↔ msg.arbitrationId &&& 0x020 ≠ 0) := by
  rw [decode, h]
  refine ⟨_, rfl, ?_⟩
  simp only [padded_getD, hasBit, errProt, errCrtl, errAck, protBit, protStuff, protForm, locCrcSeq]
  rw [levels]
  refine ⟨?_, ?_, ?_, ?_, ?_, decide_eq_true_iff⟩
  · by_cases hcrtl : msg.arbitrationId &&& 0x004 = 0 <;> simp [hcrtl]
  all_goals by_cases hprot : msg.arbitrationId &&& 0x008 = 0 <;> simp [IsProtocol, hprot]

/-- What the code counts: any location with the bit of the CRC sequence set is a CRC error. -/
def counted (msgs : List RawCanMessage) : ProtoCounts :=
  { documented msgs with
    crcErrors := msgs.countP fun msg => IsProtocol msg ∧ byte msg 3 &&& 0x08 ≠ 0 }

theorem countP_snoc {α : Type} (p : α → Prop) [DecidablePred p] (xs : List α) (x : α) {b : Bool}
    (h : b = true ↔ p x) :
    (xs ++ [x]).countP (p ·) = if b then xs.countP (p ·) + 1 else xs.countP (p ·) := by
  rw [List.countP_append, List.countP_singleton]
  by_cases hp : p x
  · simp [hp, h.mpr hp]
  · simp [hp, Bool.eq_false_iff.mpr (mt h.mp hp)]

theorem counted_snoc {err : DecodedError} (msgs : List RawCanMessage) (h : msg.isErrorFrame)
    (hdec : decode msg decoded = some err) :
    updateProtoCounts (counted msgs) err = counted (msgs ++ [msg]) := by
  obtain ⟨_, hsome, -, hbit, hstuff, hcrc, hform, hack⟩ := decode_spec decoded h
  rw [hdec] at hsome
  cases hsome
  simp only [updateProtoCounts, counted, documented]
  rw [countP_snoc _ msgs msg hbit, countP_snoc _ msgs msg hstuff, countP_snoc _ msgs msg hcrc,
    countP_snoc _ msgs msg hform, countP_snoc _ msgs msg hack]

theorem step_protoCounts (d : DiagnosticsAggregator) (c : Call) (msgs : List RawCanMessage)
    (h : d.protoCounts = counted msgs) :
    (d.step c).protoCounts = counted (msgs ++ (errorFrame c).toList) := by
  cases c with
  | errorFrame msg decoded now clock =>
    rw [step, ingestErrorFrame, errorFrame]
    by_cases herr : msg.isErrorFrame
    · obtain ⟨err, hdec, -⟩ := decode_spec decoded herr
      rw [hdec, if_pos herr]
      exact (congrArg (updateProtoCounts · err) h).trans (counted_snoc msgs herr hdec)
    · have hnone : decode msg decoded = none := by simp [decode, herr]
      rw [hnone, if_neg herr]
      simpa using h
  | frame frame now wall clock =>
    rw [step, ingestFrame, errorFrame, Option.toList_none, List.append_nil]
    cases d.behav with
    | none => exact h
    | some behav =>
      dsimp only
      split_ifs <;> exact h
  | checkPeriodicTimeouts now wall clock =>
    rw [step, DiagnosticsAggregator.checkPeriodicTimeouts, errorFrame, Option.toList_none,
      List.append_nil]
    cases d.behav with
    | none => exact h
    | some behav =>
      dsimp only
      split_ifs <;> exact h
  | pruEvent event now ts clock =>
    rw [errorFrame, Option.toList_none, List.append_nil]
    exact h
  | abort evt now ts clock =>
    rw [errorFrame, Option.toList_none, List.append_nil]
    exact h
  | snapshot now monotonic =>
    rw [errorFrame, Option.toList_none, List.append_nil]
    exact h
  | poll poller =>
    rw [errorFrame, Option.toList_none, List.append_nil]
    exact h

theorem run_protoCounts (hstart : d.protoCounts = {}) (calls : List Call) :
    (d.run calls).protoCounts = counted (errorFrames calls) := by
  induction calls using List.reverseRecOn with
  | nil => exact hstart
  | append_singleton calls c ih =>
    rw [run_concat, step_protoCounts _ c _ ih, errorFrames, errorFrames, List.filterMap_append]
    cases h : errorFrame c <;> simp [h]

theorem ingest_levels (d : DiagnosticsAggregator) {msg : RawCanMessage} (decoded now : ℚ)
    (clock : Nat → ℚ)
    (h : msg.isErrorFrame) :
    (d.ingestErrorFrame msg decoded now clock).1.map (fun err => (err.tec, err.recCount)) =
        some (levels msg) ∧
      (d.ingestErrorFrame msg decoded now clock).2.tecRec = d.tecRec.map (withLevels msg) := by
  obtain ⟨err, hdec, hlevels, -⟩ := decode_spec decoded h
  rw [ingestErrorFrame, hdec]
  refine ⟨congrArg some hlevels, ?_⟩
  dsimp only
  congr 1
  funext p
  have htec : err.tec = (levels msg).1 := congrArg Prod.fst hlevels
  have hrec : err.recCount = (levels msg).2 := congrArg Prod.snd hlevels
  rw [updateBusStateFromError, htec, hrec, levels, withLevels]
  split_ifs <;> rfl

/-- A stricter count reaches a weaker one only if the two conditions never differ. -/
theorem countP_eq_iff {α : Type} {p q : α → Prop} [DecidablePred p] [DecidablePred q]
    (himp : ∀ x, p x → q x) (xs : List α) :
    xs.countP (q ·) = xs.countP (p ·) ↔ ∀ x ∈ xs, q x → p x := by
  have hsplit : xs.countP (p ·) = (xs.filter (q ·)).countP (p ·) := by
    rw [List.countP_filter]
    apply List.countP_congr
    intro x _
    simpa using himp x
  rw [hsplit, List.countP_eq_length_filter, eq_comm, List.countP_eq_length]
  simp

/-- The counters are those of the documented classes exactly if no protocol error carries a
location that has the bit of the CRC sequence set without being the CRC sequence. -/
theorem counts_by_class_iff (behav : Option BehavioralMonitor) (tecRec : Option TecRecPoller)
    (calls : List Call) :
    CountsByClass { behav, tecRec } calls ↔
      ∀ msg ∈ errorFrames calls, IsProtocol msg → byte msg 3 &&& 0x08 ≠ 0 → byte msg 3 = 0x08 := by
  have hcounts : counted (errorFrames calls) = documented (errorFrames calls) ↔
      (counted (errorFrames calls)).crcErrors = (documented (errorFrames calls)).crcErrors := by
    constructor
    · exact congrArg ProtoCounts.crcErrors
    · exact congrArg fun n => { documented (errorFrames calls) with crcErrors := n }
  have himp : ∀ msg : RawCanMessage, IsProtocol msg ∧ byte msg 3 = 0x08 →
      IsProtocol msg ∧ byte msg 3 &&& 0x08 ≠ 0 := by
    rintro msg ⟨hprot, hloc⟩
    exact ⟨hprot, by rw [hloc]; decide⟩
  rw [CountsByClass, run_protoCounts rfl, hcounts]
  refine (and_iff_left ?_).trans ((countP_eq_iff himp _).trans ?_)
  · intro before msg decoded now clock _ _ herr
    exact ingest_levels _ decoded now clock herr
  · refine forall₂_congr fun msg _ => ⟨?_, ?_⟩
    · exact fun h hprot hloc => (h ⟨hprot, hloc⟩).2
    · exact fun h hmsg => ⟨hmsg.1, h hmsg.1 hmsg.2⟩

def otherLocation : RawCanMessage := ⟨1, 0x008, 8, [0, 0, 0, 0x0A, 0, 0, 0, 0], false, true⟩

/-- It is counted as a CRC error. -/
theorem other_location_counted :
    ¬ CountsByClass {} [.errorFrame otherLocation 1 1 fun _ => 1] := by
  intro h
  have hcounts := h.1
  revert hcounts
  decide +kernel

end CanSniffer.ErrorClasses
