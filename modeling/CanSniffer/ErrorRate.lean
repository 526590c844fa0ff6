import CanSniffer.AggregatorRuns
import CanSniffer.Library.SlidingWindow

namespace CanSniffer.ErrorRate

open Library Library.SlidingWindow Models DiagnosticsAggregator

def errorTimes (calls : List Call) : List ℚ :=
  calls.filterMap fun
    | .errorFrame msg decoded now _ => (ErrorDecoder.decode msg decoded).map fun _ => now
    | .pruEvent _ _ _ _ | .abort _ _ _ _ | .frame _ _ _ _ | .checkPeriodicTimeouts _ _ _
    | .snapshot _ _ | .poll _ => none

def clockOf : Call → Option ℚ
  | .errorFrame _ _ now _ => some now
  | .snapshot now _ => some now
  | .pruEvent _ _ _ _ | .abort _ _ _ _ | .frame _ _ _ _ | .checkPeriodicTimeouts _ _ _
  | .poll _ => none

/-- The instants that lie less than a second before `now`. -/
def lastSecond (now : ℚ) (ts : List ℚ) : List ℚ := ts.filter fun t => Binary64.sub now t < 1

variable {calls : List Call} {d : DiagnosticsAggregator}

theorem lastSecond_lastSecond {last now : ℚ} (h : last ≤ now) (ts : List ℚ) :
    lastSecond now (lastSecond last ts) = lastSecond now ts := by
  apply filter_filter_of_imp
  intro t
  have hle : Binary64.sub last t ≤ Binary64.sub now t := Binary64.round_mono (by linarith)
  simpa using hle.trans_lt

theorem errorTimes_append (calls more : List Call) :
    errorTimes (calls ++ more) = errorTimes calls ++ errorTimes more := List.filterMap_append

theorem step_errTs (d : DiagnosticsAggregator) (c : Call) :
    (errorTimes [c] = [] ∧ (d.step c).errTs = d.errTs) ∨
      ∃ now, errorTimes [c] = [now] ∧ clockOf c = some now ∧
        (d.step c).errTs = lastSecond now (d.errTs ++ [now]) := by
  cases c with
  | errorFrame msg decoded now clock =>
    rw [step, ingestErrorFrame]
    cases hdec : ErrorDecoder.decode msg decoded with
    | none => exact Or.inl ⟨by simp [errorTimes, hdec], rfl⟩
    | some err => exact Or.inr ⟨now, by simp [errorTimes, hdec], rfl, rfl⟩
  | pruEvent event now ts clock => exact Or.inl ⟨rfl, rfl⟩
  | abort evt now ts clock => exact Or.inl ⟨rfl, rfl⟩
  | snapshot now monotonic => exact Or.inl ⟨rfl, rfl⟩
  | poll poller => exact Or.inl ⟨rfl, rfl⟩
  | frame frame now wall clock =>
    refine Or.inl ⟨rfl, ?_⟩
    rw [step, ingestFrame]
    cases d.behav with
    | none => rfl
    | some behav =>
      dsimp only
      split_ifs <;> rfl
  | checkPeriodicTimeouts now wall clock =>
    refine Or.inl ⟨rfl, ?_⟩
    rw [step, DiagnosticsAggregator.checkPeriodicTimeouts]
    cases d.behav with
    | none => rfl
    | some behav =>
      dsimp only
      split_ifs <;> rfl

/-- What the window holds after error frames at `ts`: it was last trimmed at the last of them. -/
def kept (ts : List ℚ) : List ℚ :=
  match ts.getLast? with
  | some last => lastSecond last ts
  | none => []

theorem kept_snoc (ts : List ℚ) (now : ℚ) : kept (ts ++ [now]) = lastSecond now (ts ++ [now]) := by
  rw [kept, List.getLast?_concat]

theorem lastSecond_kept {ts : List ℚ} {now : ℚ} (h : ∀ t ∈ ts, t ≤ now) :
    lastSecond now (kept ts) = lastSecond now ts := by
  rw [kept]
  split
  · rename_i last hlast
    exact lastSecond_lastSecond (h last (List.mem_of_getLast? hlast)) ts
  · rename_i hnone
    rw [List.getLast?_eq_none_iff.mp hnone]

theorem errorTimes_le_clock {now : ℚ} (h : ∀ t ∈ calls.filterMap clockOf, t ≤ now) :
    ∀ t ∈ errorTimes calls, t ≤ now := by
  intro t ht
  obtain ⟨c, hc, hct⟩ := List.mem_filterMap.mp ht
  cases c with
  | errorFrame msg decoded clock _ =>
    obtain ⟨-, -, rfl⟩ := Option.map_eq_some_iff.mp hct
    exact h clock (List.mem_filterMap.mpr ⟨_, hc, rfl⟩)
  | pruEvent event now ts clock => cases hct
  | abort evt now ts clock => cases hct
  | frame frame now wall clock => cases hct
  | checkPeriodicTimeouts now wall clock => cases hct
  | snapshot now monotonic => cases hct
  | poll poller => cases hct

theorem run_errTs (hstart : d.errTs = [])
    (hclock : (calls.filterMap clockOf).Pairwise (· ≤ ·)) :
    (d.run calls).errTs = kept (errorTimes calls) := by
  induction calls using List.reverseRecOn with
  | nil => exact hstart
  | append_singleton calls c ih =>
    rw [List.filterMap_append, List.pairwise_append] at hclock
    obtain ⟨hbefore, -, hlater⟩ := hclock
    rw [run_concat, errorTimes_append]
    obtain ⟨hnone, hsame⟩ | ⟨now, hnow, hc, htrim⟩ := step_errTs (d.run calls) c
    · rw [hnone, hsame, List.append_nil, ih hbefore]
    · have hle : ∀ t ∈ errorTimes calls, t ≤ now :=
        errorTimes_le_clock fun t ht => hlater t ht now (by simp [hc])
      have hkept := lastSecond_kept hle
      rw [hnow, htrim, ih hbefore, kept_snoc]
      simp only [lastSecond, List.filter_append] at hkept ⊢
      rw [hkept]

/-- The count shown is that of the last second exactly when no error frame that was within a
second of the latest one has grown older than that since. -/
theorem error_rate_iff (behav : Option BehavioralMonitor) (tecRec : Option TecRecPoller)
    (calls : List Call) (now monotonic : ℚ) (s : Snapshot)
    (hclock : (calls.filterMap clockOf ++ [now]).Pairwise (· ≤ ·))
    (hs : ((run { behav, tecRec } calls).snapshot now monotonic).1 = some s) :
    s.busHealth.errorFrames1s = (lastSecond now (errorTimes calls)).length ↔
      ∀ last ∈ (errorTimes calls).getLast?, ∀ t ∈ errorTimes calls,
        Binary64.sub last t < 1 → Binary64.sub now t < 1 := by
  obtain ⟨hbefore, -, hlater⟩ := List.pairwise_append.mp hclock
  have hle : ∀ t ∈ errorTimes calls, t ≤ now :=
    errorTimes_le_clock fun t ht => hlater t ht now (by simp)
  obtain ⟨behavioral, -, rfl⟩ := Option.map_eq_some_iff.mp hs
  dsimp only
  rw [run_errTs rfl hbefore, ← lastSecond_kept hle, eq_comm, lastSecond,
    List.length_filter_eq_length_iff, kept]
  cases hlast : (errorTimes calls).getLast? with
  | none => simp
  | some last => simp [lastSecond]

def lostAck : RawCanMessage := ⟨1, 0x20, 8, List.replicate 8 0, false, true⟩

def lastError : List Call := [.errorFrame lostAck 100 100 fun _ => 100]

theorem error_rate_lastError : ∃ s,
    ((run {} lastError).snapshot (201 / 2) 0).1 = some s ∧
      (s.busHealth.errorFrames1s = (lastSecond (201 / 2) (errorTimes lastError)).length ↔
        ∀ last ∈ (errorTimes lastError).getLast?, ∀ t ∈ errorTimes lastError,
          Binary64.sub last t < 1 → Binary64.sub (201 / 2) t < 1) :=
  ⟨_, rfl, error_rate_iff none none lastError (201 / 2) 0 _ (by decide +kernel) rfl⟩

/-- A hundred seconds after the last error frame, the snapshot still counts it. -/
theorem silent_bus_shows_errors : ¬ ∀ calls now monotonic s,
    (calls.filterMap clockOf ++ [now]).Pairwise (· ≤ ·) →
    ((run {} calls).snapshot now monotonic).1 = some s →
      s.busHealth.errorFrames1s = (lastSecond now (errorTimes calls)).length := by
  intro h
  have hrate := h lastError 200 0 _ (by decide +kernel) rfl
  revert hrate
  decide +kernel

end CanSniffer.ErrorRate
