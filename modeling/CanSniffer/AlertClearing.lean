import CanSniffer.AggregatorRuns

namespace CanSniffer.AlertClearing

open Library Library.PyText Models AlertManager DiagnosticsAggregator

def ActiveFor (mgr : AlertManager) (category : AlertCategory) (id : Nat) : Prop :=
  ∃ p ∈ mgr.activeAlerts, p.2.category = category ∧ p.2.canId = some (id : Int)

instance (mgr : AlertManager) (category : AlertCategory) (id : Nat) :
    Decidable (ActiveFor mgr category id) :=
  inferInstanceAs (Decidable (∃ p ∈ mgr.activeAlerts, p.2.category = category ∧
    p.2.canId = some (id : Int)))

/-- No active alert says that a message is missing. -/
def Cleared (mgr : AlertManager) (id : Nat) : Prop :=
  ¬ ActiveFor mgr .missingMsg id ∧ ¬ ActiveFor mgr .missingMsgTransient id

def overdueRatio (d : DiagnosticsAggregator) (id : Nat) (now : ℚ) : Option ℚ := do
  let state ← (← d.behav).states.get? id
  let cycleMs ← (← state.cycleTimeMs).toFloat?
  Binary64.div? (Binary64.sub now state.lastRxTime) (Binary64.div cycleMs 1000)

/-- A scan finds a message no more than 150 % of its cycle time overdue. -/
def OnTime (d : DiagnosticsAggregator) (id : Nat) (now : ℚ) : Prop :=
  ∃ ratio, overdueRatio d id now = some ratio ∧ ratio ≤ BehavioralMonitor.overdueInfo

variable {mgr : AlertManager} {category : AlertCategory} {id : Nat}

theorem activeFor_iff : ActiveFor mgr category id ↔
    ∃ key a, mgr.activeAlert key = some a ∧ a.category = category ∧ a.canId = some (id : Int) := by
  constructor
  · rintro ⟨⟨ref, a⟩, hmem, ha⟩
    obtain ⟨key, hkey⟩ := mem_activeAlerts.mp ⟨ref, hmem⟩
    exact ⟨key, a, hkey, ha⟩
  · rintro ⟨key, a, hkey, ha⟩
    obtain ⟨ref, hmem⟩ := mem_activeAlerts.mpr ⟨key, hkey⟩
    exact ⟨_, hmem, ha⟩

theorem afterSubmit_triple (alert : Alert) (now : ℚ) (a : Alert) :
    (afterSubmit alert now (some a)).1.triple = a.triple := by
  rw [afterSubmit]
  split_ifs
  · exact triple_countUp a
  · exact triple_refire now a

theorem activeFor_submit (h : ActiveFor mgr category id) {alert : Alert}
    (hfresh : alert.resolved = false) (now : ℚ) :
    ActiveFor (mgr.submit alert now).2 category id := by
  obtain ⟨key, a, hkey, hcat, hid⟩ := activeFor_iff.mp h
  obtain ⟨-, hafter⟩ := submit_spec mgr hfresh now
  rw [activeFor_iff, hafter]
  by_cases hk : key = makeKey alert.triple
  · subst hk
    have htriple := afterSubmit_triple alert now a
    refine ⟨_, _, Function.update_self .., ?_, ?_⟩
    · rw [hkey]
      exact (congrArg Triple.category htriple).trans hcat
    · rw [hkey]
      exact (congrArg Triple.canId htriple).trans hid
  · exact ⟨key, a, by rw [Function.update_of_ne hk, hkey], hcat, hid⟩

theorem activeFor_submitAll {alerts : List (Alert × ℚ)}
    (hfresh : ∀ p ∈ alerts, p.1.resolved = false) (h : ActiveFor mgr category id) :
    ActiveFor (submitAll mgr alerts) category id := by
  induction alerts generalizing mgr with
  | nil => exact h
  | cons p alerts ih =>
    have hrest := fun q hq => hfresh q (List.mem_cons_of_mem p hq)
    exact ih hrest (activeFor_submit h (hfresh p List.mem_cons_self) p.2)

theorem activeFor_run {d : DiagnosticsAggregator} (hd : Fresh d)
    (h : ActiveFor d.alerts category id) (calls : List Call) :
    ActiveFor (d.run calls).alerts category id := by
  induction calls generalizing d with
  | nil => exact h
  | cons c calls ih =>
    apply ih (fresh_step hd c)
    rw [step_alerts]
    exact activeFor_submitAll (submissions_fresh hd c) h

/-- A message that is reported missing is not cleared when it comes again. -/
theorem missing_never_clears (db : BehavioralMonitor.Database) (boot : Nat → ℚ)
    (tecRec : Option TecRecPoller) (history : List Call) (id : Nat)
    (hactive : ActiveFor ((start db boot tecRec).run history).alerts .missingMsg id)
    (frame : EnrichedFrame) (_ : frame.arbId = id) (now : ℚ) (wall clock : Nat → ℚ)
    (between : List Call) (checkedAt : ℚ) (wall' clock' : Nat → ℚ)
    (_ : OnTime ((start db boot tecRec).run (history ++ .frame frame now wall clock :: between)) id
      checkedAt) :
    ¬ Cleared ((start db boot tecRec).run (history ++ .frame frame now wall clock :: between ++
      [.checkPeriodicTimeouts checkedAt wall' clock'])).alerts id := by
  rintro ⟨hcleared, -⟩
  have hlater := activeFor_run (fresh_run db boot tecRec history) hactive
    (.frame frame now wall clock :: between ++ [.checkPeriodicTimeouts checkedAt wall' clock'])
  rw [run, run, ← List.foldl_append, ← List.append_assoc] at hlater
  exact hcleared hlater

def status : BehavioralMonitor.Database where
  messages := [⟨0x100, "Status", 8, some (.int 10), fun _ => none⟩]
  getMessageByFrameId := fun _ => none
  decodeMessage := fun _ _ => none

def statusFrame : EnrichedFrame := ⟨0x100, 8, List.replicate 8 0, false, none, 2, 0⟩

theorem missing_never_clears_status :
    ¬ Cleared ((start status (fun _ => 0) none).run
      ([.checkPeriodicTimeouts 1 (fun _ => 1) fun _ => 1] ++
        .frame statusFrame 2 (fun _ => 2) (fun _ => 2) :: [] ++
          [.checkPeriodicTimeouts 2 (fun _ => 2) fun _ => 2])).alerts 0x100 :=
  missing_never_clears status (fun _ => 0) none [.checkPeriodicTimeouts 1 (fun _ => 1) fun _ => 1]
    0x100 (by decide +kernel) statusFrame rfl 2 (fun _ => 2) (fun _ => 2) [] 2 (fun _ => 2)
    (fun _ => 2) ⟨0, by decide +kernel, by decide +kernel⟩

/-- The message is 100 cycles overdue, comes again, and stays reported as missing at a scan that
finds it on time. -/
theorem returned_stays_missing :
    let d := (start status (fun _ => 0) none).run
      [.checkPeriodicTimeouts 1 (fun _ => 1) fun _ => 1,
        .frame statusFrame 2 (fun _ => 2) fun _ => 2]
    OnTime d 0x100 2 ∧
      ¬ Cleared (d.step (.checkPeriodicTimeouts 2 (fun _ => 2) fun _ => 2)).alerts 0x100 := by
  refine ⟨⟨0, ?_, ?_⟩, ?_⟩
  · decide +kernel
  · decide +kernel
  · rintro ⟨hcleared, -⟩
    exact absurd hcleared (by decide +kernel)

end CanSniffer.AlertClearing
