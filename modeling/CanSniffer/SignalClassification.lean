import CanSniffer.SignalQualityMonitor
import CanSniffer.Library.SlidingWindow

namespace CanSniffer.SignalClassification

open Library Library.SlidingWindow Models SignalQualityMonitor

/-- A call on the monitor with what it reads of the clock, `ts` in the constructor of the alert. -/
inductive Call
  | pruEvent (event : PruEvent) (now ts : ℚ)
  | abort (evt : AbortedFrameEvent) (now ts : ℚ)
  | snapshot (now : ℚ)
  | drainAlerts

def clock : Call → Option ℚ
  | .pruEvent _ now _ | .abort _ now _ | .snapshot now => some now
  | .drainAlerts => none

def step (m : SignalQualityMonitor) : Call → SignalQualityMonitor
  | .pruEvent event now ts => m.ingestPruEvent event now ts
  | .abort evt now ts => m.ingestAbort evt now ts
  | .snapshot now => (m.snapshot now).2
  | .drainAlerts => m.drainAlerts.2

def run (m : SignalQualityMonitor) (calls : List Call) : SignalQualityMonitor := calls.foldl step m

def emittedBy (m : SignalQualityMonitor) (c : Call) : List Alert :=
  (step m c).pendingAlerts.drop m.pendingAlerts.length

/-- All that a run emits. -/
def emitted : SignalQualityMonitor → List Call → List Alert
  | _, [] => []
  | m, c :: cs => emittedBy m c ++ emitted (step m c) cs

/-- What the calls of `drain_alerts` in a run return. -/
def drained : SignalQualityMonitor → List Call → List (List Alert)
  | _, [] => []
  | m, .drainAlerts :: cs => m.drainAlerts.1 :: drained (step m .drainAlerts) cs
  | m, c :: cs => drained (step m c) cs

def isGlitch : Call → Bool
  | .pruEvent event _ _ => event.type = .glitch
  | .abort _ _ _ | .snapshot _ | .drainAlerts => false

def isRunaway : Call → Bool
  | .pruEvent event _ _ => event.type = .dominantRunaway
  | .abort _ _ _ | .snapshot _ | .drainAlerts => false

def isAbort : Call → Bool
  | .abort _ _ _ => true
  | .pruEvent _ _ _ | .snapshot _ | .drainAlerts => false

def instants (kind : Call → Bool) (calls : List Call) : List ℚ := (calls.filter kind).filterMap clock

/-- `t` has not left the window at `now`. -/
def recent (now t : ℚ) : Bool := Binary64.sub now 1 ≤ t

/-- How many calls of one kind in the history lie in the window at `now`. -/
def count (kind : Call → Bool) (calls : List Call) (now : ℚ) : Nat :=
  (instants kind calls).countP (recent now)

/-- The alerts that a call has to emit after the history `before`. -/
def verdict (before : List Call) (c : Call) : List AlertCategory :=
  match c with
  | .pruEvent event now _ =>
    match event.type with
    | .glitch =>
      [if 3 ≤ count isGlitch (before ++ [c]) now then .glitchBurst else .singleGlitch]
    | .dominantRunaway => [.dominantRunaway]
    | .sof => []
  | .abort _ now _ =>
    [if 5 ≤ count isAbort (before ++ [c]) now then .repeatedAborts else .abortedFrame]
  | .snapshot _ | .drainAlerts => []

def later (calls : List Call) (now : ℚ) : Prop := ∀ t ∈ calls.filterMap clock, t ≤ now

structure Windows (calls : List Call) (m : SignalQualityMonitor) : Prop where
  glitch : Covers recent (later calls) m.glitchWindow (instants isGlitch calls)
  abort : Covers recent (later calls) m.abortWindow (instants isAbort calls)
  runaway : m.runawayActive = calls.any isRunaway

variable {calls : List Call} {m : SignalQualityMonitor} {c : Call} {now : ℚ} {kind : Call → Bool}
  {window : List ℚ}

theorem run_concat (m : SignalQualityMonitor) (calls : List Call) (c : Call) :
    run m (calls ++ [c]) = step (run m calls) c := List.foldl_concat ..

theorem instants_snoc (kind : Call → Bool) (calls : List Call) (c : Call) :
    instants kind (calls ++ [c]) =
      instants kind calls ++ if kind c then (clock c).toList else [] := by
  rw [instants, instants, List.filter_append, List.filterMap_append]
  by_cases h : kind c
  · rw [List.filter_cons_of_pos h, if_pos h, List.filter_nil]
    cases hc : clock c <;> simp [hc]
  · rw [List.filter_cons_of_neg h, if_neg h, List.filter_nil, List.filterMap_nil]

theorem instants_sublist (kind : Call → Bool) (calls : List Call) :
    (instants kind calls).Sublist (calls.filterMap clock) :=
  List.filter_sublist.filterMap clock

theorem recent_of_le {now' : ℚ} (h : now ≤ now') (t : ℚ) (ht : recent now' t) : recent now t := by
  simp only [recent, decide_eq_true_eq] at ht ⊢
  exact (Binary64.round_mono (by linarith)).trans ht

theorem trim_eq_filter (h : window.Pairwise (· ≤ ·)) (now : ℚ) :
    trim window now = window.filter (recent now) :=
  dropWhile_eq_filter id (Binary64.sub now windowS) h

theorem later_of_snoc (h : later (calls ++ [c]) now) : later calls now := by
  intro t ht
  apply h t
  rw [List.filterMap_append]
  exact List.mem_append_left _ ht

theorem clock_le_of_later {t : ℚ} (h : later (calls ++ [c]) now) (hc : clock c = some t) :
    t ≤ now := by
  apply h t
  simp [List.filterMap_append, hc]

theorem append_covers (h : Covers recent (later calls) window (instants kind calls))
    (hc : clock c = some now) :
    Covers recent (later (calls ++ [c])) (window ++ if kind c then [now] else [])
      (instants kind (calls ++ [c])) := by
  have hmono : Covers recent (later (calls ++ [c])) window (instants kind calls) :=
    h.mono fun t => later_of_snoc
  rw [instants_snoc, hc]
  by_cases hk : kind c
  · rw [if_pos hk, if_pos hk]
    exact hmono.snoc now
  · rw [if_neg hk, if_neg hk, List.append_nil, List.append_nil]
    exact hmono

theorem trim_append (h : Covers recent (later calls) window (instants kind calls))
    (hclock : ((calls ++ [c]).filterMap clock).Pairwise (· ≤ ·)) (hc : clock c = some now) :
    trim (window ++ if kind c then [now] else []) now =
      (window ++ if kind c then [now] else []).filter (recent now) :=
  trim_eq_filter (hclock.sublist ((append_covers h hc).sublist.trans (instants_sublist _ _))) now

theorem trim_covers (h : Covers recent (later calls) window (instants kind calls))
    (hclock : ((calls ++ [c]).filterMap clock).Pairwise (· ≤ ·)) (hc : clock c = some now) :
    Covers recent (later (calls ++ [c])) (trim (window ++ if kind c then [now] else []) now)
      (instants kind (calls ++ [c])) := by
  rw [trim_append h hclock hc]
  exact (append_covers h hc).trim fun now' hlater => recent_of_le (clock_le_of_later hlater hc)

theorem length_trim (h : Covers recent (later calls) window (instants kind calls))
    (hclock : ((calls ++ [c]).filterMap clock).Pairwise (· ≤ ·)) (hc : clock c = some now) :
    (trim (window ++ if kind c then [now] else []) now).length = count kind (calls ++ [c]) now := by
  have hlater : later (calls ++ [c]) now := by
    intro t ht
    simp only [List.filterMap_append, List.filterMap_cons, hc, List.filterMap_nil] at hclock ht
    obtain ht | ht := List.mem_append.mp ht
    · exact (List.pairwise_append.mp hclock).2.2 t ht now List.mem_cons_self
    · exact (List.mem_singleton.mp ht).le
  rw [trim_append h hclock hc, (append_covers h hc).same now hlater, count,
    List.countP_eq_length_filter]

theorem other_covers (h : Covers recent (later calls) window (instants kind calls))
    (hc : kind c = false) :
    Covers recent (later (calls ++ [c])) window (instants kind (calls ++ [c])) := by
  rw [instants_snoc, hc, if_neg Bool.false_ne_true, List.append_nil]
  exact h.mono fun t => later_of_snoc

theorem windows_nil : Windows [] {} where
  glitch := .nil
  abort := .nil
  runaway := rfl

theorem emit_windows {category : AlertCategory} {msg : String} {ts : ℚ} (h : Windows calls m) :
    Windows calls (m.emit category msg ts) := ⟨h.glitch, h.abort, h.runaway⟩

theorem windows_step (h : Windows calls m)
    (hclock : ((calls ++ [c]).filterMap clock).Pairwise (· ≤ ·)) :
    Windows (calls ++ [c]) (step m c) := by
  have hany : (calls ++ [c]).any isRunaway = (calls.any isRunaway || isRunaway c) := by
    simp
  cases c with
  | pruEvent event now ts =>
    have habort : Covers recent (later (calls ++ [.pruEvent event now ts])) m.abortWindow
        (instants isAbort (calls ++ [.pruEvent event now ts])) := other_covers h.abort rfl
    rw [step, ingestPruEvent]
    cases htype : event.type with
    | glitch =>
      have hk : isGlitch (.pruEvent event now ts) = true := by simp [isGlitch, htype]
      have hglitch := trim_covers h.glitch hclock rfl
      rw [hk, if_pos rfl] at hglitch
      have hwindows : Windows (calls ++ [.pruEvent event now ts])
          { m with glitchWindow := trim (m.glitchWindow ++ [now]) now } :=
        ⟨hglitch, habort, by simp [h.runaway, hany, isRunaway, htype]⟩
      dsimp only
      split_ifs <;> exact emit_windows hwindows
    | dominantRunaway =>
      have hk : isGlitch (.pruEvent event now ts) = false := by simp [isGlitch, htype]
      apply emit_windows
      exact ⟨other_covers h.glitch hk, habort, by simp [isRunaway, htype]⟩
    | sof =>
      have hk : isGlitch (.pruEvent event now ts) = false := by simp [isGlitch, htype]
      exact ⟨other_covers h.glitch hk, habort, by simp [h.runaway, isRunaway, htype]⟩
  | abort evt now ts =>
    have habort := trim_covers h.abort hclock rfl
    have hwindows : Windows (calls ++ [.abort evt now ts])
        { m with abortWindow := trim (m.abortWindow ++ [now]) now } :=
      ⟨other_covers h.glitch rfl, habort, by simp [h.runaway, isRunaway]⟩
    rw [step, ingestAbort]
    dsimp only
    split_ifs <;> exact emit_windows hwindows
  | snapshot now =>
    have hglitch := trim_covers h.glitch hclock rfl
    have habort := trim_covers h.abort hclock rfl
    rw [isGlitch, if_neg Bool.false_ne_true, List.append_nil] at hglitch
    rw [isAbort, if_neg Bool.false_ne_true, List.append_nil] at habort
    exact ⟨hglitch, habort, by simp [step, snapshot, h.runaway, isRunaway]⟩
  | drainAlerts =>
    exact ⟨other_covers h.glitch rfl, other_covers h.abort rfl,
      by simp [step, drainAlerts, h.runaway, isRunaway]⟩

theorem windows_run (hclock : (calls.filterMap clock).Pairwise (· ≤ ·)) :
    Windows calls (run {} calls) := by
  induction calls using List.reverseRecOn with
  | nil => exact windows_nil
  | append_singleton calls c ih =>
    have hbefore : (calls.filterMap clock).Pairwise (· ≤ ·) := by
      rw [List.filterMap_append] at hclock
      exact (List.pairwise_append.mp hclock).1
    rw [run_concat]
    exact windows_step (ih hbefore) hclock

theorem prefix_step (m : SignalQualityMonitor) (hc : c ≠ .drainAlerts) :
    m.pendingAlerts <+: (step m c).pendingAlerts := by
  cases c with
  | pruEvent event now ts =>
    rw [step, ingestPruEvent]
    cases event.type with
    | glitch =>
      dsimp only
      split_ifs <;> exact List.prefix_append _ _
    | dominantRunaway => exact List.prefix_append _ _
    | sof => exact List.prefix_rfl
  | abort evt now ts =>
    rw [step, ingestAbort]
    dsimp only
    split_ifs <;> exact List.prefix_append _ _
  | snapshot now => exact List.prefix_rfl
  | drainAlerts => exact absurd rfl hc

theorem emitted_drained (m : SignalQualityMonitor) (calls : List Call) :
    m.pendingAlerts ++ emitted m calls =
      (drained m calls).flatten ++ (run m calls).pendingAlerts := by
  induction calls generalizing m with
  | nil => simp [emitted, drained, run]
  | cons c calls ih =>
    have hrest := ih (step m c)
    by_cases hc : c = .drainAlerts
    · subst hc
      have hnone : emittedBy m .drainAlerts = [] := by simp [emittedBy, step, drainAlerts]
      have hempty : (step m .drainAlerts).pendingAlerts = [] := rfl
      rw [hempty, List.nil_append] at hrest
      rw [emitted, hnone, List.nil_append, hrest, drained, List.flatten_cons, List.append_assoc]
      rfl
    · have hkeep : m.pendingAlerts ++ emittedBy m c = (step m c).pendingAlerts :=
        (List.prefix_iff_eq_append.mp (prefix_step m hc))
      have hdrained : drained m (c :: calls) = drained (step m c) calls := by
        cases c with
        | drainAlerts => exact absurd rfl hc
        | pruEvent event now ts => rfl
        | abort evt now ts => rfl
        | snapshot now => rfl
      rw [emitted, ← List.append_assoc, hkeep, hrest, hdrained]
      rfl

theorem emittedBy_emit {m' : SignalQualityMonitor} {category : AlertCategory} {msg : String} {ts : ℚ}
    (h : step m c = m'.emit category msg ts) (hsame : m'.pendingAlerts = m.pendingAlerts) :
    (emittedBy m c).map (·.category) = [category] := by
  rw [emittedBy, h, emit, hsame, List.drop_left]
  rfl

/-- One call emits the alerts that the history asks for. -/
theorem emittedBy_verdict (h : Windows calls m)
    (hclock : ((calls ++ [c]).filterMap clock).Pairwise (· ≤ ·)) :
    (emittedBy m c).map (·.category) = verdict calls c := by
  cases c with
  | pruEvent event now ts =>
    rw [verdict]
    cases htype : event.type with
    | glitch =>
      have hk : isGlitch (.pruEvent event now ts) = true := by simp [isGlitch, htype]
      have hlen := length_trim h.glitch hclock rfl
      rw [hk, if_pos rfl] at hlen
      dsimp only
      rw [← hlen]
      split_ifs with hburst
      · apply emittedBy_emit
        · rw [step, ingestPruEvent, htype]
          exact if_pos hburst
        · rfl
      · apply emittedBy_emit
        · rw [step, ingestPruEvent, htype]
          exact if_neg hburst
        · rfl
    | dominantRunaway =>
      apply emittedBy_emit
      · rw [step, ingestPruEvent, htype]
      · rfl
    | sof => simp [emittedBy, step, ingestPruEvent, htype]
  | abort evt now ts =>
    have hlen : (trim (m.abortWindow ++ [now]) now).length = _ := length_trim h.abort hclock rfl
    rw [verdict, ← hlen]
    split_ifs with hburst
    · exact emittedBy_emit (if_pos hburst) rfl
    · exact emittedBy_emit (if_neg hburst) rfl
  | snapshot now => simp [emittedBy, step, snapshot, verdict]
  | drainAlerts => simp [emittedBy, step, drainAlerts, verdict]

theorem snapshot_counts (h : Windows calls m)
    (hclock : ((calls ++ [Call.snapshot now]).filterMap clock).Pairwise (· ≤ ·)) :
    (m.snapshot now).1 = ⟨count isGlitch (calls ++ [.snapshot now]) now,
      count isAbort (calls ++ [.snapshot now]) now, calls.any isRunaway⟩ := by
  have hglitch := length_trim h.glitch hclock rfl
  have habort := length_trim h.abort hclock rfl
  rw [isGlitch, if_neg Bool.false_ne_true, List.append_nil] at hglitch
  rw [isAbort, if_neg Bool.false_ne_true, List.append_nil] at habort
  rw [snapshot, hglitch, habort, h.runaway]

/-- On doubles of a usual size the window is the closed second before `now`. -/
theorem recent_iff {now t : ℚ} (hnow : Binary64.round now = now) (ht : Binary64.round t = t)
    (hpos : 0 ≤ t) (hhi : now < 2 ^ 53) : recent now t ↔ now - 1 ≤ t := by
  rw [recent, decide_eq_true_eq]
  constructor
  · intro h
    obtain hlo | hlo := le_total 1 now
    · rwa [Binary64.sub_one hnow hlo hhi] at h
    · linarith
  · intro h
    exact (Binary64.round_mono h).trans_eq ht

/-- Each event emits the alerts that the second before it asks for, the drains return what was
emitted, and a snapshot counts the second before it. -/
theorem classified_by_window (calls : List Call)
    (hclock : (calls.filterMap clock).Pairwise (· ≤ ·)) :
    (∀ before c after, calls = before ++ c :: after →
      (emittedBy (run {} before) c).map (·.category) = verdict before c) ∧
    (∀ before now after, calls = before ++ Call.snapshot now :: after →
      ((run {} before).snapshot now).1 = ⟨count isGlitch (before ++ [.snapshot now]) now,
        count isAbort (before ++ [.snapshot now]) now, before.any isRunaway⟩) ∧
    emitted {} calls = (drained {} calls).flatten ++ (run {} calls).pendingAlerts ∧
    ((∀ t ∈ calls.filterMap clock, Binary64.round t = t ∧ 0 ≤ t ∧ t < 2 ^ 53) →
      ∀ now ∈ calls.filterMap clock, ∀ t ∈ calls.filterMap clock,
        (recent now t ↔ now - 1 ≤ t)) := by
  have hprefix : ∀ before c after, calls = before ++ c :: after →
      ((before ++ [c]).filterMap clock).Pairwise (· ≤ ·) ∧ Windows before (run {} before) := by
    rintro before c after rfl
    rw [List.append_cons, List.filterMap_append, List.pairwise_append] at hclock
    have hbefore := hclock.1
    rw [List.filterMap_append, List.pairwise_append] at hbefore
    exact ⟨hclock.1, windows_run hbefore.1⟩
  refine ⟨?_, ?_, ?_, ?_⟩
  · intro before c after hsplit
    obtain ⟨hsorted, hwindows⟩ := hprefix before c after hsplit
    exact emittedBy_verdict hwindows hsorted
  · intro before now after hsplit
    obtain ⟨hsorted, hwindows⟩ := hprefix before (.snapshot now) after hsplit
    exact snapshot_counts hwindows hsorted
  · simpa using emitted_drained {} calls
  · intro hdouble now hnow t ht
    exact recent_iff (hdouble now hnow).1 (hdouble t ht).1 (hdouble t ht).2.1 (hdouble now hnow).2.2

def shortPulse : PruEvent := ⟨.glitch, 0, 0, 0, 400⟩

def straddlingBurst : List Call :=
  [.pruEvent shortPulse 1 1, .snapshot (3 / 2), .pruEvent shortPulse (3 / 2) (3 / 2),
    .pruEvent shortPulse 2 2]

theorem classified_straddlingBurst :
    (emittedBy (run {} (straddlingBurst.take 3)) (.pruEvent shortPulse 2 2)).map
      (·.category) = [.glitchBurst] := by
  have h := (classified_by_window straddlingBurst (by decide +kernel)).1
    (straddlingBurst.take 3) (.pruEvent shortPulse 2 2) [] rfl
  rw [h]
  decide +kernel

end CanSniffer.SignalClassification
