import CanSniffer.TriggerStates

namespace CanSniffer.TriggerStamp

open Library Models TriggerCapture CaptureRecord CaptureCollection TriggerStates

inductive Request
  | arm (condition : TriggerCondition)
  | disarm
  | fire
  | ingest (frame : EnrichedFrame) (busLoad : ℚ) (id : String)
  | popCompleted
  deriving DecidableEq

structure TimedCall where
  now : ℚ
  request : Request
  deriving DecidableEq

namespace TimedCall

def op (c : TimedCall) : Op :=
  match c.request with
  | .arm condition => .arm condition
  | .disarm => .disarm
  | .fire => .fire
  | .ingest frame busLoad id => .ingest frame busLoad id c.now
  | .popCompleted => .popCompleted

def isIngest (c : TimedCall) : Bool :=
  match c.request with
  | .ingest _ _ _ => true
  | .arm _ | .disarm | .fire | .popCompleted => false

end TimedCall

variable (preSize postSize : Nat)

/-- Each session that a call saves is dated between its trigger and the first frame after it. -/
def StampedByTrigger (calls : List TimedCall) : Prop :=
  ∀ cond n before trigger during last rest s,
    calls = before ++ trigger :: during ++ last :: rest →
    Captured preSize postSize cond n (before.map TimedCall.op) trigger.op (during.map TimedCall.op)
      last.op s →
    ∀ first ∈ (during ++ [last]).find? TimedCall.isIngest,
      trigger.now ≤ s.triggerTs ∧ s.triggerTs ≤ first.now

/-- The frames of each completed collection arrive within one reading of the clock. -/
def Instantaneous (calls : List TimedCall) : Prop :=
  ∀ cond before trigger during last rest,
    calls = before ++ trigger :: during ++ last :: rest →
    Triggered preSize postSize cond (before.map TimedCall.op) trigger.op
      (during.map TimedCall.op) →
    last.isIngest → (ingested (during.map TimedCall.op)).length + 1 = max 1 postSize →
    ∀ first ∈ (during ++ [last]).find? TimedCall.isIngest, last.now = first.now

variable {preSize postSize} {calls before during rest : List TimedCall}
  {trigger last first : TimedCall}

theorem first_mem (h : first ∈ (during ++ [last]).find? TimedCall.isIngest) :
    first ∈ during ++ [last] := List.mem_of_find?_eq_some h

theorem le_last (hclock : calls.Pairwise fun c d => c.now ≤ d.now)
    (hsplit : calls = before ++ trigger :: during ++ last :: rest) :
    ∀ c ∈ trigger :: during ++ [last], c.now ≤ last.now := by
  intro c hc
  rw [hsplit] at hclock
  have hlate := (List.pairwise_append.mp hclock).2.2
  obtain hc | hc := List.mem_append.mp hc
  · exact hlate c (List.mem_append_right _ hc) last List.mem_cons_self
  · rw [List.mem_singleton.mp hc]

theorem op_of_isIngest (h : last.isIngest) :
    ∃ frame busLoad id, last.op = .ingest frame busLoad id last.now := by
  rcases last with ⟨now, request⟩
  cases request with
  | ingest frame busLoad id => exact ⟨frame, busLoad, id, rfl⟩
  | arm condition => cases h
  | disarm => cases h
  | fire => cases h
  | popCompleted => cases h

theorem isIngest_of_op {frame : EnrichedFrame} {busLoad : ℚ} {id : String} {now : ℚ}
    (h : last.op = .ingest frame busLoad id now) : last.isIngest ∧ last.now = now := by
  rcases last with ⟨clock, request⟩
  cases request with
  | ingest frame busLoad id => cases h; exact ⟨rfl, rfl⟩
  | arm condition => cases h
  | disarm => cases h
  | fire => cases h
  | popCompleted => cases h

/-- On a clock that does not go back, the sessions are dated by their triggers exactly when no
time passes while the frames of one are collected. -/
theorem stamped_by_trigger_iff (preSize postSize : Nat) (calls : List TimedCall)
    (hclock : calls.Pairwise fun c d => c.now ≤ d.now) :
    StampedByTrigger preSize postSize calls ↔ Instantaneous preSize postSize calls := by
  constructor
  · intro h cond before trigger during last rest hsplit htrig hlast hfull first hfirst
    obtain ⟨frame, busLoad, id, hop⟩ := op_of_isIngest hlast
    obtain ⟨n, s, hcapt, hts⟩ := captured_of_triggered htrig hfull frame busLoad id last.now
    rw [← hop] at hcapt
    have hbounds := h cond n before trigger during last rest s hsplit hcapt first hfirst
    rw [hts] at hbounds
    apply le_antisymm hbounds.2
    exact le_last hclock hsplit first (List.mem_cons_of_mem trigger (first_mem hfirst))
  · intro h cond n before trigger during last rest s hsplit hcapt first hfirst
    obtain ⟨q, -, hq, -, hsaved, -⟩ := hcapt.saves
    obtain ⟨frame, busLoad, id, now, hop, hts, hlen⟩ := session_of_savedBy hq hsaved
    obtain ⟨hlast, hnow⟩ := isIngest_of_op hop
    have hfull : (ingested (during.map TimedCall.op)).length + 1 = max 1 postSize := by
      rw [← hlen, hcapt.frames, ingested_append, hop, List.length_append]
      rfl
    have hsame := h cond before trigger during last rest hsplit hcapt.toTriggered hlast hfull first
      hfirst
    rw [hts, ← hnow]
    exact ⟨le_last hclock hsplit trigger List.mem_cons_self, hsame.le⟩

/-- Two frames are collected, three seconds apart. -/
def slowBus : List TimedCall :=
  [⟨0, .arm { type := .manual }⟩, ⟨1, .fire⟩, ⟨2, .ingest (emptyFrame 1 2) 0 "a"⟩,
    ⟨5, .ingest (emptyFrame 1 5) 0 "a"⟩]

theorem stamped_by_trigger_slowBus :
    StampedByTrigger 2 2 slowBus ↔ Instantaneous 2 2 slowBus :=
  stamped_by_trigger_iff 2 2 slowBus (by decide +kernel)

/-- The session is dated by the last of its frames, not by its trigger. -/
theorem slow_bus_misdated : ¬ ∀ preSize postSize calls,
    calls.Pairwise (fun (c d : TimedCall) => c.now ≤ d.now) →
      StampedByTrigger preSize postSize calls := by
  intro h
  have hstamp := h 2 2 slowBus (by decide +kernel)
  have htrig : Triggered 2 2 (some { type := .manual }) [.arm { type := .manual }] .fire
      [.ingest (emptyFrame 1 2) 0 "a" 2] := ⟨⟨_, _, rfl, rfl, rfl, rfl, rfl⟩, by decide⟩
  obtain ⟨n, s, hcapt, hts⟩ := captured_of_triggered htrig rfl (emptyFrame 1 5) 0 "a" 5
  have hbounds := hstamp _ n [⟨0, .arm { type := .manual }⟩] ⟨1, .fire⟩
    [⟨2, .ingest (emptyFrame 1 2) 0 "a"⟩] ⟨5, .ingest (emptyFrame 1 5) 0 "a"⟩ [] s rfl hcapt
    ⟨2, .ingest (emptyFrame 1 2) 0 "a"⟩ rfl
  rw [hts] at hbounds
  exact absurd hbounds.2 (by norm_num)

end CanSniffer.TriggerStamp
