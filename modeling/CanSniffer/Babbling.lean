import CanSniffer.MonitorRuns

namespace CanSniffer.Babbling

open Library Library.PyText Models BehavioralMonitor

def arrival (id : Nat) : Call → Option ℚ
  | .ingest frame now _ => if frame.arbId = id then some now else none
  | _ => none

def arrivals (id : Nat) (calls : List Call) : List ℚ := calls.filterMap (arrival id)

def Babbles (s : Session) (id : Nat) : Prop :=
  ∃ a ∈ s.alerts, a.category = .babblingTx ∧ a.canId = some (id : Int)

instance (s : Session) (id : Nat) : Decidable (Babbles s id) :=
  inferInstanceAs (Decidable (∃ a ∈ s.alerts, a.category = .babblingTx ∧ a.canId = some (id : Int)))

def babbling (s : Session) : List Alert := s.alerts.filter fun a => a.category = .babblingTx

theorem babbles_iff {s : Session} {id : Nat} :
    Babbles s id ↔ ∃ a ∈ babbling s, a.canId = some (id : Int) := by
  simp [Babbles, babbling, and_assoc]

theorem babbling_eq (s : Session) :
    babbling s = s.drained.filter (fun a => a.category = .babblingTx) ++ s.monitor.babbling := by
  rw [babbling, Session.alerts, List.filter_append]
  rfl

variable {db : Database} {id : Nat} {msg : Message} {cycle : PyNumber}

theorem registered_id (h : db.registered id = some msg) : msg.frameId = id := by
  simpa using List.find?_some h

theorem stateOf_canId {m : BehavioralMonitor} (hm : Knows db m) (frame : EnrichedFrame) (now : ℚ) :
    (m.stateOf frame now).canId = frame.arbId := by
  rw [stateOf_info]
  cases hi : m.info frame.arbId with
  | none => rfl
  | some i =>
    rw [Option.getD_some]
    cases hreg : db.registered frame.arbId with
    | none => exact (hm.unknown hreg hi).1
    | some msg =>
      rw [hm.registered hreg] at hi
      cases hi
      exact registered_id hreg

/-- The monitor holds the newest arrivals of a message, and it has reported exactly the windows
that were too fast. -/
structure Tracks (id : Nat) (msg : Message) (cycle : PyNumber) (s : Session) (seen : List ℚ) :
    Prop where
  window : (s.monitor.states.get? id).map (fun state => state.babbleWindow.items) =
    some (seen.rtake 20)
  reported : Babbles s id ↔ ∃ pre, pre <+: seen ∧ TooFast cycle (pre.rtake 20)

theorem tracks_start (db : Database) (boot : Nat → ℚ) (hreg : db.registered id = some msg) :
    Tracks id msg cycle (start db boot) [] := by
  obtain ⟨t, ht⟩ := init_get? db boot id
  have hnone : ¬ Babbles (start db boot) id := by
    rintro ⟨a, ha, -⟩
    cases ha
  refine ⟨?_, iff_of_false hnone ?_⟩
  · rw [start, ht, hreg]
    rfl
  · rintro ⟨pre, hpre, hlen, -⟩
    rw [List.prefix_nil.mp hpre] at hlen
    exact absurd hlen (by decide)

theorem Tracks.same {s s' : Session} {seen : List ℚ} (h : Tracks id msg cycle s seen)
    (hget : s'.monitor.states.get? id = s.monitor.states.get? id)
    (hreported : Babbles s' id ↔ Babbles s id) : Tracks id msg cycle s' seen where
  window := by rw [hget, h.window]
  reported := hreported.trans h.reported

theorem babbling_step {s : Session} {frame : EnrichedFrame} {now : ℚ} {wall : Nat → ℚ}
    {alerts : List Alert}
    (hbab : (s.monitor.ingest frame now wall).1.babbling = s.monitor.babbling ++ alerts) :
    babbling (s.step (.ingest frame now wall)) = babbling s ++ alerts := by
  rw [babbling_eq, babbling_eq, List.append_assoc, ← hbab]
  rfl

theorem Tracks.arrive (hreg : db.registered id = some msg) (hcycle : msg.cycleTime = some cycle)
    {s : Session} (hm : Knows db s.monitor) {seen : List ℚ} (h : Tracks id msg cycle s seen)
    {frame : EnrichedFrame} (hid : frame.arbId = id) (now : ℚ) (wall : Nat → ℚ) :
    Tracks id msg cycle (s.step (.ingest frame now wall)) (seen ++ [now]) := by
  obtain ⟨signals, alerts, hget, -, hbab, hcases⟩ := ingest_spec s.monitor frame now wall
  have hall := babbling_step hbab
  obtain ⟨state, hstate, hitems⟩ := Option.map_eq_some_iff.mp h.window
  have hof : s.monitor.stateOf frame now = state := by
    rw [stateOf, hid, hstate, Option.getD_some]
  have hfields : state.toMessageInfo = msg.info := by
    have hinfo := hm.registered hreg
    rw [info, hstate] at hinfo
    exact Option.some.inj hinfo
  have hwindow : (receive state now).babbleWindow.items = (seen ++ [now]).rtake 20 :=
    Deque.items_append_rtake hitems now
  have hperiodic : (receive state now).cycleTimeMs = some cycle := by
    rw [← hcycle]
    exact congrArg MessageInfo.cycleTimeMs hfields
  have hcanId : (receive state now).canId = id :=
    (congrArg MessageInfo.canId hfields).trans (registered_id hreg)
  rw [hof, hid] at hget
  rw [hof, hwindow, hperiodic, hcanId] at hcases
  refine ⟨?_, ?_⟩
  · have hnew : (s.step (.ingest frame now wall)).monitor.states.get? id =
        some { receive state now with lastSignals := signals } := by
      exact (congrFun hget id).trans (Function.update_self ..)
    rw [hnew]
    exact congrArg some hwindow
  · have hlonger : (∃ pre, pre <+: seen ++ [now] ∧ TooFast cycle (pre.rtake 20)) ↔
        TooFast cycle ((seen ++ [now]).rtake 20) ∨
          ∃ pre, pre <+: seen ∧ TooFast cycle (pre.rtake 20) := by
      simp only [List.prefix_concat_iff, or_and_right, exists_or, exists_eq_left]
    rw [hlonger, babbles_iff, hall, ← h.reported, babbles_iff]
    simp only [List.mem_append, or_and_right, exists_or]
    obtain ⟨rfl, hslow⟩ | ⟨a, c, rfl, ha, hc, hfast⟩ := hcases
    · have hno := hslow cycle rfl
      simp only [hno, List.not_mem_nil, false_and, exists_false, or_false, false_or]
    · cases hc
      exact iff_of_true (.inr ⟨a, List.mem_singleton_self a, ha⟩) (.inl hfast)

theorem Tracks.other {s : Session} (hm : Knows db s.monitor) {seen : List ℚ}
    (h : Tracks id msg cycle s seen) {frame : EnrichedFrame} (hid : frame.arbId ≠ id) (now : ℚ)
    (wall : Nat → ℚ) : Tracks id msg cycle (s.step (.ingest frame now wall)) seen := by
  obtain ⟨signals, alerts, hget, -, hbab, hcases⟩ := ingest_spec s.monitor frame now wall
  have hall := babbling_step hbab
  have hcanId : (receive (s.monitor.stateOf frame now) now).canId = frame.arbId :=
    stateOf_canId hm frame now
  apply h.same ((congrFun hget id).trans (Function.update_of_ne hid.symm ..))
  rw [babbles_iff, babbles_iff, hall]
  simp only [List.mem_append, or_and_right, exists_or]
  obtain ⟨rfl, -⟩ | ⟨a, c, rfl, ha, -⟩ := hcases
  · simp
  · rw [hcanId] at ha
    simp [ha, hid]

theorem tracks_step (hreg : db.registered id = some msg) (hcycle : msg.cycleTime = some cycle)
    {s : Session} (hm : Knows db s.monitor) {seen : List ℚ} (h : Tracks id msg cycle s seen)
    (c : Call) : Tracks id msg cycle (s.step c) (seen ++ (arrival id c).toList) := by
  cases c with
  | ingest frame now wall =>
    by_cases hid : frame.arbId = id
    · rw [arrival, if_pos hid]
      exact h.arrive hreg hcycle hm hid now wall
    · rw [arrival, if_neg hid, Option.toList_none, List.append_nil]
      exact h.other hm hid now wall
  | checkTimeouts now wall =>
    simp only [arrival, Option.toList_none, List.append_nil]
    have hposts := checkTimeouts_posts s.monitor now wall
    apply h.same (congrFun (congrArg PyDict.get? hposts.states_eq) id)
    have hsame : (s.monitor.checkTimeouts now wall).1.babbling = s.monitor.babbling := by
      apply hposts.babbling_eq
      rintro a (ha | ha)
      · rw [ha]
        decide
      · rw [ha]
        decide
    have hall : babbling (s.step (.checkTimeouts now wall)) = babbling s := by
      rw [babbling_eq, babbling_eq, ← hsame]
      rfl
    rw [babbles_iff, babbles_iff, hall]
  | periodicMessageStatus now =>
    simp only [arrival, Option.toList_none, List.append_nil]
    exact h.same rfl Iff.rfl
  | drainAlerts =>
    simp only [arrival, Option.toList_none, List.append_nil]
    refine h.same rfl ?_
    have hall : (s.step .drainAlerts).alerts = s.alerts := by
      simp [Session.step, Session.alerts, BehavioralMonitor.drainAlerts]
    rw [Babbles, hall]
    rfl

theorem tracks_run (hreg : db.registered id = some msg) (hcycle : msg.cycleTime = some cycle)
    (boot : Nat → ℚ) (calls : List Call) :
    Tracks id msg cycle ((start db boot).run calls) (arrivals id calls) := by
  induction calls using List.reverseRecOn with
  | nil => exact tracks_start db boot hreg
  | append_singleton calls c ih =>
    have harr : arrivals id (calls ++ [c]) = arrivals id calls ++ (arrival id c).toList := by
      rw [arrivals, List.filterMap_append]
      cases hc : arrival id c <;> simp [arrivals, hc]
    rw [Session.run_concat, harr]
    exact tracks_step hreg hcycle (knows_run db boot calls) ih c

/-- A periodic message is never reported as babbling exactly if no window of its newest arrivals
was too fast when its last frame was processed. -/
theorem no_babbling_iff (boot : Nat → ℚ) (calls : List Call) (hreg : db.registered id = some msg)
    (hcycle : msg.cycleTime = some cycle) :
    ¬ Babbles ((start db boot).run calls) id ↔
      ∀ pre, pre <+: arrivals id calls → ¬ TooFast cycle (pre.rtake 20) := by
  rw [(tracks_run hreg hcycle boot calls).reported]
  simp only [not_exists, not_and]

def status : Database where
  messages := [⟨0x100, "Status", 8, some (.int 1), fun _ => none⟩]
  getMessageByFrameId := fun _ => none
  decodeMessage := fun _ _ => none

def statusFrame (kernelTs : ℚ) : EnrichedFrame :=
  ⟨0x100, 8, List.replicate 8 0, false, none, kernelTs, 0⟩

def steady : List Call :=
  (List.range 30).flatMap fun (k : Nat) =>
    [.ingest (statusFrame (k / 1000)) (k / 1000) fun _ => 1, .checkTimeouts (k / 1000) 1, .drainAlerts]

theorem no_babbling_iff_steady :
    (arrivals 0x100 steady).length = 30 ∧
    (¬ Babbles ((start status fun _ => 0).run steady) 0x100 ↔
      ∀ pre, pre <+: arrivals 0x100 steady → ¬ TooFast (.int 1) (pre.rtake 20)) :=
  have hreg : status.registered 0x100 =
      some ⟨0x100, "Status", 8, some (.int 1), fun _ => none⟩ := rfl
  ⟨by decide +kernel, no_babbling_iff (fun _ => 0) steady hreg rfl⟩

/-- Calls that process frames of one message: they came a cycle time apart or more, and are
processed in their order and none before it came. -/
structure Batched (cycleS : ℚ) (calls : List Call) : Prop where
  spaced : (calls.filterMap fun c => match c with
    | .ingest frame _ _ => some frame.kernelTs
    | _ => none).IsChain fun a b => cycleS ≤ b - a
  ordered : (arrivals 0x100 calls).IsChain (· ≤ ·)
  late : ∀ c ∈ calls, match c with
    | .ingest frame now _ => frame.arbId = 0x100 ∧ frame.kernelTs ≤ now
    | _ => False

/-- Ten frames, 2 ms apart on the bus, that one pass of the loop processes within 10 µs. -/
def batch : List Call :=
  (List.range 10).map fun (k : Nat) =>
    .ingest (statusFrame (k / 512)) (1 + k / 2 ^ 20) fun _ => 1

theorem batch_babbles :
    ¬ ∀ calls, Batched (1 / 1000) calls → ¬ Babbles ((start status fun _ => 0).run calls) 0x100 := by
  intro h
  refine h batch ⟨?_, ?_, ?_⟩ ?_
  · decide +kernel
  · decide +kernel
  · intro c hc
    obtain ⟨k, hk, rfl⟩ := List.mem_map.mp hc
    have hk' := List.mem_range.mp hk
    refine ⟨rfl, ?_⟩
    interval_cases k <;> norm_num [statusFrame]
  · decide +kernel

end CanSniffer.Babbling
