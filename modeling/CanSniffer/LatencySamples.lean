import CanSniffer.LatencyMonitor
import CanSniffer.Library.Exchange

namespace CanSniffer

open Library Library.PyJson Models LatencyMonitor

/-- A value appended to `_meas` under a key, by which pair and from which frames. -/
structure Sample where
  pair : Pair
  key : DictKey
  request : Nat
  response : Nat
  latency : ℚ

/-- A monitor with the number of frames it has seen, the number of the frame that last set each
key in `_pending`, and the samples taken. -/
structure LatencyRecord where
  monitor : LatencyMonitor
  seen : Nat := 0
  origin : DictKey → Nat := fun _ => 0
  samples : List Sample := []

namespace LatencyRecord

variable {format : String → Nat → Option String} {frame : EnrichedFrame} {c : LatencyRecord}
  {key : DictKey}

def note (format : String → Nat → Option String) (frame : EnrichedFrame) (c : LatencyRecord)
    (p : Pair) : LatencyRecord where
  monitor := c.monitor.applied frame.kernelTs (p.reaction format frame.arbId)
  seen := c.seen
  origin :=
    match p.reaction format frame.arbId with
    | .request key => Function.update c.origin key c.seen
    | _ => c.origin
  samples :=
    match p.reaction format frame.arbId with
    | .response key => c.samples ++ ((c.monitor.pending key).map fun sent =>
        ⟨p, key, c.origin key, c.seen, latencyUs frame.kernelTs sent⟩).toList
    | _ => c.samples

def noteAll (format : String → Nat → Option String) (frame : EnrichedFrame) (c : LatencyRecord)
    (pairs : List Pair) : LatencyRecord :=
  pairs.foldl (note format frame) c

def ingest (format : String → Nat → Option String) (c : LatencyRecord) (frame : EnrichedFrame) :
    LatencyRecord :=
  let c' := c.noteAll format frame (reached format c.monitor.pairs frame.arbId)
  { c' with monitor := (c.monitor.ingest format frame).1, seen := c.seen + 1 }

def run (format : String → Nat → Option String) (m : LatencyMonitor)
    (frames : List EnrichedFrame) : LatencyRecord :=
  frames.foldl (ingest format) { monitor := m }

/-- The samples under a key. -/
def samplesOf (c : LatencyRecord) (key : DictKey) : List Sample :=
  c.samples.filter fun x => x.key = key

theorem run_snoc (m : LatencyMonitor) (frames : List EnrichedFrame) (frame : EnrichedFrame) :
    run format m (frames ++ [frame]) = (run format m frames).ingest format frame := by
  rw [run, List.foldl_append]
  rfl

theorem monitor_noteAll (pairs : List Pair) :
    (c.noteAll format frame pairs).monitor = pairs.foldl
      (fun m p => m.applied frame.kernelTs (p.reaction format frame.arbId)) c.monitor := by
  induction pairs generalizing c with
  | nil => rfl
  | cons p ps ih => exact ih

theorem seen_noteAll (pairs : List Pair) : (c.noteAll format frame pairs).seen = c.seen := by
  induction pairs generalizing c with
  | nil => rfl
  | cons p ps ih => exact ih

theorem reactAll_monitor :
    (c.monitor.reactAll format frame).1 =
      (c.noteAll format frame (reached format c.monitor.pairs frame.arbId)).monitor := by
  rw [reactAll_eq, monitor_noteAll]

/-- The record watches the monitor and does not change it. -/
theorem monitor_run (m : LatencyMonitor) (frames : List EnrichedFrame) :
    (run format m frames).monitor = m.run format frames := by
  induction frames using List.reverseRecOn with
  | nil => rfl
  | append_singleton frames frame ih =>
    rw [run_snoc, LatencyMonitor.run_concat, ← ih]
    rfl

theorem pairs_run (m : LatencyMonitor) (frames : List EnrichedFrame) :
    (run format m frames).monitor.pairs = m.pairs := by
  rw [monitor_run, run_pairs]

theorem seen_run (m : LatencyMonitor) (frames : List EnrichedFrame) :
    (run format m frames).seen = frames.length := by
  induction frames using List.reverseRecOn with
  | nil => rfl
  | append_singleton frames frame ih =>
    rw [run_snoc, ingest, ih, List.length_append, List.length_singleton]

theorem note_other {p : Pair} (hreq : p.reaction format frame.arbId ≠ .request key)
    (hresp : p.reaction format frame.arbId ≠ .response key) :
    (c.note format frame p).monitor.pending key = c.monitor.pending key ∧
      (c.note format frame p).origin key = c.origin key ∧
      (c.note format frame p).samplesOf key = c.samplesOf key := by
  refine ⟨pending_applied_of_ne hreq hresp _, ?_, ?_⟩
  · cases hr : p.reaction format frame.arbId with
    | request k =>
      have hk : key ≠ k := fun h => hreq (by rw [hr, h])
      simp [note, hr, Function.update_of_ne hk]
    | _ => simp [note, hr]
  · cases hr : p.reaction format frame.arbId with
    | response k =>
      have hk : k ≠ key := fun h => hresp (by rw [hr, h])
      cases hp : c.monitor.pending k <;> simp [note, samplesOf, hr, hp, hk]
    | _ => simp [note, samplesOf, hr]

theorem note_request {p : Pair} (hr : p.reaction format frame.arbId = .request key) :
    (c.note format frame p).monitor.pending key = some frame.kernelTs ∧
      (c.note format frame p).origin key = c.seen ∧
      (c.note format frame p).samplesOf key = c.samplesOf key := by
  simp [note, samplesOf, hr]

theorem note_response {p : Pair} (hr : p.reaction format frame.arbId = .response key) :
    (c.note format frame p).monitor.pending key = none ∧
      (c.note format frame p).origin key = c.origin key ∧
      (c.note format frame p).samplesOf key = c.samplesOf key ++
        ((c.monitor.pending key).map fun sent =>
          ⟨p, key, c.origin key, c.seen, latencyUs frame.kernelTs sent⟩).toList := by
  refine ⟨by simp [note, hr], by simp [note, hr], ?_⟩
  cases hp : c.monitor.pending key <;> simp [note, samplesOf, hr, hp]

theorem meas_note {q : Deque ℚ 100} (p : Pair)
    (h : (c.monitor.meas key).items =
      (q.items ++ (c.samplesOf key).map Sample.latency).rtake 100) :
    ((c.note format frame p).monitor.meas key).items =
      (q.items ++ ((c.note format frame p).samplesOf key).map Sample.latency).rtake 100 := by
  by_cases hresp : p.reaction format frame.arbId = .response key
  · rw [(note_response hresp).2.2, note, hresp, meas_applied_response]
    cases c.monitor.pending key with
    | none => simpa using h
    | some sent =>
      simpa [← List.append_assoc] using Deque.items_append_rtake h (latencyUs frame.kernelTs sent)
  · have hsame : (c.note format frame p).samplesOf key = c.samplesOf key := by
      by_cases hreq : p.reaction format frame.arbId = .request key
      · exact (note_request hreq).2.2
      · exact (note_other hreq hresp).2.2
    rw [hsame, note, meas_applied_of_ne hresp]
    exact h

theorem meas_noteAll {q : Deque ℚ 100} (pairs : List Pair)
    (h : (c.monitor.meas key).items =
      (q.items ++ (c.samplesOf key).map Sample.latency).rtake 100) :
    ((c.noteAll format frame pairs).monitor.meas key).items =
      (q.items ++ ((c.noteAll format frame pairs).samplesOf key).map Sample.latency).rtake 100 := by
  induction pairs generalizing c with
  | nil => exact h
  | cons p ps ih => exact ih (meas_note p h)

theorem meas_ingest_fst (m : LatencyMonitor) (frame : EnrichedFrame) :
    (m.ingest format frame).1.meas = (m.reactAll format frame).1.meas := by
  rw [ingest_fst]
  split <;> rfl

theorem meas_run (m : LatencyMonitor) (frames : List EnrichedFrame) (key : DictKey) :
    ((m.run format frames).meas key).items =
      ((m.meas key).items ++ ((run format m frames).samplesOf key).map Sample.latency).rtake 100 := by
  rw [← monitor_run]
  induction frames using List.reverseRecOn with
  | nil =>
    have hle := (m.meas key).bounded
    simp [run, samplesOf, List.rtake, hle]
  | append_singleton frames frame ih =>
    rw [run_snoc, ingest, meas_ingest_fst, reactAll_monitor]
    exact meas_noteAll _ ih

end LatencyRecord
end CanSniffer
