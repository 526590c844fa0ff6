import CanSniffer.CorrelatorRuns
import CanSniffer.Library.WindowMatch

namespace CanSniffer.Confluence

open Library Library.Trace Library.WhileLoop Library.WindowMatch Models Correlator CorrelatorRuns

/-- The correlation of two whole streams, without queues, polls or clocks. -/
def correlate (maxDeltaNs : Int) (prus : List PruEvent) (msgs : List RawCanMessage) :
    List EnrichedFrame :=
  (merge PruEvent.tFallNs RawCanMessage.timestampNs maxDeltaNs prus msgs).map fun p =>
    enrich p.1 (p.2.map (·.tFallNs))

/-- The frames that are matched already, and those that will be once the SOFs `prus` and
the frames `msgs` have followed. -/
def outcome (c : Correlator) (prus : List PruEvent) (msgs : List RawCanMessage) :
    List EnrichedFrame :=
  c.matched ++ correlate c.maxDeltaNs (c.pruQ.items ++ prus) (c.canQ.items ++ msgs)

variable {maxDeltaNs : Int} {c : Correlator} {prus : List PruEvent} {msgs : List RawCanMessage}

theorem outcome_tryMatchBody {d : Correlator} (h : tryMatchBody c = some d) :
    outcome d prus msgs = outcome c prus msgs := by
  obtain ⟨msg, canRest, hcan, pru, pruRest, hpru, ⟨h0, rfl⟩ | ⟨h0, h1, rfl⟩ | ⟨h0, h1, rfl⟩⟩ :=
    tryMatchBody_cases h
  · simp [outcome, correlate, hcan, hpru, merge_early h0]
  · simp [outcome, correlate, hcan, hpru, merge_late h0 h1]
  · simp [outcome, correlate, hcan, hpru, merge_pair h0 h1]

theorem outcome_tryMatch (c : Correlator) (prus : List PruEvent) (msgs : List RawCanMessage) :
    outcome (tryMatch c) prus msgs = outcome c prus msgs :=
  loop_invariant (fun d => outcome d prus msgs = outcome c prus msgs)
    (fun _ _ hbody hs => (outcome_tryMatchBody hbody).trans hs) _ rfl

theorem outcome_ingestPru {event : PruEvent} (hsof : event.type = .sof)
    (hroom : c.pruQ.items.length < 256) :
    outcome (c.ingestPru event) prus msgs = outcome c (event :: prus) msgs := by
  rw [ingestPru, if_neg (not_not_intro hsof), outcome_tryMatch]
  simp [outcome, Deque.items_append_of_lt hroom]

theorem outcome_ingestFrame {msg : RawCanMessage} (hroom : c.canQ.items.length < 256) :
    outcome (c.ingestFrame msg) prus msgs = outcome c prus (msg :: msgs) := by
  rw [ingestFrame, outcome_tryMatch]
  simp [outcome, Deque.items_append_of_lt hroom]

def Sorted (msgs : List RawCanMessage) : Prop := msgs.Pairwise fun m n => m.timestamp ≤ n.timestamp

instance (msgs : List RawCanMessage) : Decidable (Sorted msgs) :=
  inferInstanceAs (Decidable (msgs.Pairwise _))

/-- What the flush relies on: no SOF waits, and none is still to come for a stale frame. -/
structure Flushable (nowNs : Int) (prus : List PruEvent) (msgs : List RawCanMessage)
    (c : Correlator) : Prop where
  empty : c.pruQ.items = []
  sorted : Sorted (c.canQ.items ++ msgs)
  in_time : ∀ msg ∈ c.canQ.items, ∀ pru ∈ prus, InWindow c.maxDeltaNs pru msg →
    nowNs ≤ msg.timestampNs + c.maxDeltaNs

theorem outcome_flushBody {nowNs : Int} {d : Correlator} (h : Flushable nowNs prus msgs c)
    (hbody : flushBody nowNs c = some d) :
    Flushable nowNs prus msgs d ∧ outcome d prus msgs = outcome c prus msgs := by
  obtain ⟨msg, canRest, hcan, hold, rfl⟩ := flushBody_cases hbody
  have hsorted := h.sorted
  rw [hcan, List.cons_append, Sorted, List.pairwise_cons] at hsorted
  have hin := h.in_time
  rw [hcan] at hin
  refine ⟨⟨h.empty, by simpa [Sorted, hcan] using hsorted.2, ?_⟩, ?_⟩
  · intro n hn
    exact hin n (List.mem_cons_of_mem msg (by simpa [hcan] using hn))
  · have hfree : ∀ pru ∈ prus, ¬ InWindow c.maxDeltaNs pru msg := by
      intro pru hpru hwindow
      have hnow := hin msg List.mem_cons_self pru hpru hwindow
      omega
    have hlater : ∀ n ∈ canRest ++ msgs, msg.timestampNs ≤ n.timestampNs :=
      fun n hn => timestampNs_mono (hsorted.1 n hn)
    simp [outcome, correlate, hcan, h.empty, merge_flush prus hfree hlater]

theorem outcome_flush {nowNs : Int} (h : Flushable nowNs prus msgs c) :
    outcome (c.flush nowNs) prus msgs = outcome c prus msgs := by
  refine (loop_invariant (fun d => Flushable nowNs prus msgs d ∧
    outcome d prus msgs = outcome c prus msgs) ?_ _ ⟨h, rfl⟩).2
  rintro s t hbody ⟨hs, heq⟩
  obtain ⟨ht, hst⟩ := outcome_flushBody hs hbody
  exact ⟨ht, hst.trans heq⟩

theorem flushBody_exhausted (h : c.pruQ.items = [] ∨ c.canQ.items = []) (nowNs : Int)
    (fuel : Nat) :
    (loop (flushBody nowNs) fuel c).pruQ.items = [] ∨
      (loop (flushBody nowNs) fuel c).canQ.items = [] := by
  refine loop_invariant (fun d : Correlator => d.pruQ.items = [] ∨ d.canQ.items = []) ?_ _ h
  intro s t hbody hs
  obtain ⟨msg, canRest, hcan, -, rfl⟩ := flushBody_cases hbody
  exact hs.imp_right fun hnil => by rw [hcan] at hnil; cases hnil

theorem run_exhausted (maxDeltaNs : Int) (ops : List Op) :
    (Session.run maxDeltaNs ops).correlator.pruQ.items = [] ∨
      (Session.run maxDeltaNs ops).correlator.canQ.items = [] := by
  induction ops using List.reverseRecOn with
  | nil => exact .inl rfl
  | append_singleton ops op ih =>
    rw [run_snoc]
    cases op with
    | ingestPru event =>
      rw [step_ingestPru, ingestPru]
      split
      · exact ih
      · exact tryMatch_exhausts _
    | ingestFrame msg =>
      dsimp only [step_ingestFrame, ingestFrame]
      exact tryMatch_exhausts _
    | drainMatched nowNs =>
      rw [step_drainMatched]
      exact flushBody_exhausted ih nowNs _

/-- The queue that an operation appends to is not full. -/
def Fits (s : Session) : Op → Prop
  | .ingestPru event => event.type = .sof → s.correlator.pruQ.items.length < 256
  | .ingestFrame _ => s.correlator.canQ.items.length < 256
  | .drainMatched _ => True

instance (s : Session) : (op : Op) → Decidable (Fits s op)
  | .ingestPru event =>
    inferInstanceAs (Decidable (event.type = .sof → s.correlator.pruQ.items.length < 256))
  | .ingestFrame _ => Nat.decLt _ _
  | .drainMatched _ => instDecidableTrue

/-- Each SOF in reach of a frame comes before the drains that find the frame stale. -/
def InTime (maxDeltaNs : Int) (msgs : List RawCanMessage) : List Op → Prop
  | [] => True
  | .drainMatched nowNs :: ops =>
    (∀ msg ∈ msgs, ∀ pru ∈ sofs ops, InWindow maxDeltaNs pru msg →
      nowNs ≤ msg.timestampNs + maxDeltaNs) ∧ InTime maxDeltaNs msgs ops
  | .ingestPru _ :: ops | .ingestFrame _ :: ops => InTime maxDeltaNs msgs ops

instance (maxDeltaNs : Int) (msgs : List RawCanMessage) :
    (ops : List Op) → Decidable (InTime maxDeltaNs msgs ops)
  | [] => instDecidableTrue
  | .drainMatched nowNs :: ops =>
    have := instDecidableInTime maxDeltaNs msgs ops
    inferInstanceAs (Decidable ((∀ msg ∈ msgs, ∀ pru ∈ sofs ops, InWindow maxDeltaNs pru msg →
      nowNs ≤ msg.timestampNs + maxDeltaNs) ∧ InTime maxDeltaNs msgs ops))
  | .ingestPru _ :: ops | .ingestFrame _ :: ops => instDecidableInTime maxDeltaNs msgs ops

theorem inTime_at {pre post : List Op} {nowNs : Int}
    (h : InTime maxDeltaNs msgs (pre ++ .drainMatched nowNs :: post)) :
    ∀ msg ∈ msgs, ∀ pru ∈ sofs post, InWindow maxDeltaNs pru msg →
      nowNs ≤ msg.timestampNs + maxDeltaNs := by
  induction pre with
  | nil => exact h.1
  | cons op pre ih =>
    cases op with
    | ingestPru event => exact ih h
    | ingestFrame msg => exact ih h
    | drainMatched nowNs => exact ih h.2

/-- A way to feed the SOFs `prus` and the frames `msgs` to a correlator. -/
structure Feed (maxDeltaNs : Int) (prus : List PruEvent) (msgs : List RawCanMessage)
    (ops : List Op) : Prop where
  sofs_eq : sofs ops = prus
  frames_eq : frames ops = msgs
  fits : AllSteps Session.step Fits (.init maxDeltaNs) ops
  in_time : InTime maxDeltaNs msgs ops

structure Schedule (maxDeltaNs : Int) (prus : List PruEvent) (msgs : List RawCanMessage)
    (ops : List Op) : Prop extends Feed maxDeltaNs prus msgs ops where
  last : ∃ pre nowNs, ops = pre ++ [.drainMatched nowNs] ∧
    ∀ msg ∈ msgs, msg.timestampNs + maxDeltaNs < nowNs

/-- At each point up to which no queue has overflown, what has been emitted and what the rest will
bring is the correlation of the whole streams. -/
theorem outcome_split {ops pre post : List Op} (hsplit : ops = pre ++ post)
    (hfits : AllSteps Session.step Fits (.init maxDeltaNs) pre)
    (hin : InTime maxDeltaNs (frames ops) ops) (hsorted : Sorted (frames ops)) :
    (Session.run maxDeltaNs pre).emitted ++
        outcome (Session.run maxDeltaNs pre).correlator (sofs post) (frames post) =
      correlate maxDeltaNs (sofs ops) (frames ops) := by
  induction pre using List.reverseRecOn generalizing post with
  | nil =>
    rw [hsplit]
    rfl
  | append_singleton pre op ih =>
    rw [List.append_assoc, List.singleton_append] at hsplit
    obtain ⟨hbefore, hlast⟩ := (allSteps_snoc _ _ _ _ _).mp hfits
    have hroom : Fits (Session.run maxDeltaNs pre) op := hlast
    have hpre := ih hsplit hbefore
    have hacc := run_accounts pre maxDeltaNs
    rw [run_snoc]
    cases op with
    | ingestPru event =>
      by_cases hsof : event.type = .sof
      · rw [sofs_ingestPru _ hsof, frames_ingestPru] at hpre
        rw [← hpre, ← outcome_ingestPru hsof (hroom hsof), step_ingestPru]
      · rw [sofs_ingestPru_other _ hsof, frames_ingestPru] at hpre
        rw [← hpre, step_ingestPru, ingestPru, if_pos hsof]
    | ingestFrame msg =>
      rw [sofs_ingestFrame, frames_ingestFrame] at hpre
      rw [← hpre, ← outcome_ingestFrame hroom, step_ingestFrame]
    | drainMatched nowNs =>
      rw [sofs_drainMatched, frames_drainMatched] at hpre
      have hflush : outcome ((Session.run maxDeltaNs pre).correlator.flush nowNs) (sofs post)
            (frames post) =
          outcome (Session.run maxDeltaNs pre).correlator (sofs post) (frames post) := by
        have hall : frames pre ++ frames post = frames ops := by
          rw [hsplit, frames_append, frames_drainMatched]
        rw [← hacc.frames, List.append_assoc] at hall
        obtain hpru | hcan := run_exhausted maxDeltaNs pre
        · refine outcome_flush ⟨hpru, ?_, ?_⟩
          · rw [Sorted, ← hall] at hsorted
            exact (List.pairwise_append.mp hsorted).2.1
          · rw [hacc.width]
            intro msg hmsg
            have hdrain : InTime maxDeltaNs (frames ops) (pre ++ .drainMatched nowNs :: post) :=
              hsplit ▸ hin
            exact inTime_at hdrain msg (by simp [← hall, hmsg])
        · rw [Correlator.flush, hcan]
          rfl
      rw [← hpre, ← hflush, step_drainMatched]
      simp [outcome]

/-- Every schedule emits the correlation of the two streams it was given. -/
theorem schedule_emits {ops : List Op} (h : Schedule maxDeltaNs prus msgs ops)
    (hsorted : Sorted msgs) :
    (Session.run maxDeltaNs ops).emitted = correlate maxDeltaNs prus msgs := by
  obtain ⟨⟨rfl, rfl, hfits, hin⟩, pre, nowNs, hops, hlast⟩ := h
  have hout := outcome_split (List.append_nil ops).symm hfits hin hsorted
  have hcan : (Session.run maxDeltaNs ops).correlator.canQ.items = [] := by
    by_contra hne
    obtain ⟨msg, canRest, hcan⟩ := List.exists_cons_of_ne_nil hne
    have hrun : (Session.run maxDeltaNs ops).correlator.canQ =
        ((Session.run maxDeltaNs pre).correlator.flush nowNs).canQ := by
      rw [hops, run_snoc, step_drainMatched]
    have hfresh := flush_exhausts nowNs (Session.run maxDeltaNs pre).correlator
    rw [flushBody_eq_none, (accounts_flush (run_accounts pre maxDeltaNs) nowNs).width, ← hrun,
      hcan] at hfresh
    have hmem : msg ∈ frames ops := by
      rw [← (run_accounts ops maxDeltaNs).frames, hcan]
      simp
    have hstale := hlast msg hmem
    have := hfresh msg rfl
    omega
  have hmatched : (Session.run maxDeltaNs ops).correlator.matched = [] := by
    rw [hops, run_snoc, step_drainMatched]
  rw [← hout, outcome, hmatched, hcan]
  simp [correlate]

/-- Two schedules of the same streams emit the same frames with the same PRU times. -/
theorem schedules_agree {ops ops' : List Op} (h : Schedule maxDeltaNs prus msgs ops)
    (h' : Schedule maxDeltaNs prus msgs ops') (hsorted : Sorted msgs) :
    (Session.run maxDeltaNs ops).emitted = (Session.run maxDeltaNs ops').emitted := by
  rw [schedule_emits h hsorted, schedule_emits h' hsorted]

def exampleSof (tFallNs : Int) : PruEvent := ⟨.sof, 0, 0, tFallNs, 0⟩

def exampleFrame (timestamp : ℚ) : RawCanMessage := ⟨timestamp, 0x123, 0, [], false, false⟩

def promptOps : List Op :=
  [.ingestPru (exampleSof 500000000), .ingestFrame (exampleFrame 1),
    .ingestPru (exampleSof 1999000000), .ingestFrame (exampleFrame 2), .drainMatched 3000000000]

def lateOps : List Op :=
  [.ingestFrame (exampleFrame 1), .drainMatched 1500000000, .ingestPru (exampleSof 500000000),
    .ingestPru (exampleSof 1999000000), .ingestFrame (exampleFrame 2), .drainMatched 3000000000]

theorem prompt_and_late_agree :
    (Session.run defaultMaxDeltaNs promptOps).emitted =
      (Session.run defaultMaxDeltaNs lateOps).emitted := by
  have hprompt : Schedule defaultMaxDeltaNs [exampleSof 500000000, exampleSof 1999000000]
      [exampleFrame 1, exampleFrame 2] promptOps := by
    refine ⟨⟨rfl, rfl, ?_, ?_⟩, promptOps.dropLast, 3000000000, rfl, ?_⟩
    all_goals decide +kernel
  have hlate : Schedule defaultMaxDeltaNs [exampleSof 500000000, exampleSof 1999000000]
      [exampleFrame 1, exampleFrame 2] lateOps := by
    refine ⟨⟨rfl, rfl, ?_, ?_⟩, lateOps.dropLast, 3000000000, rfl, ?_⟩
    all_goals decide +kernel
  exact schedules_agree hprompt hlate (by decide +kernel)

end CanSniffer.Confluence
