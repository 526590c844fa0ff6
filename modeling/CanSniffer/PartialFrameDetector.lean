import CanSniffer.Library.WhileLoop
import CanSniffer.Models

namespace CanSniffer

open Library Library.WhileLoop Models

structure Pending where
  event : PruEvent
  wallTime : ℚ
  deriving DecidableEq

inductive Fate
  | marked | aborted
  deriving DecidableEq

/-- `fired` are the events its callbacks have received. `exits` records how the SOFs have
left `pending`, in order; no operation reads it. -/
structure PartialFrameDetector where
  timeoutS : ℚ
  pending : List Pending
  fired : List AbortedFrameEvent
  exits : List Fate
  deriving DecidableEq

namespace PartialFrameDetector

def abortTimeoutS : ℚ := Binary64.round (5 / 1000)

def init (timeoutS : ℚ) : PartialFrameDetector := ⟨timeoutS, [], [], []⟩

def ingestPru (d : PartialFrameDetector) (event : PruEvent) (now : ℚ) : PartialFrameDetector :=
  if event.type = .sof then { d with pending := d.pending ++ [⟨event, now⟩] } else d

def markMatched (d : PartialFrameDetector) : PartialFrameDetector :=
  match d.pending with
  | _ :: rest => { d with pending := rest, exits := d.exits ++ [.marked] }
  | [] => d

def abortOf (oldest : Pending) : AbortedFrameEvent := ⟨oldest.event.tFallNs, oldest.wallTime⟩

/-- One pass of the loop of `sweep_timeouts`. -/
def sweepBody (now : ℚ) (d : PartialFrameDetector) : Option PartialFrameDetector :=
  match d.pending with
  | oldest :: rest =>
    if Binary64.sub now oldest.wallTime > d.timeoutS then
      some { d with
        pending := rest
        fired := d.fired ++ [abortOf oldest]
        exits := d.exits ++ [.aborted] }
    else none
  | [] => none

def sweepTimeouts (d : PartialFrameDetector) (now : ℚ) : PartialFrameDetector :=
  loop (sweepBody now) d.pending.length d

theorem sweepBody_cases {now : ℚ} {d d' : PartialFrameDetector} (h : sweepBody now d = some d') :
    ∃ oldest rest, d.pending = oldest :: rest ∧
      d' = { d with
        pending := rest, fired := d.fired ++ [abortOf oldest], exits := d.exits ++ [.aborted] } := by
  rw [sweepBody] at h
  split at h
  · rename_i oldest rest hpending
    split_ifs at h with hold
    cases h
    exact ⟨oldest, rest, hpending, rfl⟩
  · cases h

theorem sweep_exhausts (d : PartialFrameDetector) (now : ℚ) :
    ∀ oldest ∈ (d.sweepTimeouts now).pending.head?,
      Binary64.sub now oldest.wallTime ≤ (d.sweepTimeouts now).timeoutS := by
  have hexit : sweepBody now (d.sweepTimeouts now) = none := by
    refine loop_exits (fun d : PartialFrameDetector => d.pending.length) ?_ _ le_rfl
    intro s t h
    obtain ⟨oldest, rest, hpending, rfl⟩ := sweepBody_cases h
    simp [hpending]
  intro oldest hhead
  obtain ⟨rest, hpending⟩ := List.head?_eq_some_iff.mp hhead
  rw [sweepBody, hpending] at hexit
  simpa using hexit

def reports (d : PartialFrameDetector) : List Nat := d.exits.findIdxs (· = .aborted)

def marks (d : PartialFrameDetector) : List Nat := d.exits.findIdxs (· = .marked)

/-- The SOFs `entered` have left the detector in order or still wait in it, and an event
was fired for exactly those that were aborted. -/
structure Follows (entered : List Pending) (d : PartialFrameDetector) : Prop where
  bounded : d.exits.length ≤ entered.length
  pending : d.pending = entered.drop d.exits.length
  fired : d.fired.map some = d.reports.map fun k => entered[k]?.map abortOf

variable {entered : List Pending} {d : PartialFrameDetector}

theorem follows_init (timeoutS : ℚ) : Follows [] (init timeoutS) := ⟨le_rfl, rfl, rfl⟩

theorem follows_ingestPru (h : Follows entered d) {event : PruEvent} (hsof : event.type = .sof)
    (now : ℚ) : Follows (entered ++ [⟨event, now⟩]) (d.ingestPru event now) := by
  rw [ingestPru, if_pos hsof]
  have hb := h.bounded
  refine ⟨by simp; omega, ?_, ?_⟩
  · rw [List.drop_append_of_le_length hb, ← h.pending]
  · rw [h.fired]
    apply List.map_congr_left
    intro k hk
    have hlt : k < d.exits.length := by simpa using List.lt_add_of_mem_findIdxs k hk
    rw [List.getElem?_append_left (by omega)]

theorem next_pending (h : Follows entered d) {oldest : Pending} {rest : List Pending}
    (hpending : d.pending = oldest :: rest) :
    d.exits.length < entered.length ∧ entered[d.exits.length]? = some oldest ∧
      rest = entered.drop (d.exits.length + 1) := by
  have hdrop := h.pending
  rw [hpending] at hdrop
  have hlt : d.exits.length < entered.length := by
    by_contra hge
    rw [List.drop_eq_nil_of_le (by omega)] at hdrop
    cases hdrop
  rw [List.drop_eq_getElem_cons hlt, List.cons.injEq] at hdrop
  exact ⟨hlt, by rw [List.getElem?_eq_getElem hlt, hdrop.1], hdrop.2⟩

theorem follows_markMatched (h : Follows entered d) : Follows entered d.markMatched := by
  rw [markMatched]
  split
  · rename_i oldest rest hpending
    obtain ⟨hlt, -, hrest⟩ := next_pending h hpending
    refine ⟨by simpa using hlt, by simpa using hrest, ?_⟩
    simpa [reports, List.findIdxs_append] using h.fired
  · exact h

theorem follows_sweepTimeouts (h : Follows entered d) (now : ℚ) :
    Follows entered (d.sweepTimeouts now) := by
  refine loop_invariant (Follows entered) ?_ _ h
  intro s t hbody hs
  obtain ⟨oldest, rest, hpending, rfl⟩ := sweepBody_cases hbody
  obtain ⟨hlt, hget, hrest⟩ := next_pending hs hpending
  refine ⟨by simpa using hlt, by simpa using hrest, ?_⟩
  simp [reports, List.findIdxs_append, hs.fired, hget]

theorem marks_sweepTimeouts (d : PartialFrameDetector) (now : ℚ) :
    (d.sweepTimeouts now).marks = d.marks := by
  refine loop_invariant (fun s : PartialFrameDetector => s.marks = d.marks) ?_ _ rfl
  intro s t hbody hs
  obtain ⟨oldest, rest, -, rfl⟩ := sweepBody_cases hbody
  simpa [marks, List.findIdxs_append] using hs

theorem exits_sweepTimeouts (d : PartialFrameDetector) (now : ℚ) :
    d.exits.length ≤ (d.sweepTimeouts now).exits.length := by
  refine loop_invariant (fun s : PartialFrameDetector => d.exits.length ≤ s.exits.length) ?_ _ le_rfl
  intro s t hbody hs
  obtain ⟨oldest, rest, -, rfl⟩ := sweepBody_cases hbody
  simpa using Nat.le_succ_of_le hs

theorem timeoutS_sweepTimeouts (d : PartialFrameDetector) (now : ℚ) :
    (d.sweepTimeouts now).timeoutS = d.timeoutS := by
  refine loop_invariant (fun s : PartialFrameDetector => s.timeoutS = d.timeoutS) ?_ _ rfl
  intro s t hbody hs
  obtain ⟨oldest, rest, -, rfl⟩ := sweepBody_cases hbody
  exact hs

theorem overdue_left (h : Follows entered d) (hsorted : (entered.map (·.wallTime)).Pairwise (· ≤ ·))
    (now : ℚ) {k : Nat} {entry : Pending} (hget : entered[k]? = some entry)
    (hover : Binary64.sub now entry.wallTime > d.timeoutS) :
    k < (d.sweepTimeouts now).exits.length := by
  by_contra hk
  obtain ⟨hlt, hentry⟩ := List.getElem?_eq_some_iff.mp hget
  have hf := follows_sweepTimeouts h now
  have hhead : (d.sweepTimeouts now).pending.head? =
      some (entered.get ⟨(d.sweepTimeouts now).exits.length, by omega⟩) := by
    rw [hf.pending, List.head?_drop, List.getElem?_eq_getElem (by omega)]
    rfl
  have hfresh := sweep_exhausts d now _ hhead
  have hle : (entered.get ⟨(d.sweepTimeouts now).exits.length, by omega⟩).wallTime ≤
      entry.wallTime := by
    rw [← hentry]
    obtain hlt' | heq := Nat.lt_or_eq_of_le (Nat.le_of_not_lt hk)
    · exact (List.pairwise_map.mp hsorted).rel_get_of_lt hlt'
    · simp only [heq, List.get_eq_getElem]
      exact le_rfl
  rw [timeoutS_sweepTimeouts] at hfresh
  exact absurd (lt_of_lt_of_le hover (Binary64.sub_anti_right now hle)) (not_lt.mpr hfresh)

theorem marks_iterate (d : PartialFrameDetector) {n : Nat} (hn : n ≤ d.pending.length) :
    (markMatched^[n] d).marks = d.marks ++ List.range' d.exits.length n := by
  induction n generalizing d with
  | zero => simp
  | succ n ih =>
    rw [Function.iterate_succ_apply]
    cases hpending : d.pending with
    | nil => simp [hpending] at hn
    | cons oldest rest =>
      have hmark : d.markMatched = { d with pending := rest, exits := d.exits ++ [.marked] } := by
        rw [markMatched, hpending]
      rw [hmark, ih]
      · simp [marks, List.findIdxs_append, List.range'_succ]
      · simpa [hpending] using hn

end PartialFrameDetector
end CanSniffer
