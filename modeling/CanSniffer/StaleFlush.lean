import CanSniffer.Confluence

namespace CanSniffer.StaleFlush

open Library Library.WhileLoop Models Correlator CorrelatorRuns Confluence

variable {maxDeltaNs nowNs : Int} {c : Correlator} {ops : List Op}

theorem flushBody_unpaired (h : c.pruQ.items = [] ∨ c.canQ.items = []) {passes : Nat}
    {d : Correlator} (hflush : flushBody nowNs (loop (flushBody nowNs) passes c) = some d) :
    (loop (flushBody nowNs) passes c).pruQ.items = [] := by
  obtain hpru | hcan := flushBody_exhausted h nowNs passes
  · exact hpru
  · obtain ⟨msg, canRest, hcons, -, -⟩ := flushBody_cases hflush
    rw [hcan] at hcons
    cases hcons

theorem queued_fresh (hsorted : Sorted c.canQ.items) (hflush : flushBody nowNs c = none) :
    ∀ msg ∈ c.canQ.items, ¬ nowNs - msg.timestampNs > c.maxDeltaNs := by
  rw [flushBody_eq_none] at hflush
  intro msg hmem hstale
  cases hcan : c.canQ.items with
  | nil =>
    rw [hcan] at hmem
    cases hmem
  | cons head canRest =>
    rw [hcan] at hmem hflush hsorted
    have hhead := hflush head rfl
    obtain rfl | hrest := List.mem_cons.mp hmem
    · omega
    · have hle := timestampNs_mono ((List.pairwise_cons.mp hsorted).1 msg hrest)
      omega

theorem sorted_queued (hsorted : Sorted (frames ops)) (nowNs : Int) :
    Sorted ((Session.run maxDeltaNs ops).correlator.flush nowNs).canQ.items := by
  have hframes := (accounts_flush (run_accounts ops maxDeltaNs) nowNs).frames
  rw [← hframes] at hsorted
  exact (List.pairwise_append.mp hsorted).2.1

theorem drained_fresh (hsorted : Sorted (frames ops)) :
    ∀ msg ∈ (Session.run maxDeltaNs (ops ++ [.drainMatched nowNs])).correlator.canQ.items,
      ¬ nowNs - msg.timestampNs > maxDeltaNs := by
  rw [run_snoc, step_drainMatched]
  have hqueued : Sorted ((Session.run maxDeltaNs ops).correlator.flush nowNs).canQ.items :=
    sorted_queued hsorted nowNs
  have hfresh := queued_fresh hqueued (flush_exhausts nowNs _)
  rwa [(accounts_flush (run_accounts ops maxDeltaNs) nowNs).width] at hfresh

/-- After every operation one of the queues is empty; hence no SOF waits when a drain flushes a
frame, in any of its passes; and a drain leaves no stale frame behind, if the frames came in the
order of their timestamps. -/
theorem flush_safe_and_complete (maxDeltaNs : Int) (ops : List Op) :
    ((Session.run maxDeltaNs ops).correlator.pruQ.items = [] ∨
        (Session.run maxDeltaNs ops).correlator.canQ.items = []) ∧
      (∀ nowNs passes c d,
        loop (flushBody nowNs) passes (Session.run maxDeltaNs ops).correlator = c →
          flushBody nowNs c = some d → c.pruQ.items = []) ∧
      ∀ nowNs, Sorted (frames ops) →
        ∀ msg ∈ (Session.run maxDeltaNs (ops ++ [.drainMatched nowNs])).correlator.canQ.items,
          ¬ nowNs - msg.timestampNs > maxDeltaNs := by
  have hexhausted := run_exhausted maxDeltaNs ops
  refine ⟨hexhausted, ?_, ?_⟩
  · rintro nowNs passes _ d rfl hflush
    exact flushBody_unpaired hexhausted hflush
  · intro nowNs hsorted
    exact drained_fresh hsorted

end CanSniffer.StaleFlush
