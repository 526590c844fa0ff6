import CanSniffer.Library.OneToOne
import CanSniffer.Confluence

namespace CanSniffer.MatcherOptimality

open Library Library.Trace Library.WhileLoop Library.WindowMatch Library.OneToOne Models Correlator
open CorrelatorRuns Confluence

variable {maxDeltaNs : Int} {c : Correlator}

def stamped (frames : List EnrichedFrame) : Nat := frames.countP fun frame => frame.pruTsNs.isSome

/-- An assignment of SOFs to frames, each frame at most `maxDeltaNs` after its SOF. -/
def SofAssignment (maxDeltaNs : Int) (prus : List PruEvent) (msgs : List RawCanMessage) :
    Finset (ℕ × ℕ) → Prop :=
  Assignment PruEvent.tFallNs RawCanMessage.timestampNs maxDeltaNs prus msgs

theorem stamped_append (frames more : List EnrichedFrame) :
    stamped (frames ++ more) = stamped frames + stamped more := List.countP_append

theorem stamped_correlate (maxDeltaNs : Int) (prus : List PruEvent) (msgs : List RawCanMessage) :
    stamped (correlate maxDeltaNs prus msgs) =
      pairCount PruEvent.tFallNs RawCanMessage.timestampNs maxDeltaNs prus msgs := by
  rw [stamped, correlate, List.countP_map, pairCount]
  apply List.countP_congr
  intro r _
  simp [enrich]

theorem stamped_correlate_of_exhausted (maxDeltaNs : Int) {prus : List PruEvent}
    {msgs : List RawCanMessage} (h : prus = [] ∨ msgs = []) :
    stamped (correlate maxDeltaNs prus msgs) = 0 := by
  obtain rfl | rfl := h
  · simp [stamped, correlate, enrich]
  · simp [stamped, correlate]

theorem stamped_flush (nowNs : Int) (c : Correlator) :
    stamped (c.flush nowNs).matched = stamped c.matched := by
  refine loop_invariant (fun d : Correlator => stamped d.matched = stamped c.matched) ?_ _ rfl
  intro s t hbody hs
  obtain ⟨msg, canRest, -, -, rfl⟩ := flushBody_cases hbody
  simpa [stamped, enrich] using hs

theorem inTime_of_undrained {ops : List Op} (h : ∀ nowNs, .drainMatched nowNs ∉ ops)
    (msgs : List RawCanMessage) : InTime maxDeltaNs msgs ops := by
  induction ops with
  | nil => trivial
  | cons op ops ih =>
    have hrest := ih fun nowNs hmem => h nowNs (List.mem_cons_of_mem op hmem)
    cases op with
    | ingestPru event => exact hrest
    | ingestFrame msg => exact hrest
    | drainMatched nowNs => exact absurd List.mem_cons_self (h nowNs)

theorem stamped_run {ops : List Op} (hundrained : ∀ nowNs, .drainMatched nowNs ∉ ops)
    (hfits : AllSteps Session.step Fits (.init maxDeltaNs) ops) (hframes : Sorted (frames ops))
    (nowNs : Int) :
    stamped (Session.run maxDeltaNs (ops ++ [.drainMatched nowNs])).emitted =
      stamped (correlate maxDeltaNs (sofs ops) (frames ops)) := by
  have hsplit := outcome_split (List.append_nil ops).symm hfits (inTime_of_undrained hundrained _)
    hframes
  set s := Session.run maxDeltaNs ops with hs
  have hleft : stamped (correlate s.correlator.maxDeltaNs s.correlator.pruQ.items
      s.correlator.canQ.items) = 0 :=
    stamped_correlate_of_exhausted _ (run_exhausted maxDeltaNs ops)
  rw [run_snoc, ← hs, step_drainMatched, ← hsplit, outcome, sofs_nil, frames_nil, List.append_nil,
    List.append_nil]
  simp only [stamped_append, stamped_flush, hleft, Nat.add_zero]

/-- With no queue overflowing and no drain before the end, a correlator fed with sorted streams
stamps as many frames as any one-to-one assignment of SOFs to frames could. -/
theorem matcher_optimal (maxDeltaNs : Int) (ops : List Op) (nowNs : Int)
    (hundrained : ∀ nowNs, .drainMatched nowNs ∉ ops)
    (hfits : AllSteps Session.step Fits (.init maxDeltaNs) ops)
    (hsofs : (sofs ops).Pairwise fun p q => p.tFallNs ≤ q.tFallNs) (hframes : Sorted (frames ops)) :
    IsGreatest {n | ∃ a, SofAssignment maxDeltaNs (sofs ops) (frames ops) a ∧ a.card = n}
      (stamped (Session.run maxDeltaNs (ops ++ [.drainMatched nowNs])).emitted) := by
  rw [stamped_run hundrained hfits hframes, stamped_correlate]
  exact pairCount_isGreatest hsofs (hframes.imp timestampNs_mono)

/-- The SOF that comes first reaches both frames, the second only the second frame. -/
def crowded : List Op :=
  [.ingestPru (exampleSof 999000000), .ingestFrame (exampleFrame 1),
    .ingestFrame (exampleFrame (1001 / 1000)), .ingestPru (exampleSof 1001000000)]

theorem crowded_optimal :
    IsGreatest {n | ∃ a, SofAssignment defaultMaxDeltaNs (sofs crowded) (frames crowded) a ∧
      a.card = n}
      (stamped (Session.run defaultMaxDeltaNs (crowded ++ [.drainMatched 0])).emitted) :=
  matcher_optimal defaultMaxDeltaNs crowded 0 (by simp [crowded]) (by decide +kernel)
    (by decide +kernel) (by decide +kernel)

end CanSniffer.MatcherOptimality
