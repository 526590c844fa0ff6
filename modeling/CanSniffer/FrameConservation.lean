import CanSniffer.CorrelatorRuns

namespace CanSniffer.FrameConservation

open Library.Trace Library.WhileLoop Models Correlator CorrelatorRuns

def received (f : EnrichedFrame) : EnrichedFrame := { f with pruTsNs := none }

/-- The returned frames, then those waiting in `matched`, then those still queued, are
the ingested frames in order. -/
def Conserved (s : Session) (msgs : List RawCanMessage) : Prop :=
  (s.emitted ++ s.correlator.matched).map received ++ s.correlator.canQ.items.map (enrich · none) =
    msgs.map (enrich · none)

instance (s : Session) (msgs : List RawCanMessage) : Decidable (Conserved s msgs) :=
  inferInstanceAs (Decidable (_ = _))

/-- A frame comes in only while its queue is not full. -/
def HasRoom (s : Session) : Op → Prop
  | .ingestFrame _ => s.correlator.canQ.items.length < 256
  | _ => True

instance (s : Session) : (op : Op) → Decidable (HasRoom s op)
  | .ingestPru _ => instDecidableTrue
  | .ingestFrame _ => Nat.decLt _ _
  | .drainMatched _ => instDecidableTrue

def lost (c : Correlator) : List RawCanMessage := c.history.filterMap Exit.lost?

theorem lost_tryMatch (c : Correlator) : lost (tryMatch c) = lost c := by
  refine loop_invariant (fun d => lost d = lost c) ?_ _ rfl
  intro s t hbody hs
  obtain ⟨msg, -, -, pru, -, -, ⟨-, rfl⟩ | ⟨-, -, rfl⟩ | ⟨-, -, rfl⟩⟩ := tryMatchBody_cases hbody
  all_goals simpa [lost, List.filterMap_append, List.filterMap_cons, Exit.lost?] using hs

theorem lost_flush (nowNs : Int) (c : Correlator) : lost (c.flush nowNs) = lost c := by
  refine loop_invariant (fun d => lost d = lost c) ?_ _ rfl
  intro s t hbody hs
  obtain ⟨msg, -, -, -, rfl⟩ := flushBody_cases hbody
  simpa [lost, List.filterMap_append, List.filterMap_cons, Exit.lost?] using hs

theorem lost_ingestPru (c : Correlator) (event : PruEvent) : lost (c.ingestPru event) = lost c := by
  rw [ingestPru]
  split
  · rfl
  · rw [lost_tryMatch]
    simp [lost, List.filterMap_append, List.filterMap_map, Function.comp_def, Exit.lost?]

theorem lost_ingestFrame (c : Correlator) (msg : RawCanMessage) :
    lost (c.ingestFrame msg) = lost c ++ c.canQ.dropped msg := by
  rw [ingestFrame, lost_tryMatch]
  simp [lost, List.filterMap_append, List.filterMap_map, Function.comp_def, Exit.lost?]

/-- The queue drops nothing exactly when each frame found room. -/
theorem lost_eq_nil_iff (maxDeltaNs : Int) (ops : List Op) :
    lost (Session.run maxDeltaNs ops).correlator = [] ↔
      AllSteps Session.step HasRoom (.init maxDeltaNs) ops := by
  induction ops using List.reverseRecOn with
  | nil => exact iff_of_true rfl trivial
  | append_singleton ops op ih =>
    rw [allSteps_snoc, ← ih, run_snoc]
    cases op with
    | ingestPru event => simp [Session.step, lost_ingestPru, HasRoom]
    | ingestFrame msg =>
      simp only [Session.step, lost_ingestFrame, List.append_eq_nil_iff, HasRoom,
        Library.Deque.dropped_eq_nil_iff]
      rfl
    | drainMatched nowNs =>
      have h := lost_flush nowNs (Session.run maxDeltaNs ops).correlator
      simp only [Session.step, drainMatched, HasRoom, and_true, ← h]
      rfl

theorem length_exits (history : List Exit) :
    (history.filterMap Exit.frame?).length =
      (history.filterMap Exit.output?).length + (history.filterMap Exit.lost?).length := by
  induction history with
  | nil => rfl
  | cons e history ih =>
    cases e <;> simp [List.filterMap_cons, Exit.frame?, Exit.output?, Exit.lost?, ih] <;> omega

theorem received_output (history : List Exit) (h : history.filterMap Exit.lost? = []) :
    (history.filterMap Exit.output?).map received =
      (history.filterMap Exit.frame?).map (enrich · none) := by
  induction history with
  | nil => rfl
  | cons e history ih =>
    cases e <;>
      simp_all [List.filterMap_cons, Exit.frame?, Exit.output?, Exit.lost?, received, enrich]

theorem conserved_iff {maxDeltaNs : Int} {prus : List PruEvent} {msgs : List RawCanMessage}
    {s : Session} (h : Accounts maxDeltaNs prus msgs s.emitted s.correlator) :
    Conserved s msgs ↔ lost s.correlator = [] := by
  rw [Conserved, ← h.output, ← h.frames, List.map_append, List.append_left_inj]
  refine ⟨fun heq => ?_, received_output _⟩
  have hlen := congrArg List.length heq
  rw [List.length_map, List.length_map, length_exits] at hlen
  exact List.eq_nil_of_length_eq_zero (by rw [lost]; omega)

/-- Frames are neither lost, repeated nor moved exactly in the runs where each frame
finds fewer than 256 others waiting. -/
theorem frames_conserved_iff_room (maxDeltaNs : Int) (ops : List Op) :
    Conserved (Session.run maxDeltaNs ops) (frames ops) ↔
      AllSteps Session.step HasRoom (.init maxDeltaNs) ops := by
  rw [conserved_iff (run_accounts ops maxDeltaNs), lost_eq_nil_iff]

def burstFrame : RawCanMessage := ⟨1760000000, 0x123, 0, [], false, false⟩

/-- 257 frames between two polls, without any PRU event: the first is gone. -/
theorem burst_of_257_loses_a_frame :
    ¬ Conserved (Session.run defaultMaxDeltaNs (List.replicate 257 (.ingestFrame burstFrame)))
      (frames (List.replicate 257 (.ingestFrame burstFrame))) := by
  rw [conserved_iff (run_accounts _ _), lost_eq_nil_iff]
  decide +kernel

end CanSniffer.FrameConservation
