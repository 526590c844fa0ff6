import CanSniffer.CaptureCollection
import CanSniffer.CaptureContiguity
import CanSniffer.ServerRuns

namespace CanSniffer

open Library Library.GatedBuffer Library.Newest Models LatencyPairs TriggerCapture

namespace CaptureRecord

open CaptureCollection CaptureContiguity TriggerStates

variable {preSize postSize : Nat} {r : CaptureRecord preSize postSize}

/-- Every session that is handed out, or is next, was saved, in this order, and the trigger of each
came when the collection of those before it was over. -/
structure Queued (r : CaptureRecord preSize postSize) : Prop where
  handed : ∃ taken : List (Nat × CaptureSession), taken.Sublist r.saves ∧
    taken.map Prod.snd = r.popped ++ r.trig.pending.toList
  apart : r.saves.Pairwise fun e f => e.1 + postSize ≤ f.1
  fired : r.trig.state = .collecting → ∀ e ∈ r.saves, e.1 + postSize ≤ r.firedAt

theorem handed_after {op : Op} {t : TriggerCapture preSize postSize} (hcond : r.trig.Conditioned)
    (h : Queued r) (hop : r.trig.apply op = some t) :
    ∃ taken : List (Nat × CaptureSession), taken.Sublist (r.after op t).saves ∧
      taken.map Prod.snd = (r.after op t).popped ++ (r.after op t).trig.pending.toList := by
  obtain ⟨taken, hsub, htaken⟩ := h.handed
  obtain ⟨-, hsaved, hmoved⟩ | ⟨-, cap, hsaved, hpop, hpend⟩ := apply_account hcond hop
  · refine ⟨taken, ?_, ?_⟩
    · rwa [after, hsaved, List.append_nil]
    · rw [after, List.append_assoc, hmoved, htaken]
  · -- the session that was next, if any, is overwritten
    obtain ⟨out, next, rfl, hout, -⟩ := List.map_eq_append_iff.mp htaken
    refine ⟨out ++ [(r.firedAt, cap)], ?_, ?_⟩
    · rw [after, hsaved]
      exact ((List.sublist_append_left out next).trans hsub).append (List.Sublist.refl _)
    · rw [after, hpop, hpend, List.append_nil, List.map_append, hout]
      rfl

theorem queued_after {op : Op} {t : TriggerCapture preSize postSize} (hcond : r.trig.Conditioned)
    (hrolling : Rolling r) (h : Queued r) (hop : r.trig.apply op = some t) :
    Queued (r.after op t) := by
  have hsaves : ∀ e ∈ r.saves, e.1 + postSize ≤ r.seen.length := fun e he => (hrolling.saves e he).1
  refine ⟨handed_after hcond h hop, ?_, ?_⟩
  · obtain ⟨-, hsaved, -⟩ | ⟨hsave, cap, hsaved, -⟩ := apply_account hcond hop
    · rw [after, hsaved, List.append_nil]
      exact h.apart
    · obtain ⟨frame, busLoad, id, now, rfl, hdone⟩ := saves_cases hsave
      rw [after, hsaved]
      refine List.pairwise_append.mpr ⟨h.apart, List.pairwise_singleton _ _, ?_⟩
      intro e he f hf
      rw [List.mem_singleton.mp hf]
      exact h.fired hdone.1 e he
  · intro ht
    obtain ⟨harmed, -⟩ | ⟨hstate, -, hno⟩ := collecting_cases hcond hop ht
    · have hno : ¬ Saves r op := by
        intro hsave
        obtain ⟨frame, busLoad, id, now, rfl, hdone⟩ := saves_cases hsave
        exact absurd (harmed.symm.trans hdone.1) (by decide)
      have hgrows : r.seen.length ≤ (r.seenAfter op).length := by
        cases op with
        | ingest frame busLoad id now =>
          rw [seenAfter, List.length_append]
          exact Nat.le_add_right _ _
        | _ => exact le_rfl
      intro e he
      rw [after, savedBy_of_not_saves hno, List.append_nil] at he
      rw [after]
      dsimp only
      rw [if_pos ⟨harmed, ht⟩]
      exact (hsaves e he).trans hgrows
    · intro e he
      rw [after, savedBy_of_not_saves hno, List.append_nil] at he
      rw [after]
      dsimp only
      rw [if_neg fun harmed => absurd (harmed.1.symm.trans hstate) (by decide)]
      exact h.fired hstate e he

theorem queued_run (hpost : 1 ≤ postSize) (ops : List Op) :
    ∀ r ∈ run preSize postSize ops, Rolling r ∧ Queued r := by
  refine run_invariant (I := fun r => Rolling r ∧ Queued r) ?_ ?_ ops
  · exact ⟨rolling_init, ⟨[], List.Sublist.refl _, rfl⟩, List.Pairwise.nil, nofun⟩
  · intro r op t hcond h hop
    exact ⟨rolling_after hpost hcond h.1 hop, queued_after hcond h.1 h.2 hop⟩

theorem seen_run {ops : List Op} (hr : run preSize postSize ops = some r) :
    r.seen.map Prod.fst = ingested ops := by
  induction ops using List.reverseRecOn generalizing r with
  | nil =>
    cases hr
    rfl
  | append_singleton ops op ih =>
    obtain ⟨q, t, hq, -, -, rfl⟩ := run_snoc_some hr
    rw [ingested_append, ← ih hq]
    cases op with
    | ingest frame busLoad id now => exact List.map_append
    | _ => exact (List.append_nil _).symm

end CaptureRecord

namespace Server

open CaptureRecord CaptureContiguity

variable {ops : FloatOps} {format : String → Nat → Option String} {dumps : FrameDict → String}
  {s : Server}

/-- The session is cut out of the rows of frames: those after its trigger have the rows from `p` on,
and those before it some of the rows in front of `p`. -/
def CutAt (rows : List Row) (p : Nat) (cap : CaptureSession) : Prop :=
  ∃ pre post : List EnrichedFrame,
    cap.preFrames = pre.map EnrichedFrame.toDict ∧ cap.postFrames = post.map EnrichedFrame.toDict ∧
    pre.length ≤ 200 ∧ post.length = 200 ∧
    (pre.map (DiagLogger.frameRow · false)).Sublist (rows.take p) ∧
    post.map (DiagLogger.frameRow · false) = (rows.drop p).take 200

theorem cutAt_of_holds {seen : List (FrameDict × Bool)} {frames : List EnrichedFrame} {p : Nat}
    {cap : CaptureSession} (h : Holds 200 200 seen p cap)
    (hseen : seen.map Prod.fst <+: frames.map EnrichedFrame.toDict) :
    CutAt (frames.map (DiagLogger.frameRow · false)) p cap := by
  obtain ⟨hlength, hpre, hpost⟩ := h
  rw [List.prefix_iff_eq_take, List.length_map] at hseen
  have hbound : seen.length ≤ frames.length := by
    have hlen := congrArg List.length hseen
    rw [List.length_map, List.length_take, List.length_map] at hlen
    omega
  have hbefore : cap.preFrames.Sublist ((frames.take p).map EnrichedFrame.toDict) := by
    have htake : (frames.take p).map EnrichedFrame.toDict = (seen.take p).map Prod.fst := by
      rw [List.map_take, List.map_take, hseen, List.take_take, Nat.min_eq_left (by omega)]
    rw [hpre, htake]
    exact (rtake_suffix _ _).sublist.trans (List.filter_sublist.map Prod.fst)
  obtain ⟨pre, hsub, hframes⟩ := List.sublist_map_iff.mp hbefore
  refine ⟨pre, (frames.drop p).take 200, hframes, ?_, ?_, ?_, ?_, ?_⟩
  · rw [hpost, List.map_take, List.map_drop, hseen, List.drop_take, List.take_take,
      Nat.min_eq_left (by omega), List.map_take, List.map_drop]
  · have hlen := congrArg List.length hframes
    rw [hpre, length_rtake, List.length_map] at hlen
    omega
  · rw [List.length_take, List.length_drop]
    omega
  · rw [← List.map_take]
    exact hsub.map _
  · rw [List.map_take, List.map_drop]

/-- In every run of the server, whatever its tasks and requests do and in whatever order, the
captures handed to the logger are sessions cut out of the frames handed to it, one after the other:
each has the 200 frames from its trigger on, and these stretches do not overlap. -/
theorem captures_match_rows {file : Option PairsFile} (hstart : start file = some s)
    (acts : List Act) :
    let t := s.run ops format dumps acts
    ∃ caps : List (Nat × CaptureSession), t.logged .cap = caps.map (captureRow dumps ·.2) ∧
      caps.Pairwise (fun c d => c.1 + 200 ≤ d.1) ∧
      ∀ c ∈ caps, CutAt (t.logged .frame) c.1 c.2 := by
  intro t
  have hfed : Fed dumps t := fed_run ops format dumps hstart acts
  obtain ⟨seen, ⟨calls, r, hrun, -, hrows, hingested⟩, hseen⟩ := hfed.trigger
  obtain ⟨hrolling, hqueued⟩ := queued_run (by norm_num) calls r hrun
  obtain ⟨taken, hsub, htaken⟩ := hqueued.handed
  obtain ⟨caps, next, rfl, hcaps, -⟩ := List.map_eq_append_iff.mp htaken
  have hsaved : caps.Sublist r.saves := (List.sublist_append_left caps next).trans hsub
  have hgrows : r.seen.map Prod.fst <+: t.loop.emitted.map EnrichedFrame.toDict := by
    rw [seen_run hrun, hingested]
    obtain rfl | ⟨-, rfl⟩ := hseen
    · exact List.prefix_rfl
    · exact (List.dropLast_prefix _).map _
  refine ⟨caps, ?_, hqueued.apart.sublist hsaved, fun c hc => ?_⟩
  · rw [hrows, ← hcaps, List.map_map]
    rfl
  · rw [hfed.frames]
    exact cutAt_of_holds (hrolling.saves c (hsaved.subset hc)) hgrows

def oneCapture : List Act :=
  let frames (n : Nat) := List.replicate n (⟨1, 0x123, 0, [], false, false⟩, noTimes)
  let handOn : Act :=
    .pass ⟨[], false, 3000000000, fun _ => ⟨0, fun _ => 0, fun _ => 0, "a", 0⟩, 0, fun _ => noTimes⟩
  [.arm ⟨.manual, none, .absent⟩, .readable (frames 1), handOn, .fire, .readable (frames 200), handOn,
    .popCompleted]

theorem captures_match_rows_oneCapture :
    let t := fresh.run Binary64.ops formatDefault (fun _ => "") oneCapture
    (t.logged .cap).length = 1 ∧ ∃ caps : List (Nat × CaptureSession),
      t.logged .cap = caps.map (captureRow (fun _ => "") ·.2) ∧
      caps.Pairwise (fun c d => c.1 + 200 ≤ d.1) ∧
      ∀ c ∈ caps, CutAt (t.logged .frame) c.1 c.2 :=
  ⟨by decide +kernel, captures_match_rows (show start none = some fresh from rfl) oneCapture⟩

end Server
end CanSniffer
