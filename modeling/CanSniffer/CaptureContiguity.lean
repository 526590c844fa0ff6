import CanSniffer.Library.GatedBuffer
import CanSniffer.CaptureRuns

namespace CanSniffer.CaptureContiguity

open Library Library.GatedBuffer Library.Newest Models TriggerCapture CaptureRecord

variable {preSize postSize : Nat} {r : CaptureRecord preSize postSize}

/-- What a session holds when the trigger came behind the first `p` frames of the bus. -/
def Holds (preSize postSize : Nat) (seen : List (FrameDict × Bool)) (p : Nat)
    (s : CaptureSession) : Prop :=
  p + postSize ≤ seen.length ∧ s.preFrames = (fed (seen.take p)).rtake preSize ∧
    s.postFrames = ((seen.drop p).take postSize).map Prod.fst

structure Rolling (r : CaptureRecord preSize postSize) : Prop where
  pre : r.trig.preBuf.items = (fed r.seen).rtake preSize
  post : r.trig.state = .collecting →
    r.firedAt ≤ r.seen.length ∧ r.trig.postBuf = (r.seen.drop r.firedAt).map Prod.fst ∧
      fed (r.seen.drop r.firedAt) = [] ∧ r.trig.postBuf.length < postSize
  saves : ∀ e ∈ r.saves, Holds preSize postSize r.seen e.1 e.2

theorem rolling_init : Rolling ({} : CaptureRecord preSize postSize) where
  pre := by simp [fed, Deque.empty]
  post := by simp
  saves := by simp

theorem holds_append {seen more : List (FrameDict × Bool)} {p : Nat} {s : CaptureSession}
    (h : Holds preSize postSize seen p s) : Holds preSize postSize (seen ++ more) p s := by
  obtain ⟨hlen, hpre, hpost⟩ := h
  refine ⟨by rw [List.length_append]; omega, ?_, ?_⟩
  · rw [hpre, List.take_append_of_le_length (by omega)]
  · rw [hpost, List.drop_append_of_le_length (by omega),
      List.take_append_of_le_length (by rw [List.length_drop]; omega)]

theorem fed_take_firedAt (h : Rolling r) (hstate : r.trig.state = .collecting) :
    fed (r.seen.take r.firedAt) = fed r.seen := by
  obtain ⟨-, -, hnone, -⟩ := h.post hstate
  conv_rhs => rw [← List.take_append_drop r.firedAt r.seen]
  rw [fed_append, hnone, List.append_nil]

theorem rolling_trigger {q : CaptureRecord preSize postSize} (hpost : 1 ≤ postSize)
    (hpre : q.trig.preBuf.items = (fed q.seen).rtake preSize)
    (hbuf : q.trig.postBuf = []) (hfired : q.firedAt = q.seen.length)
    (hsaves : ∀ e ∈ q.saves, Holds preSize postSize q.seen e.1 e.2) : Rolling q := by
  refine ⟨hpre, fun _ => ?_, hsaves⟩
  rw [hfired, hbuf, List.drop_length]
  exact ⟨le_rfl, rfl, rfl, hpost⟩

theorem rolling_quiet (h : Rolling r) {q : CaptureRecord preSize postSize}
    (hbuf : q.trig.preBuf = r.trig.preBuf) (hseen : q.seen = r.seen) (hsaves : q.saves = r.saves)
    (hpost : q.trig.state = .collecting → r.trig.state = .collecting ∧
      q.trig.postBuf = r.trig.postBuf ∧ q.firedAt = r.firedAt) : Rolling q := by
  refine ⟨by rw [hbuf, hseen]; exact h.pre, fun hstate => ?_, by rw [hsaves, hseen]; exact h.saves⟩
  obtain ⟨hcoll, hpb, hfired⟩ := hpost hstate
  rw [hseen, hpb, hfired]
  exact h.post hcoll

theorem rolling_fire (hpost : 1 ≤ postSize) (h : Rolling r) :
    Rolling (r.after .fire r.trig.fire) := by
  by_cases harmed : r.trig.state = .armed
  · have hfire : r.trig.fire = r.trig.trigger := by rw [fire, if_pos harmed]
    rw [hfire]
    refine rolling_trigger hpost ?_ rfl ?_ ?_
    · exact h.pre
    · simp [after, harmed, trigger, seenAfter]
    · simpa [after, savedBy, seenAfter] using h.saves
  · have hfire : r.trig.fire = r.trig := by rw [fire, if_neg harmed]
    rw [hfire]
    apply rolling_quiet (q := r.after .fire r.trig) h rfl rfl (List.append_nil _)
    intro hstate
    exact ⟨hstate, rfl, by simp [after, harmed]⟩

theorem rolling_idle (h : Rolling r) (hstate : r.trig.state = .idle) (frame : EnrichedFrame)
    (busLoad : ℚ) (id : String) (now : ℚ) :
    Rolling (r.after (.ingest frame busLoad id now) r.trig) := by
  have hno : ¬ r.trig.Completes := by simp [Completes, hstate]
  refine ⟨?_, ?_, ?_⟩
  · simp only [after, seenAfter, hstate, reduceCtorEq, decide_false, fed_concat]
    exact h.pre
  · simp [after, hstate]
  · simp only [after, savedBy, if_neg hno, List.append_nil, seenAfter]
    exact fun e he => holds_append (h.saves e he)

theorem rolling_armed (hpost : 1 ≤ postSize) (h : Rolling r) (hstate : r.trig.state = .armed)
    (frame : EnrichedFrame) (busLoad : ℚ) (id : String) (now : ℚ) (met : Bool) :
    Rolling (r.after (.ingest frame busLoad id now)
      (if met then (r.trig.addPre frame.toDict).trigger else r.trig.addPre frame.toDict)) := by
  have hno : ¬ r.trig.Completes := by simp [Completes, hstate]
  have hpre : (r.trig.preBuf.append frame.toDict).items =
      (fed (r.seen ++ [(frame.toDict, true)])).rtake preSize := by
    rw [fed_concat, if_pos rfl]
    exact Deque.items_append_rtake h.pre _
  have hsaves : ∀ e ∈ r.saves, Holds preSize postSize (r.seen ++ [(frame.toDict, true)]) e.1 e.2 :=
    fun e he => holds_append (h.saves e he)
  cases met with
  | true =>
    apply rolling_trigger hpost
    · simpa [after, seenAfter, hstate, addPre, trigger] using hpre
    · rfl
    · simp [after, hstate, trigger]
    · simpa [after, savedBy, hno, seenAfter, hstate] using hsaves
  | false =>
    refine ⟨?_, ?_, ?_⟩
    · simpa [after, seenAfter, hstate, addPre] using hpre
    · simp [after, hstate, addPre]
    · simpa [after, savedBy, hno, seenAfter, hstate] using hsaves

/-- The frame that completes a capture leaves a session with the frames around its fire. -/
theorem holds_session (h : Rolling r) (hstate : r.trig.state = .collecting)
    (hfull : r.trig.postBuf.length + 1 = postSize) (frame : EnrichedFrame) (id : String) (now : ℚ) :
    Holds preSize postSize (r.seen ++ [(frame.toDict, false)]) r.firedAt
      ((r.trig.addPost frame.toDict).session id now) := by
  obtain ⟨hfired, hbuf, -, -⟩ := h.post hstate
  have hbuflen : r.trig.postBuf.length = r.seen.length - r.firedAt := by
    rw [hbuf, List.length_map, List.length_drop]
  have hdrop : (r.seen ++ [(frame.toDict, false)]).drop r.firedAt =
      r.seen.drop r.firedAt ++ [(frame.toDict, false)] := List.drop_append_of_le_length hfired
  have hpost : (r.seen.drop r.firedAt ++ [(frame.toDict, false)]).length ≤ postSize := by
    rw [List.length_append, List.length_singleton, List.length_drop]
    omega
  refine ⟨by rw [List.length_append, List.length_singleton]; omega, ?_, ?_⟩
  · rw [List.take_append_of_le_length hfired, fed_take_firedAt h hstate]
    exact h.pre
  · rw [hdrop, List.take_of_length_le hpost, List.map_append, ← hbuf]
    rfl

theorem rolling_collecting (h : Rolling r) (hstate : r.trig.state = .collecting)
    (frame : EnrichedFrame) (busLoad : ℚ) (id : String) (now : ℚ) :
    Rolling (r.after (.ingest frame busLoad id now)
      (if r.trig.Completes then (r.trig.addPost frame.toDict).saveSession id now
        else r.trig.addPost frame.toDict)) := by
  obtain ⟨hfired, hbuf, hnone, hlen⟩ := h.post hstate
  have hdrop : (r.seen ++ [(frame.toDict, false)]).drop r.firedAt =
      r.seen.drop r.firedAt ++ [(frame.toDict, false)] := List.drop_append_of_le_length hfired
  have hpre : r.trig.preBuf.items =
      (fed (r.seen ++ [(frame.toDict, false)])).rtake preSize := by
    rw [fed_concat]
    exact h.pre
  have hsaves : ∀ e ∈ r.saves, Holds preSize postSize (r.seen ++ [(frame.toDict, false)]) e.1 e.2 :=
    fun e he => holds_append (h.saves e he)
  by_cases hdone : r.trig.Completes
  · have hfull : r.trig.postBuf.length + 1 = postSize := by
      have := hdone.2
      omega
    rw [if_pos hdone]
    refine ⟨?_, ?_, ?_⟩
    · simpa [after, seenAfter, hstate, addPost, saveSession] using hpre
    · simp [after, saveSession]
    · have hnew := holds_session h hstate hfull frame id now
      simp only [after, savedBy, if_pos hdone, seenAfter, hstate, reduceCtorEq, decide_false]
      intro e he
      obtain he | he := List.mem_append.mp he
      · exact hsaves e he
      · rw [List.mem_singleton.mp he]
        exact hnew
  · have hmore : r.trig.postBuf.length + 1 < postSize := by
      by_contra hge
      exact hdone ⟨hstate, by omega⟩
    rw [if_neg hdone]
    refine ⟨?_, ?_, ?_⟩
    · simpa [after, seenAfter, hstate, addPost] using hpre
    · intro _
      simp only [after, seenAfter, hstate, reduceCtorEq, decide_false, addPost, false_and, if_false,
        hdrop]
      refine ⟨by rw [List.length_append]; omega, ?_, ?_, ?_⟩
      · rw [List.map_append, ← hbuf]
        rfl
      · rw [fed_concat]
        exact hnone
      · rw [List.length_append]
        exact hmore
    · simpa [after, savedBy, hdone, seenAfter, hstate] using hsaves

theorem rolling_after (hpost : 1 ≤ postSize) {op : Op} {t : TriggerCapture preSize postSize}
    (hcond : r.trig.Conditioned) (h : Rolling r) (hop : r.trig.apply op = some t) :
    Rolling (r.after op t) := by
  cases op with
  | arm condition =>
    cases hop
    exact rolling_quiet h rfl rfl (List.append_nil _) (by simp [after, arm])
  | disarm =>
    cases hop
    exact rolling_quiet h rfl rfl (List.append_nil _) (by simp [after, disarm])
  | fire =>
    cases hop
    exact rolling_fire hpost h
  | popCompleted =>
    cases hop
    refine rolling_quiet (q := r.after .popCompleted _) h rfl rfl (List.append_nil _) ?_
    intro hstate
    have hcoll : r.trig.state = .collecting := hstate
    exact ⟨hcoll, rfl, by simp [after, hcoll]⟩
  | ingest frame busLoad id now =>
    rw [apply] at hop
    cases hstate : r.trig.state with
    | idle =>
      rw [ingest_idle hstate] at hop
      cases hop
      exact rolling_idle h hstate frame busLoad id now
    | armed =>
      obtain ⟨cond, hc⟩ := Option.isSome_iff_exists.mp (hcond (by simp [hstate]))
      rw [ingest_armed hstate hc] at hop
      cases hop
      exact rolling_armed hpost h hstate frame busLoad id now _
    | collecting =>
      rw [ingest_collecting hstate] at hop
      cases hop
      exact rolling_collecting h hstate frame busLoad id now

/-- The session is a piece of the bus: frames that end at the trigger point, and then the
frames that follow it. -/
structure Slice (preSize postSize : Nat) (frames : List FrameDict) (p : Nat)
    (s : CaptureSession) : Prop where
  pre : s.preFrames <:+ frames.take p
  bound : s.preFrames.length ≤ preSize
  post : s.postFrames = (frames.drop p).take postSize
  full : s.postFrames.length = postSize

/-- The pre part reaches back as far as the buffer is long. -/
def Complete (preSize : Nat) (frames : List FrameDict) (p : Nat) (s : CaptureSession) : Prop :=
  s.preFrames = (frames.take p).rtake preSize

theorem Slice.contiguous {frames : List FrameDict} {p : Nat} {s : CaptureSession}
    (h : Slice preSize postSize frames p s) : s.preFrames ++ s.postFrames <:+: frames := by
  obtain ⟨before, hbefore⟩ := h.pre
  refine ⟨before, (frames.drop p).drop postSize, ?_⟩
  rw [← List.append_assoc, hbefore, h.post, List.append_assoc, List.take_append_drop,
    List.take_append_drop]

section Saved

variable {seen : List (FrameDict × Bool)} {p : Nat} {s : CaptureSession}

theorem slice_of_suffix (h : Holds preSize postSize seen p s)
    (hpre : s.preFrames <:+ (seen.map Prod.fst).take p) :
    Slice preSize postSize (seen.map Prod.fst) p s where
  pre := hpre
  bound := by
    rw [h.2.1, length_rtake]
    exact Nat.min_le_left _ _
  post := by rw [h.2.2, List.map_take, List.map_drop]
  full := by
    have hlen := h.1
    rw [h.2.2, List.length_map, List.length_take, List.length_drop]
    omega

theorem slice_of_noLeftovers (h : Holds preSize postSize seen p s)
    (hfed : NoLeftovers preSize (seen.take p)) :
    Slice preSize postSize (seen.map Prod.fst) p s := by
  apply slice_of_suffix h
  rw [h.2.1, ← List.map_take]
  exact rtake_fed_suffix hfed

theorem complete_of_fullyFed (h : Holds preSize postSize seen p s)
    (hfed : FullyFed preSize (seen.take p)) :
    Slice preSize postSize (seen.map Prod.fst) p s ∧ Complete preSize (seen.map Prod.fst) p s := by
  have hcomplete : Complete preSize (seen.map Prod.fst) p s := by
    rw [Complete, h.2.1, rtake_fed_eq hfed, List.map_take]
  refine ⟨slice_of_suffix h ?_, hcomplete⟩
  rw [hcomplete]
  exact rtake_suffix _ _

theorem nodup_take (hnodup : (seen.map Prod.fst).Nodup) : ((seen.take p).map Prod.fst).Nodup := by
  rw [List.map_take]
  exact hnodup.sublist (List.take_sublist p _)

theorem noLeftovers_of_slice (h : Holds preSize postSize seen p s)
    (hnodup : (seen.map Prod.fst).Nodup) (hslice : Slice preSize postSize (seen.map Prod.fst) p s) :
    NoLeftovers preSize (seen.take p) := by
  apply noLeftovers_of_suffix (nodup_take hnodup)
  rw [← h.2.1, List.map_take]
  exact hslice.pre

theorem fullyFed_of_complete (h : Holds preSize postSize seen p s)
    (hnodup : (seen.map Prod.fst).Nodup) (hcomplete : Complete preSize (seen.map Prod.fst) p s) :
    FullyFed preSize (seen.take p) := by
  apply fullyFed_of_eq (nodup_take hnodup)
  rw [← h.2.1, List.map_take]
  exact hcomplete

end Saved

/-- A saved session is a piece of the bus when the buffer held no leftovers at its trigger, and
one of full length when the newest frames had all been buffered. When no two frames are alike,
these are the only sessions of that kind. -/
theorem capture_contiguous_iff (hpost : 1 ≤ postSize) (ops : List Op) :
    ∃ r, run preSize postSize ops = some r ∧ ∀ e ∈ r.saves,
      let frames := r.seen.map Prod.fst
      let before := r.seen.take e.1
      (NoLeftovers preSize before → Slice preSize postSize frames e.1 e.2) ∧
      (FullyFed preSize before →
        Slice preSize postSize frames e.1 e.2 ∧ Complete preSize frames e.1 e.2) ∧
      (frames.Nodup →
        (Slice preSize postSize frames e.1 e.2 → NoLeftovers preSize before) ∧
        (Complete preSize frames e.1 e.2 → FullyFed preSize before)) := by
  obtain ⟨r, hr, -⟩ := run_total preSize postSize ops
  have hrolling := run_invariant rolling_init
    (fun _ _ _ hcond h hop => rolling_after hpost hcond h hop) ops r hr
  refine ⟨r, hr, fun e he => ?_⟩
  have hheld := hrolling.saves e he
  refine ⟨slice_of_noLeftovers hheld, complete_of_fullyFed hheld, fun hnodup => ⟨?_, ?_⟩⟩
  · exact noLeftovers_of_slice hheld hnodup
  · exact fullyFed_of_complete hheld hnodup

/-- One trigger, one frame after it, and then the next trigger. -/
def rearmed : List Op :=
  [.arm { type := .arbId, arbId := some 1 },
    .ingest (emptyFrame 1 1) 0 "a" 1, .ingest (emptyFrame 2 2) 0 "a" 2,
    .ingest (emptyFrame 1 3) 0 "b" 3, .ingest (emptyFrame 2 4) 0 "b" 4]

theorem capture_contiguous_rearmed : ∃ r, run 1 1 rearmed = some r ∧ ∀ e ∈ r.saves,
    NoLeftovers 1 (r.seen.take e.1) → Slice 1 1 (r.seen.map Prod.fst) e.1 e.2 := by
  obtain ⟨r, hr, h⟩ := @capture_contiguous_iff 1 1 (by decide) rearmed
  exact ⟨r, hr, fun e he => (h e he).1⟩

/-- After the automatic re-arm the buffer still holds the frame of the first trigger, which
the frame collected after it separates from the second. -/
theorem rearm_keeps_leftovers : ¬ ∀ preSize postSize ops, 1 ≤ postSize →
    ∃ r, run preSize postSize ops = some r ∧ ∀ e ∈ r.saves,
      Slice preSize postSize (r.seen.map Prod.fst) e.1 e.2 := by
  intro h
  obtain ⟨r, hr, hslice⟩ := h 2 1 rearmed (by decide)
  have hall : (run 2 1 rearmed).map (fun r => r.saves.all fun e =>
      decide (e.2.preFrames <:+ (r.seen.map Prod.fst).take e.1)) = some false := by
    decide
  rw [hr, Option.map_some, Option.some.injEq, List.all_eq_false] at hall
  obtain ⟨e, he, hno⟩ := hall
  exact hno (decide_eq_true (hslice e he).pre)

end CanSniffer.CaptureContiguity
