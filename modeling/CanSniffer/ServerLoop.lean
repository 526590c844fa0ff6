import CanSniffer.FrameConservation
import CanSniffer.ServerRuns

namespace CanSniffer.Server

open Library Library.PyJson LatencyPairs Models CorrelatorRuns

variable {ops : FloatOps} {format : String → Nat → Option String} {dumps : FrameDict → String}
  {s t : Server}

def Act.loopAct? : Act → Option IngestLoop.Act
  | readable batch => some (.readable (batch.map Prod.fst))
  | pass p => some (.poll p.poll)
  | popCompleted | checkTimeouts _ _ _ | poll _ | update _ _ | arm _ | disarm | fire | setPairs _
  | annotate _ _ _ _ | resetTiming => none

variable (ops format) in
/-- An ended loop stays ended. -/
theorem stopped_keeps : Keeps ops format fun s => s.running = false where
  event _ _ h := h
  raised _ _ := rfl
  correlator _ _ h := h
  frame _ _ _ h := by
    rw [handleFrame_stopped h]
    exact h
  sweep _ _ h := by
    rw [sweep, andThen, h]
    exact h
  message s msg times h := by
    rw [onMessage]
    split_ifs
    · dsimp only
      split <;> exact h
    · exact h

variable (ops format dumps) in
theorem stopped_step (h : s.running = false) (a : Act) :
    (s.step ops format dumps a).running = false := by
  cases a with
  | readable batch => exact (stopped_keeps ops format).readable h batch
  | pass p => exact (stopped_keeps ops format).pass h p
  | popCompleted =>
    rw [step, popCompleted]
    dsimp only
    split <;> exact h
  | update now monotonic =>
    rw [step, update]
    split <;> exact h
  | _ => exact h

variable (dumps) in
theorem running_of_step (a : Act) (h : (s.step ops format dumps a).running = true) :
    s.running = true := by
  by_contra hstop
  have hstopped := stopped_step ops format dumps (Bool.eq_false_iff.mpr hstop) a
  rw [h] at hstopped
  cases hstopped

theorem ingestEvents_eq (events : List EventRead) (s : Server) :
    (events.foldl ingestEvent s).loop =
        (events.map fun e => (e.event, e.monotonic)).foldl IngestLoop.ingestEvent s.loop ∧
      (events.foldl ingestEvent s).running = s.running ∧
      (events.foldl ingestEvent s).diag.behav = s.diag.behav := by
  induction events generalizing s with
  | nil => exact ⟨rfl, rfl, rfl⟩
  | cons e events ih => exact ih (s.ingestEvent e)

theorem handleFrames_loop (p : Pass) (frames : List (EnrichedFrame × Nat)) (s : Server)
    (hbehav : s.diag.behav = none)
    (hrunning : (s.handleFrames ops format p frames).running = true) :
    (s.handleFrames ops format p frames).loop =
      (frames.map Prod.fst).foldl IngestLoop.handleFrame s.loop := by
  induction frames generalizing s with
  | nil => rfl
  | cons f frames ih =>
    cases hs : s.running with
    | false =>
      have hstopped := (stopped_keeps ops format).frames hs p (f :: frames)
      rw [hrunning] at hstopped
      cases hstopped
    | true =>
      have hspec := handleFrame_spec ops format f.1 (p.frames f.2) hs hbehav
      have hrest := ih (s.handleFrame ops format f.1 (p.frames f.2)) (by rw [hspec.diag, hbehav])
        hrunning
      rw [hspec.loop] at hrest
      exact hrest

theorem loop_drainFrames {p : Pass} (hbehav : s.diag.behav = none)
    (hrunning : (s.drainFrames ops format p).running = true) :
    (s.drainFrames ops format p).loop = s.loop.drainFrames p.nowNs := by
  have hframes := handleFrames_loop p (s.loop.correlator.drainMatched p.nowNs).1.zipIdx
    { s with loop := { s.loop with correlator := (s.loop.correlator.drainMatched p.nowNs).2 } }
    hbehav hrunning
  rwa [List.zipIdx_map_fst] at hframes

theorem pass_eq {p : Pass} (hs : s.running = true) :
    s.pass ops format p =
      if p.raises then { p.events.foldl ingestEvent s with running := false }
      else ((p.events.foldl ingestEvent s).drainFrames ops format p).sweep p := by
  obtain ⟨-, hrunning, -⟩ := ingestEvents_eq p.events s
  rw [pass, andThen, if_pos hs, drainEvents]
  split_ifs
  · rfl
  · rw [andThen, if_pos (hrunning.trans hs)]

theorem loop_pass {p : Pass} (hbehav : s.diag.behav = none)
    (hrunning : (s.pass ops format p).running = true) :
    (s.pass ops format p).loop = s.loop.poll p.poll := by
  have hs : s.running = true := running_of_step (fun _ => "") (.pass p) hrunning
  obtain ⟨hloop, -, hb⟩ := ingestEvents_eq p.events s
  rw [pass_eq hs] at hrunning ⊢
  split_ifs at hrunning ⊢
  cases hdrained : ((p.events.foldl ingestEvent s).drainFrames ops format p).running with
  | false =>
    have hstopped := (stopped_keeps ops format).sweep _ p hdrained
    rw [hrunning] at hstopped
    cases hstopped
  | true =>
    rw [sweep, andThen, if_pos hdrained]
    dsimp only
    rw [loop_drainFrames (hb.trans hbehav) hdrained, hloop]
    rfl

theorem loop_onCanReadable (s : Server) (batch : List (RawCanMessage × DiagTimes)) :
    (s.onCanReadable batch).loop = s.loop.onCanReadable (batch.map Prod.fst) := by
  induction batch generalizing s with
  | nil => rfl
  | cons m batch ih =>
    have hmessage : (s.onMessage m.1 m.2).loop = s.loop.onCanReadable [m.1] := by
      rw [onMessage, IngestLoop.onCanReadable, List.foldl_cons, List.foldl_nil]
      split_ifs
      · dsimp only
        split <;> rfl
      · rfl
    calc ((s.onMessage m.1 m.2).onCanReadable batch).loop
        = (s.onMessage m.1 m.2).loop.onCanReadable (batch.map Prod.fst) := ih _
      _ = (s.loop.onCanReadable [m.1]).onCanReadable (batch.map Prod.fst) := by rw [hmessage]

theorem loop_step {a : Act} (hbehav : s.diag.behav = none)
    (hrunning : (s.step ops format dumps a).running = true) :
    (s.step ops format dumps a).loop = a.loopAct?.toList.foldl IngestLoop.step s.loop := by
  cases a with
  | readable batch => exact loop_onCanReadable s batch
  | pass p => exact loop_pass hbehav hrunning
  | popCompleted =>
    rw [step, popCompleted]
    dsimp only
    split <;> rfl
  | update now monotonic =>
    rw [step, update]
    split <;> rfl
  | _ => rfl

/-- Until an exception ends it, the server's loop goes through a run of the correlator and the
detector alone. -/
theorem loop_run {file : Option PairsFile} (hstart : start file = some s) (acts : List Act)
    (hrunning : (s.run ops format dumps acts).running = true) :
    (s.run ops format dumps acts).loop =
      IngestLoop.run Correlator.defaultMaxDeltaNs PartialFrameDetector.abortTimeoutS
        (acts.filterMap Act.loopAct?) := by
  induction acts using List.reverseRecOn with
  | nil =>
    obtain ⟨explicit, patterns, -, rfl⟩ := start_eq hstart
    rfl
  | append_singleton acts a ih =>
    rw [run_concat] at hrunning ⊢
    have hbehav := (fed_run ops format dumps hstart acts).behav
    rw [loop_step hbehav hrunning, ih (running_of_step dumps a hrunning), List.filterMap_append,
      IngestLoop.run, IngestLoop.run, List.foldl_append]
    cases a <;> rfl

def dataFrames (acts : List Act) : List RawCanMessage :=
  (acts.flatMap fun
    | .readable batch => batch.map Prod.fst
    | _ => []).filter (!·.isErrorFrame)

/-- The frames that wait to be handed on. -/
def waiting (c : Correlator) : List EnrichedFrame :=
  c.matched.map FrameConservation.received ++ c.canQ.items.map (Correlator.enrich · none)

theorem frames_loopActs (acts : List Act) :
    frames ((acts.filterMap Act.loopAct?).flatMap IngestLoop.Act.ops) = dataFrames acts := by
  induction acts with
  | nil => rfl
  | cons a acts ih =>
    have hcons : dataFrames (a :: acts) = dataFrames [a] ++ dataFrames acts := by
      simp [dataFrames]
    have hone : frames (a.loopAct?.toList.flatMap IngestLoop.Act.ops) = dataFrames [a] := by
      cases a with
      | readable batch =>
        simp [Act.loopAct?, IngestLoop.Act.ops, frames, dataFrames, List.filterMap_map,
          Function.comp_def, Op.frame?]
      | pass p =>
        simp [Act.loopAct?, IngestLoop.Act.ops, frames, dataFrames, Pass.poll, List.filterMap_map,
          Function.comp_def, Op.frame?]
      | _ => rfl
    rw [hcons, ← ih, ← hone, ← frames_append, ← List.flatMap_append]
    cases a <;> rfl

def handed (s : Server) (p : Pass) : List EnrichedFrame :=
  ((p.poll.events.foldl IngestLoop.ingestEvent s.loop).correlator.drainMatched p.nowNs).1

def Unlabelled (format : String → Nat → Option String) (pairs : List Pair) (frame : EnrichedFrame) :
    Prop :=
  ∃ pair ∈ pairs, pair.reaction format frame.arbId = .raises

def Stops (format : String → Nat → Option String) (s : Server) (frame : EnrichedFrame) : Prop :=
  Unlabelled format s.pairs.latency.pairs frame ∨ s.Unordered

variable (ops format) in
def handing (s : Server) (p : Pass) (before : List (EnrichedFrame × Nat)) : Server :=
  let t := p.events.foldl ingestEvent s
  let correlator := (t.loop.correlator.drainMatched p.nowNs).2
  { t with loop := { t.loop with correlator } }.handleFrames ops format p before

theorem current_run_isSome {frames : List EnrichedFrame}
    (hbits : BusLoadMonitor.bitsOf (frames.map BusLoadMonitor.entry) < 2 ^ 1023) :
    (BusLoadMonitor.run 1000000 1 frames).current.isSome := by
  by_cases hne : (BusLoadMonitor.run 1000000 1 frames).window = []
  · rw [BusLoadMonitor.current, if_pos hne]
    rfl
  · obtain ⟨hrate, hwindow⟩ := BusLoadMonitor.run_parameters 1000000 1 frames
    have hsub := BusLoadMonitor.run_subset 1000000 1 frames
    have hcap : BusLoadMonitor.capacity? 1000000 1 = some 1000000 := by decide +kernel
    have hfinite : (1000000 : ℚ) < 2 ^ 1024 :=
      (by norm_num : (1000000 : ℚ) < 2 ^ 20).trans_le (pow_le_pow_right₀ one_le_two (by norm_num))
    have hbounds := BusLoadMonitor.current_bounds hne (BusLoadMonitor.run_accounted 1000000 1 frames)
      (fun e he => BusLoadMonitor.entry_bits_ge e (hsub.subset he)) (by rw [hrate, hwindow, hcap])
      (by norm_num) hfinite
    exact hbounds.2 ((BusLoadMonitor.bitsOf_sublist hsub).trans_lt hbits)

theorem bits_lt_of_earlier {frames more : List EnrichedFrame} (h : frames <+: more)
    (hbits : BusLoadMonitor.bitsOf (more.map BusLoadMonitor.entry) < 2 ^ 1023) :
    BusLoadMonitor.bitsOf (frames.map BusLoadMonitor.entry) < 2 ^ 1023 :=
  (BusLoadMonitor.bitsOf_sublist (h.sublist.map _)).trans_lt hbits

/-- A frame ends the loop exactly if some pair cannot label it or the trigger cannot compare it. -/
theorem running_handleFrame_iff {frame : EnrichedFrame} {r : FrameRead} (hfed : Fed dumps s)
    (hs : s.running = true)
    (hbits : BusLoadMonitor.bitsOf ((s.handleFrame ops format frame r).loop.emitted.map
      BusLoadMonitor.entry) < 2 ^ 1023) :
    (s.handleFrame ops format frame r).running = true ↔ ¬ Stops format s frame := by
  have hspec := handleFrame_spec ops format frame r hs hfed.behav
  have hload := current_run_isSome hbits
  rw [← (fed_handleFrame hfed frame r).busLoad] at hload
  have hraise : (s.pairs.latency.ingest format frame).2 = true ↔
      Unlabelled format s.pairs.latency.pairs frame :=
    LatencyMonitor.ingest_raises_iff frame
  obtain ⟨hon, hquiet, -⟩ | ⟨hoff, -, hwhy⟩ := hspec.trigger
  · rw [hquiet] at hraise
    rw [hon, Stops, ← hraise]
    simp
  · refine iff_of_false (by rw [hoff]; exact Bool.false_ne_true) (not_not.mpr (.inl ?_))
    rw [← hraise]
    obtain hlat | hnone | ⟨busLoad, htrigger⟩ := hwhy
    · exact hlat
    · rw [hnone] at hload
      cases hload
    · obtain ⟨seen, htrig, -⟩ := hfed.trigger
      obtain ⟨next, hnext, -⟩ := collects_apply htrig (.ingest frame busLoad r.id r.saved) [frame] rfl
      rw [TriggerCapture.apply, htrigger] at hnext
      cases hnext

theorem emitted_handleFrames (p : Pass) (frames : List (EnrichedFrame × Nat))
    (hbehav : s.diag.behav = none) :
    s.loop.emitted <+: (s.handleFrames ops format p frames).loop.emitted := by
  obtain ⟨new, h⟩ := (since_keeps ops format False False s).frames
    ⟨[], hbehav, (List.append_nil _).symm, False.elim, False.elim⟩ p frames
  rw [h.emitted]
  exact List.prefix_append _ _

theorem running_handleFrames_iff (p : Pass) (frames : List (EnrichedFrame × Nat)) (s : Server)
    (hfed : Fed dumps s) (hs : s.running = true)
    (hbits : BusLoadMonitor.bitsOf ((s.handleFrames ops format p frames).loop.emitted.map
      BusLoadMonitor.entry) < 2 ^ 1023) :
    (s.handleFrames ops format p frames).running = true ↔
      ∀ before f after, frames = before ++ f :: after →
        ¬ Stops format (s.handleFrames ops format p before) f.1 := by
  induction frames generalizing s with
  | nil =>
    refine iff_of_true hs fun before f after h => ?_
    simp at h
  | cons f frames ih =>
    have hfed' : Fed dumps (s.handleFrame ops format f.1 (p.frames f.2)) :=
      fed_handleFrame hfed f.1 _
    have hone := running_handleFrame_iff (r := p.frames f.2) hfed hs
      (bits_lt_of_earlier (emitted_handleFrames p frames hfed'.behav) hbits)
    cases hnext : (s.handleFrame ops format f.1 (p.frames f.2)).running with
    | true =>
      have hrest := ih _ hfed' hnext hbits
      refine hrest.trans ⟨fun h before g after heq => ?_, fun h before g after heq => ?_⟩
      · cases before with
        | nil =>
          cases heq
          exact hone.mp hnext
        | cons b before =>
          cases heq
          exact h before g after rfl
      · exact h (f :: before) g after (by rw [heq]; rfl)
    | false =>
      have hstopped : (s.handleFrames ops format p (f :: frames)).running = false :=
        (stopped_keeps ops format).frames hnext p frames
      rw [hnext] at hone
      refine iff_of_false (by rw [hstopped]; exact Bool.false_ne_true) fun h => ?_
      exact absurd (hone.mpr (h [] f frames rfl)) Bool.false_ne_true

/-- A pass ends the loop exactly if the drain or one of the frames that it is to hand on raises. -/
theorem running_pass_iff {p : Pass} (hfed : Fed dumps s) (hs : s.running = true)
    (hbits : BusLoadMonitor.bitsOf ((s.pass ops format p).loop.emitted.map
      BusLoadMonitor.entry) < 2 ^ 1023) :
    (s.pass ops format p).running = true ↔
      p.raises = false ∧ ∀ before f after, (s.handed p).zipIdx = before ++ f :: after →
        ¬ Stops format (s.handing ops format p before) f.1 := by
  obtain ⟨hloop, hrunning, -⟩ := ingestEvents_eq p.events s
  have hevents : Fed dumps (p.events.foldl ingestEvent s) :=
    List.foldlRecOn p.events ingestEvent hfed fun t ht e _ =>
      (fed_keeps ops format).event t e ht
  have hsweep : ∀ t : Server, (t.sweep p).running = t.running ∧
      (t.sweep p).loop.emitted = t.loop.emitted := by
    intro t
    rw [sweep, andThen]
    split_ifs <;> exact ⟨rfl, rfl⟩
  rw [pass_eq hs] at hbits ⊢
  by_cases hraises : p.raises = true
  · rw [if_pos hraises]
    exact iff_of_false Bool.false_ne_true fun h => Bool.eq_false_iff.mp h.1 hraises
  rw [if_neg hraises] at hbits ⊢
  rw [(hsweep _).2] at hbits
  rw [(hsweep _).1, drainFrames]
  have hframes := running_handleFrames_iff p
    ((p.events.foldl ingestEvent s).loop.correlator.drainMatched p.nowNs).1.zipIdx _
    ((fed_keeps ops format).correlator _
      ((p.events.foldl ingestEvent s).loop.correlator.drainMatched p.nowNs).2 hevents)
    (hrunning.trans hs) hbits
  have hhanded : s.handed p =
      ((p.events.foldl ingestEvent s).loop.correlator.drainMatched p.nowNs).1 := by
    rw [hloop]
    rfl
  rw [hhanded]
  exact hframes.trans (and_iff_right (Bool.eq_false_iff.mpr hraises)).symm

theorem stopped_run (h : s.running = false) (acts : List Act) :
    (s.run ops format dumps acts).running = false :=
  List.foldlRecOn (motive := fun t : Server => t.running = false) acts _ h
    fun _ ht a _ => stopped_step ops format dumps ht a

variable (ops format dumps) in
theorem emitted_run (hbehav : s.diag.behav = none) (acts : List Act) :
    s.loop.emitted <+: (s.run ops format dumps acts).loop.emitted := by
  obtain ⟨new, h⟩ := since_run ops format dumps hbehav acts
  rw [h.emitted]
  exact List.prefix_append _ _

theorem running_step {a : Act} (hpass : ∀ p, a ≠ .pass p) :
    (s.step ops format dumps a).running = s.running := by
  cases a with
  | pass p => exact absurd rfl (hpass p)
  | readable batch =>
    refine List.foldlRecOn (motive := fun t : Server => t.running = s.running) batch _ rfl ?_
    rintro t ht ⟨msg, times⟩ -
    change (t.onMessage msg times).running = s.running
    rw [onMessage]
    split_ifs
    · dsimp only
      split <;> exact ht
    · exact ht
  | popCompleted =>
    rw [step, popCompleted]
    dsimp only
    split <;> rfl
  | update now monotonic =>
    rw [step, update]
    split <;> rfl
  | _ => rfl

/-- The ingest task ends exactly if at some pass the drain of the ring raises, or a frame is handed
on that one of the pairs configured at that time cannot label, or that finds the trigger armed to
compare the load with a value that is no number: nothing else on the path of an event or a frame
raises, and nothing starts the task again. -/
theorem loop_ends_iff {file : Option PairsFile} (hstart : start file = some s) (acts : List Act)
    (hbits : BusLoadMonitor.bitsOf ((s.run ops format dumps acts).loop.emitted.map
      BusLoadMonitor.entry) < 2 ^ 1023) :
    (s.run ops format dumps acts).running = false ↔
      ∃ pre p post, acts = pre ++ .pass p :: post ∧
        let u := s.run ops format dumps pre
        p.raises = true ∨ ∃ before f after, (u.handed p).zipIdx = before ++ f :: after ∧
          Stops format (u.handing ops format p before) f.1 := by
  have hfed : ∀ acts, Fed dumps (s.run ops format dumps acts) := fed_run ops format dumps hstart
  constructor
  · intro hstop
    induction acts using List.reverseRecOn with
    | nil =>
      obtain ⟨explicit, patterns, -, rfl⟩ := start_eq hstart
      cases hstop
    | append_singleton acts a ih =>
      rw [run_concat] at hbits hstop
      have hgrow := emitted_run ops format dumps (hfed acts).behav [a]
      cases hbefore : (s.run ops format dumps acts).running with
      | false =>
        obtain ⟨pre, p, post, rfl, hbad⟩ := ih (bits_lt_of_earlier hgrow hbits) hbefore
        exact ⟨pre, p, post ++ [a], by simp, hbad⟩
      | true =>
        by_cases hpass : ∃ p, a = .pass p
        · obtain ⟨p, rfl⟩ := hpass
          refine ⟨acts, p, [], rfl, ?_⟩
          have hiff := running_pass_iff (hfed acts) hbefore hbits
          by_contra hnone
          obtain ⟨hquiet, hnone⟩ := not_or.mp hnone
          have hall := hiff.mpr ⟨Bool.eq_false_iff.mpr hquiet,
            fun before f after heq hbad => hnone ⟨before, f, after, heq, hbad⟩⟩
          rw [step, hall] at hstop
          cases hstop
        · rw [running_step (not_exists.mp hpass), hbefore] at hstop
          cases hstop
  · rintro ⟨pre, p, post, rfl, hends⟩
    have hsplit : s.run ops format dumps (pre ++ .pass p :: post) =
        ((s.run ops format dumps pre).pass ops format p).run ops format dumps post :=
      run_append s pre (.pass p :: post)
    rw [hsplit] at hbits ⊢
    have hstep := fed_step ops format (hfed pre) (.pass p)
    have hbits' := bits_lt_of_earlier (emitted_run ops format dumps hstep.behav post) hbits
    apply stopped_run
    cases hbefore : (s.run ops format dumps pre).running with
    | false => exact (stopped_keeps ops format).pass hbefore p
    | true =>
      rw [← Bool.not_eq_true, running_pass_iff (hfed pre) hbefore hbits']
      rintro ⟨hquiet, hall⟩
      obtain hraises | ⟨before, f, after, heq, hbad⟩ := hends
      · rw [hquiet] at hraises
        cases hraises
      · exact hall before f after heq hbad

def badThreshold : List Act := .arm ⟨.busLoad, none, .unordered⟩ :: twoFrames

theorem loop_ends_iff_badThreshold :
    (fresh.run Binary64.ops formatDefault (fun _ => "") badThreshold).running = false ↔
      ∃ pre p post, badThreshold = pre ++ .pass p :: post ∧
        let u := fresh.run Binary64.ops formatDefault (fun _ => "") pre
        p.raises = true ∨ ∃ before f after, (u.handed p).zipIdx = before ++ f :: after ∧
          Stops formatDefault (u.handing Binary64.ops formatDefault p before) f.1 :=
  loop_ends_iff (show start none = some fresh from rfl) badThreshold (by decide +kernel)

end CanSniffer.Server
