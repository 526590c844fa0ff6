import CanSniffer.IngestLoop
import CanSniffer.MatchSoundness

namespace CanSniffer.AbortAgreement

open Library Library.Trace Library.WhileLoop Models Correlator CorrelatorRuns MatchSoundness
  IngestLoop

def sofExits (c : Correlator) : List Exit := c.history.filter (·.sof?.isSome)

def isPaired : Exit → Bool
  | .paired _ _ => true
  | .unpaired _ | .discarded _ | .pruDropped _ | .canDropped _ => false

def pairedSofs (c : Correlator) : List Nat := (sofExits c).findIdxs isPaired

def matchedSofs (s : IngestLoop) : List Nat :=
  (pairedSofs s.correlator).take (matchedFrames s.emitted).length

/-- The SOFs of the frames that wait in `matched`. -/
def waitingSofs (s : IngestLoop) : List Nat :=
  (pairedSofs s.correlator).drop (matchedFrames s.emitted).length

def Discarded (s : IngestLoop) (k : Nat) : Prop :=
  ∃ pru, (sofExits s.correlator)[k]? = some (.discarded pru)

/-- When a poll has ingested its events, the SOFs of the frames it will return are those
that have been longest in the detector. -/
def OldestPending (s : IngestLoop) : Act → Prop
  | .readable _ => True
  | .poll p =>
    let s := p.events.foldl ingestEvent s
    waitingSofs s <+: List.range' s.detector.exits.length s.detector.pending.length

instance (s : IngestLoop) : (a : Act) → Decidable (OldestPending s a)
  | .readable _ => instDecidableTrue
  | .poll p => by
    unfold OldestPending
    infer_instance

def entries (acts : List Act) : List Pending := acts.flatMap Act.entries

/-- The values of `time.monotonic` in the order they are read. -/
def readings (acts : List Act) : List ℚ :=
  acts.flatMap fun
    | .readable _ => []
    | .poll p => (p.events.filter (·.1.type = .sof)).map Prod.snd ++ [p.sweepNow]

/-- Some sweep ran more than the timeout after the SOF was ingested. -/
def Overdue (timeoutS : ℚ) (acts : List Act) (k : Nat) : Prop :=
  ∃ pre p post entry, acts = pre ++ .poll p :: post ∧
    (entries (pre ++ [.poll p]))[k]? = some entry ∧
    Binary64.sub p.sweepNow entry.wallTime > timeoutS

/-- No SOF with an emitted frame was reported as aborted; each SOF that the correlator gave
up was reported once, as soon as a sweep found it overdue. -/
def Agrees (timeoutS : ℚ) (acts : List Act) (s : IngestLoop) : Prop :=
  (∀ k ∈ matchedSofs s, k ∉ s.detector.reports) ∧
    ∀ k, Discarded s k → Overdue timeoutS acts k → s.detector.reports.count k = 1

section

variable {c d : Correlator} {n : Nat}

theorem history_tryMatch (c : Correlator) : c.history <+: (tryMatch c).history := by
  refine loop_invariant (fun d : Correlator => c.history <+: d.history) ?_ _ (List.prefix_refl _)
  intro s t hbody hs
  obtain ⟨msg, -, -, pru, -, -, ⟨-, rfl⟩ | ⟨-, -, rfl⟩ | ⟨-, -, rfl⟩⟩ := tryMatchBody_cases hbody
  all_goals exact hs.trans (List.prefix_append _ _)

theorem sofExits_flush (nowNs : Int) (c : Correlator) : sofExits (c.flush nowNs) = sofExits c := by
  refine loop_invariant (fun d : Correlator => sofExits d = sofExits c) ?_ _ rfl
  intro s t hbody hs
  obtain ⟨msg, -, -, -, rfl⟩ := flushBody_cases hbody
  simpa [sofExits, Exit.sof?] using hs

theorem history_step (s : Session) (op : Op) :
    sofExits s.correlator <+: sofExits (s.step op).correlator := by
  cases op with
  | ingestPru event =>
    dsimp only [step_ingestPru, ingestPru]
    split
    · exact List.prefix_refl _
    · refine .filter _ (.trans ?_ (history_tryMatch _))
      exact List.prefix_append _ _
  | ingestFrame msg =>
    dsimp only [step_ingestFrame, ingestFrame]
    refine .filter _ (.trans ?_ (history_tryMatch _))
    exact List.prefix_append _ _
  | drainMatched nowNs =>
    have h := sofExits_flush nowNs s.correlator
    dsimp only [step_drainMatched]
    exact h ▸ List.prefix_refl _

theorem history_steps (s : Session) (ops : List Op) :
    sofExits s.correlator <+: sofExits (ops.foldl Session.step s).correlator := by
  induction ops generalizing s with
  | nil => exact List.prefix_refl _
  | cons op ops ih => exact (history_step s op).trans (ih _)

theorem pairedSofs_prefix (h : sofExits c <+: sofExits d) : pairedSofs c <+: pairedSofs d := by
  obtain ⟨rest, hrest⟩ := h
  rw [pairedSofs, pairedSofs, ← hrest, List.findIdxs_append]
  exact List.prefix_append _ _

theorem length_pairedSofs {maxDeltaNs : Int} {prus : List PruEvent} {msgs : List RawCanMessage}
    {returned : List EnrichedFrame} (h : Accounts maxDeltaNs prus msgs returned c) :
    (pairedSofs c).length = (matchedFrames returned).length + (matchedFrames c.matched).length := by
  have hout := congrArg List.length (matched_output c.history)
  rw [h.output, matchedFrames_append, List.length_append, List.length_map,
    List.length_filterMap_eq_countP] at hout
  rw [hout, pairedSofs, List.length_findIdxs, sofExits, List.countP_filter]
  exact List.countP_congr fun e _ => by cases e <;> simp [isPaired, pair?, Exit.sof?]

theorem map_getElem?_findIdxs {α : Type} (p : α → Bool) (xs : List α) :
    (xs.findIdxs p).map (xs[·]?) = (xs.filter p).map some := by
  apply List.ext_getElem (by simp [List.countP_eq_length_filter])
  intro i hi hj
  rw [List.length_map] at hi hj
  rw [List.getElem_map, List.getElem_map, List.getElem_filter_eq_getElem_getElem_findIdxs hj,
    List.getElem?_eq_getElem]

theorem sofs_of_exits (history : List Exit) :
    (history.filter (·.sof?.isSome)).map Exit.sof? = (history.filterMap Exit.sof?).map some := by
  induction history with
  | nil => rfl
  | cons e history ih =>
    cases e with
    | paired pru msg => exact congrArg (some pru :: ·) ih
    | unpaired msg => exact ih
    | discarded pru => exact congrArg (some pru :: ·) ih
    | pruDropped pru => exact congrArg (some pru :: ·) ih
    | canDropped msg => exact ih

theorem pairs_of_exits (history : List Exit) :
    ((history.filter (·.sof?.isSome)).filter isPaired).map Exit.sof? =
      (history.filterMap pair?).map fun p => some p.1 := by
  induction history with
  | nil => rfl
  | cons e history ih =>
    cases e with
    | paired pru msg => exact congrArg (some pru :: ·) ih
    | unpaired msg => exact ih
    | discarded pru => exact ih
    | pruDropped pru => exact ih
    | canDropped msg => exact ih

theorem getElem?_sofs {maxDeltaNs : Int} {prus : List PruEvent} {msgs : List RawCanMessage}
    {returned : List EnrichedFrame} {c : Correlator} (h : Accounts maxDeltaNs prus msgs returned c)
    {k : Nat} (hk : k < (sofExits c).length) : prus[k]? = (sofExits c)[k]?.bind Exit.sof? := by
  have hexits : (sofExits c).map Exit.sof? = (c.history.filterMap Exit.sof?).map some :=
    sofs_of_exits c.history
  have hlen := congrArg List.length hexits
  have hget := congrArg (·[k]?) hexits
  rw [List.length_map, List.length_map] at hlen
  simp only [List.getElem?_map, List.getElem?_eq_getElem hk, Option.map_some] at hget
  rw [← h.sofs, List.getElem?_append_left (by omega), List.getElem?_eq_getElem hk, Option.bind_some]
  rw [List.getElem?_eq_getElem (by omega), Option.map_some, Option.some_inj] at hget
  rw [List.getElem?_eq_getElem (by omega), hget]

theorem pairedSofs_times {maxDeltaNs : Int} {prus : List PruEvent} {msgs : List RawCanMessage}
    {returned : List EnrichedFrame} {c : Correlator} (h : Accounts maxDeltaNs prus msgs returned c) :
    (matchedFrames (returned ++ c.matched)).map (·.pruTsNs) =
      (pairedSofs c).map fun k => prus[k]?.map (·.tFallNs) := by
  have hlook : ∀ k ∈ pairedSofs c, prus[k]?.map (·.tFallNs) =
      ((sofExits c)[k]?.bind Exit.sof?).map (·.tFallNs) := by
    intro k hk
    rw [getElem?_sofs h (by simpa using List.lt_add_of_mem_findIdxs k hk)]
  have hfind := congrArg (List.map fun e => (e.bind Exit.sof?).map (·.tFallNs))
    (map_getElem?_findIdxs isPaired (sofExits c))
  have hpairs := congrArg (List.map (Option.map PruEvent.tFallNs)) (pairs_of_exits c.history)
  rw [List.map_map, List.map_map] at hfind hpairs
  rw [List.map_congr_left hlook, ← h.output, matched_output, List.map_map]
  exact hpairs.symm.trans hfind.symm

theorem take_pairedSofs (hle : n ≤ (pairedSofs c).length) (h : sofExits c <+: sofExits d) :
    (pairedSofs d).take n = (pairedSofs c).take n := by
  obtain ⟨rest, hrest⟩ := pairedSofs_prefix h
  rw [← hrest, List.take_append_of_le_length hle]

end

section

variable (s : IngestLoop)

theorem detector_handleFrames (frames : List EnrichedFrame) :
    (frames.foldl handleFrame s).detector =
      PartialFrameDetector.markMatched^[(matchedFrames frames).length] s.detector := by
  induction frames generalizing s with
  | nil => rfl
  | cons frame frames ih =>
    rw [List.foldl_cons, ih]
    cases hts : frame.pruTsNs.isSome <;>
      simp [handleFrame, matchedFrames, hts]

theorem exits_ingestEvents (events : List (PruEvent × ℚ)) :
    (events.foldl ingestEvent s).detector.exits = s.detector.exits := by
  induction events generalizing s with
  | nil => rfl
  | cons e events ih =>
    rw [List.foldl_cons, ih]
    simp only [ingestEvent, PartialFrameDetector.ingestPru]
    split <;> rfl

theorem follows_ingestEvents {entered : List Pending} (events : List (PruEvent × ℚ))
    (h : s.detector.Follows entered) :
    (events.foldl ingestEvent s).detector.Follows
      (entered ++ (events.filter (·.1.type = .sof)).map fun e => ⟨e.1, e.2⟩) := by
  induction events generalizing s entered with
  | nil => simpa using h
  | cons e events ih =>
    rw [List.foldl_cons]
    by_cases hsof : e.1.type = .sof
    · simpa [hsof] using ih (s.ingestEvent e) (PartialFrameDetector.follows_ingestPru h hsof e.2)
    · have hsame : s.ingestEvent e = { s with correlator := s.correlator.ingestPru e.1 } := by
        simp [ingestEvent, PartialFrameDetector.ingestPru, hsof]
      rw [hsame]
      simpa [hsof] using ih { s with correlator := s.correlator.ingestPru e.1 } h

end

section

variable {maxDeltaNs : Int} {timeoutS : ℚ} {s : IngestLoop}

theorem accounts_of_session {ops : List Op} (h : s.session = Session.run maxDeltaNs ops) :
    Accounts maxDeltaNs (sofs ops) (frames ops) s.emitted s.correlator := by
  have hacc := run_accounts ops maxDeltaNs
  rwa [← h] at hacc

theorem eq_range'_of_prefix {l : List Nat} {a n : Nat} (h : l <+: List.range' a n) :
    l.length ≤ n ∧ l = List.range' a l.length := by
  have hle := h.length_le
  rw [List.length_range'] at hle
  refine ⟨hle, ?_⟩
  have htake := List.prefix_iff_eq_take.mp h
  rwa [List.take_range'_of_length_ge hle] at htake

theorem marks_ingestEvents {prus : List PruEvent} {msgs : List RawCanMessage}
    (hacc : Accounts maxDeltaNs prus msgs s.emitted s.correlator)
    (hmarks : s.detector.marks = matchedSofs s) (events : List (PruEvent × ℚ)) :
    (events.foldl ingestEvent s).detector.marks = matchedSofs (events.foldl ingestEvent s) := by
  have hhist : sofExits s.correlator <+: sofExits (events.foldl ingestEvent s).correlator := by
    have h := history_steps s.session (events.map fun e => .ingestPru e.1)
    rwa [← session_ingestEvents] at h
  rw [PartialFrameDetector.marks, exits_ingestEvents, ← PartialFrameDetector.marks, hmarks,
    matchedSofs, matchedSofs, emitted_ingestEvents]
  exact (take_pairedSofs (by rw [length_pairedSofs hacc]; omega) hhist).symm

theorem marks_drainFrames {prus : List PruEvent} {msgs : List RawCanMessage}
    (hacc : Accounts maxDeltaNs prus msgs s.emitted s.correlator)
    (hmarks : s.detector.marks = matchedSofs s)
    (hold : waitingSofs s <+: List.range' s.detector.exits.length s.detector.pending.length)
    (nowNs : Int) : (s.drainFrames nowNs).detector.marks = matchedSofs (s.drainFrames nowNs) := by
  have hacc' := accounts_drainMatched hacc nowNs
  have hlen := length_pairedSofs hacc'
  have hpaired : pairedSofs (s.correlator.drainMatched nowNs).2 = pairedSofs s.correlator :=
    congrArg (List.findIdxs isPaired) (sofExits_flush nowNs s.correlator)
  obtain ⟨hfits, hrange⟩ := eq_range'_of_prefix hold
  have hcount : (waitingSofs s).length =
      (matchedFrames (s.correlator.drainMatched nowNs).1).length := by
    rw [hpaired] at hlen
    rw [waitingSofs, List.length_drop, hlen, matchedFrames_append, List.length_append]
    simp [matchedFrames, drainMatched]
  have hemitted := emitted_handleFrames { s with correlator := (s.correlator.drainMatched nowNs).2 }
    (s.correlator.drainMatched nowNs).1
  have hall : matchedSofs (s.drainFrames nowNs) = pairedSofs s.correlator := by
    rw [matchedSofs, drainFrames, hemitted.1, hemitted.2, hpaired, List.take_of_length_le]
    rw [← hpaired, hlen]
    simp [drainMatched, matchedFrames]
  rw [hall, drainFrames, detector_handleFrames, PartialFrameDetector.marks_iterate, hmarks]
  · rw [← hcount, ← hrange, matchedSofs, waitingSofs, List.take_append_drop]
  · rwa [← hcount]

theorem marks_step {ops : List Op} (hs : s.session = Session.run maxDeltaNs ops)
    (hmarks : s.detector.marks = matchedSofs s) {a : Act} (hold : OldestPending s a) :
    (s.step a).detector.marks = matchedSofs (s.step a) := by
  cases a with
  | readable batch =>
    have hframe := onCanReadable_frame s batch
    have hhist : sofExits s.correlator <+: sofExits (s.onCanReadable batch).correlator := by
      have h := history_steps s.session (Act.readable batch).ops
      rwa [← session_onCanReadable] at h
    have hacc := accounts_of_session hs
    rw [IngestLoop.step, hframe.1, hmarks, matchedSofs, matchedSofs, hframe.2]
    exact (take_pairedSofs (by rw [length_pairedSofs hacc]; omega) hhist).symm
  | poll p =>
    have hevents := session_ingestEvents s p.events
    rw [hs, Session.run, ← List.foldl_append, ← Session.run] at hevents
    have hmarks₁ := marks_ingestEvents (accounts_of_session hs) hmarks p.events
    have hmarks₂ := marks_drainFrames (accounts_of_session hevents) hmarks₁ hold p.nowNs
    rw [IngestLoop.step, IngestLoop.poll, sweep, PartialFrameDetector.marks_sweepTimeouts]
    exact hmarks₂

theorem marks_run (maxDeltaNs : Int) (timeoutS : ℚ) (acts : List Act)
    (hold : AllSteps IngestLoop.step OldestPending (init maxDeltaNs timeoutS) acts) :
    (run maxDeltaNs timeoutS acts).detector.marks = matchedSofs (run maxDeltaNs timeoutS acts) := by
  induction acts using List.reverseRecOn with
  | nil => rfl
  | append_singleton acts a ih =>
    obtain ⟨hacts, ha⟩ := (allSteps_snoc _ _ _ _ _).mp hold
    rw [run_concat]
    exact marks_step (session_run maxDeltaNs timeoutS acts) (ih hacts) ha

theorem follows_drainFrames {entered : List Pending} (h : s.detector.Follows entered) (nowNs : Int) :
    (s.drainFrames nowNs).detector.Follows entered := by
  rw [drainFrames, detector_handleFrames]
  generalize (matchedFrames (s.correlator.drainMatched nowNs).1).length = n
  induction n with
  | zero => exact h
  | succ n ih =>
    rw [Function.iterate_succ_apply']
    exact PartialFrameDetector.follows_markMatched ih

theorem follows_run (maxDeltaNs : Int) (timeoutS : ℚ) (acts : List Act) :
    (run maxDeltaNs timeoutS acts).detector.Follows (entries acts) := by
  induction acts using List.reverseRecOn with
  | nil => exact PartialFrameDetector.follows_init timeoutS
  | append_singleton acts a ih =>
    rw [run_concat, entries, List.flatMap_append, List.flatMap_singleton]
    cases a with
    | readable batch =>
      rw [IngestLoop.step, (onCanReadable_frame _ batch).1, Act.entries, List.append_nil]
      exact ih
    | poll p =>
      exact PartialFrameDetector.follows_sweepTimeouts
        (follows_drainFrames (follows_ingestEvents _ p.events ih) p.nowNs) p.sweepNow

theorem sofs_ops (acts : List Act) : sofs (acts.flatMap Act.ops) = (entries acts).map (·.event) := by
  induction acts with
  | nil => rfl
  | cons a acts ih =>
    rw [entries, List.flatMap_cons, List.flatMap_cons, sofs_append, ih, List.map_append]
    congr 1
    cases a with
    | readable batch => simp [Act.ops, Act.entries, sofs, events, List.filterMap_map,
        Function.comp_def, Op.event?]
    | poll p => simp [Act.ops, Act.entries, sofs, events, List.filterMap_map, List.filterMap_cons,
        List.filter_map, Function.comp_def, Op.event?]

theorem matchedSofs_times (maxDeltaNs : Int) (timeoutS : ℚ) (acts : List Act) :
    (matchedFrames (run maxDeltaNs timeoutS acts).emitted).map (·.pruTsNs) =
      (matchedSofs (run maxDeltaNs timeoutS acts)).map fun k =>
        (entries acts)[k]?.map (·.event.tFallNs) := by
  have hacc := accounts_of_session (session_run maxDeltaNs timeoutS acts)
  have htimes := congrArg (List.take (matchedFrames (run maxDeltaNs timeoutS acts).emitted).length)
    (pairedSofs_times hacc)
  rw [← List.map_take, ← List.map_take, matchedFrames_append, List.take_left] at htimes
  rw [htimes, matchedSofs, sofs_ops]
  simp [Option.map_map, Function.comp_def]

theorem timeoutS_run (maxDeltaNs : Int) (timeoutS : ℚ) (acts : List Act) :
    (run maxDeltaNs timeoutS acts).detector.timeoutS = timeoutS := by
  induction acts using List.reverseRecOn with
  | nil => rfl
  | append_singleton acts a ih =>
    rw [run_concat]
    refine detector_step _ (fun d => d.timeoutS = timeoutS) ?_ ?_ ?_ a ih
    · intro d event now h
      rw [PartialFrameDetector.ingestPru]
      split <;> exact h
    · intro d h
      rw [PartialFrameDetector.markMatched]
      split <;> exact h
    · intro d now h
      rwa [PartialFrameDetector.timeoutS_sweepTimeouts]

theorem exits_steps (s : IngestLoop) (acts : List Act) :
    s.detector.exits.length ≤ (acts.foldl IngestLoop.step s).detector.exits.length := by
  induction acts generalizing s with
  | nil => exact le_rfl
  | cons a acts ih =>
    refine le_trans ?_ (ih (s.step a))
    refine detector_step s (fun d => s.detector.exits.length ≤ d.exits.length) ?_ ?_ ?_ a le_rfl
    · intro d event now h
      rw [PartialFrameDetector.ingestPru]
      split <;> exact h
    · intro d h
      rw [PartialFrameDetector.markMatched]
      split
      · simpa using Nat.le_succ_of_le h
      · exact h
    · intro d now h
      exact h.trans (PartialFrameDetector.exits_sweepTimeouts d now)

theorem entries_sublist (acts : List Act) :
    ((entries acts).map (·.wallTime)).Sublist (readings acts) := by
  induction acts with
  | nil => exact List.Sublist.slnil
  | cons a acts ih =>
    rw [entries, readings, List.flatMap_cons, List.flatMap_cons, List.map_append]
    refine List.Sublist.append ?_ ih
    cases a with
    | readable batch => exact List.Sublist.slnil
    | poll p =>
      rw [Act.entries, List.map_map]
      exact List.sublist_append_left _ _

theorem overdue_exits (maxDeltaNs : Int) {acts : List Act}
    (hclock : (readings acts).Pairwise (· ≤ ·)) {k : Nat}
    (h : Overdue timeoutS acts k) : k < (run maxDeltaNs timeoutS acts).detector.exits.length := by
  obtain ⟨pre, p, post, entry, rfl, hget, hover⟩ := h
  have hpre : run maxDeltaNs timeoutS (pre ++ .poll p :: post) =
      post.foldl IngestLoop.step (run maxDeltaNs timeoutS (pre ++ [.poll p])) := by
    simp [run, List.foldl_append]
  have hsorted : ((entries (pre ++ [.poll p])).map (·.wallTime)).Pairwise (· ≤ ·) := by
    refine (hclock.sublist (entries_sublist _)).sublist (List.Sublist.map _ ?_)
    simp [entries, List.flatMap_append]
  rw [hpre]
  refine lt_of_lt_of_le ?_ (exits_steps _ post)
  rw [run_concat]
  have hf := follows_drainFrames (follows_ingestEvents _ p.events
    (follows_run maxDeltaNs timeoutS pre)) p.nowNs
  have hentries : entries pre ++ (p.events.filter (·.1.type = .sof)).map (fun e => ⟨e.1, e.2⟩) =
      entries (pre ++ [.poll p]) := by
    simp [entries, Act.entries, List.flatMap_append]
  rw [hentries] at hf
  apply PartialFrameDetector.overdue_left hf hsorted p.sweepNow hget
  have ht := timeoutS_run maxDeltaNs timeoutS (pre ++ [.poll p])
  rw [run_concat, IngestLoop.step, IngestLoop.poll, sweep,
    PartialFrameDetector.timeoutS_sweepTimeouts] at ht
  rw [ht]
  exact hover

/-- Aborts and matches agree in every run whose polls each emit the frames of the oldest
pending SOFs. -/
theorem aborts_agree (maxDeltaNs : Int) (timeoutS : ℚ) (acts : List Act)
    (hclock : (readings acts).Pairwise (· ≤ ·))
    (hold : AllSteps IngestLoop.step OldestPending (init maxDeltaNs timeoutS) acts) :
    Agrees timeoutS acts (run maxDeltaNs timeoutS acts) := by
  have hmarks := marks_run maxDeltaNs timeoutS acts hold
  constructor
  · intro k hk hreport
    rw [← hmarks] at hk
    obtain ⟨hlt, hmarked⟩ := List.mem_findIdxs_iff_exists_getElem_pos.mp hk
    obtain ⟨_, haborted⟩ := List.mem_findIdxs_iff_exists_getElem_pos.mp hreport
    simp only [decide_eq_true_eq] at hmarked haborted
    rw [hmarked] at haborted
    cases haborted
  · rintro k ⟨pru, hdiscarded⟩ hover
    have hlt := overdue_exits maxDeltaNs hclock hover
    refine List.count_eq_one_of_mem List.nodup_findIdxs ?_
    rw [PartialFrameDetector.reports, List.mem_findIdxs_iff_pos_getElem hlt]
    cases hfate : (run maxDeltaNs timeoutS acts).detector.exits[k] with
    | aborted => rfl
    | marked =>
      have hmem : k ∈ (run maxDeltaNs timeoutS acts).detector.marks := by
        rw [PartialFrameDetector.marks, List.mem_findIdxs_iff_pos_getElem hlt, hfate]
        rfl
      rw [hmarks] at hmem
      obtain ⟨hk, hpaired⟩ := List.mem_findIdxs_iff_exists_getElem_pos.mp (List.mem_of_mem_take hmem)
      obtain ⟨_, hget⟩ := List.getElem?_eq_some_iff.mp hdiscarded
      rw [hget] at hpaired
      cases hpaired

end
def sofAt (tFallNs : Int) : PruEvent := ⟨.sof, 0, 0, tFallNs, 0⟩

def frameAtOneSecond : RawCanMessage := ⟨1, 0x123, 0, [], false, false⟩

def cleanActs : List Act :=
  [.readable [frameAtOneSecond], .poll ⟨[(sofAt 999999900, 1)], 1010000000, 1⟩,
    .poll ⟨[(sofAt 1500000000, 3 / 2)], 1510000000, 3 / 2⟩, .poll ⟨[], 1530000000, 49 / 32⟩,
    .readable [{ frameAtOneSecond with timestamp := 2 }],
    .poll ⟨[(sofAt 1999999900, 2)], 2010000000, 2⟩]

theorem clean_run_agrees :
    let s := run defaultMaxDeltaNs PartialFrameDetector.abortTimeoutS cleanActs
    s.detector.exits = [.marked, .aborted, .marked] ∧
      Agrees PartialFrameDetector.abortTimeoutS cleanActs s :=
  ⟨by decide +kernel, aborts_agree _ _ cleanActs (by decide +kernel) (by decide +kernel)⟩

/-- The same with an aborted SOF 10 ms before: the frame marks that one. -/
def abortedFirstActs : List Act :=
  [.readable [frameAtOneSecond],
    .poll ⟨[(sofAt 989999900, 1), (sofAt 999999900, 1)], 1010000000, 1⟩,
    .poll ⟨[], 1030000000, 65 / 64⟩]

theorem matched_sof_reported :
    (readings abortedFirstActs).Pairwise (· ≤ ·) ∧
      ¬ Agrees PartialFrameDetector.abortTimeoutS abortedFirstActs
        (run defaultMaxDeltaNs PartialFrameDetector.abortTimeoutS abortedFirstActs) := by
  refine ⟨by decide +kernel, fun h => h.1 1 ?_ ?_⟩ <;> decide +kernel

end CanSniffer.AbortAgreement
