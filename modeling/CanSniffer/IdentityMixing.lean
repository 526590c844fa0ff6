import CanSniffer.LatencyExchange
import CanSniffer.TimingStats

namespace CanSniffer.IdentityMixing

open Library Library.PyJson Models LatencyMonitor TimingStatsCollector

/-- The third stream is the first with the frames of the second inserted. -/
inductive Inserted : List EnrichedFrame → List EnrichedFrame → List EnrichedFrame → Prop
  | nil : Inserted [] [] []
  | keep (f : EnrichedFrame) {xs new ys : List EnrichedFrame} (h : Inserted xs new ys) :
    Inserted (f :: xs) new (f :: ys)
  | insert (f : EnrichedFrame) {xs new ys : List EnrichedFrame} (h : Inserted xs new ys) :
    Inserted xs (f :: new) (f :: ys)

variable (ops : FloatOps)

theorem get?_ingest (c : TimingStatsCollector) (f : EnrichedFrame) :
    (c.ingest ops f).stats.get? = Function.update c.stats.get? f.arbId
      (some (((c.stats.get? f.arbId).getD {}).record ops f.kernelTs)) :=
  PyDict.get?_set ..

theorem timing_inserted {xs new ys : List EnrichedFrame} (h : Inserted xs new ys) {id : Nat}
    (hid : ∀ f ∈ new, f.arbId ≠ id) {c d : TimingStatsCollector}
    (hsame : c.stats.get? id = d.stats.get? id) :
    (c.run ops xs).stats.get? id = (d.run ops ys).stats.get? id := by
  induction h generalizing c d with
  | nil => exact hsame
  | keep f _ ih =>
    apply ih hid
    rw [get?_ingest, get?_ingest]
    by_cases hf : id = f.arbId
    · subst hf
      rw [Function.update_self, Function.update_self, hsame]
    · rw [Function.update_of_ne hf, Function.update_of_ne hf, hsame]
  | insert f _ ih =>
    have hf := hid f List.mem_cons_self
    apply ih (fun g hg => hid g (List.mem_cons_of_mem f hg))
    rw [get?_ingest, Function.update_of_ne hf.symm, hsame]

theorem count_run (frames : List EnrichedFrame) (id : Nat) :
    (((TimingStatsCollector.run ops {} frames).stats.get? id).map IdStats.count).getD 0 =
      frames.countP (·.arbId = id) := by
  induction frames using List.reverseRecOn with
  | nil => rfl
  | append_singleton frames f ih =>
    rw [TimingStatsCollector.run, List.foldl_append, List.foldl_cons, List.foldl_nil,
      ← TimingStatsCollector.run, get?_ingest, List.countP_append, List.countP_singleton, ← ih]
    by_cases hf : f.arbId = id
    · subst hf
      rw [Function.update_self]
      cases (TimingStatsCollector.run ops {} frames).stats.get? f.arbId <;> simp [IdStats.record]
    · rw [Function.update_of_ne (Ne.symm hf)]
      simp [hf]

theorem countP_inserted {xs new ys : List EnrichedFrame} (h : Inserted xs new ys)
    (p : EnrichedFrame → Bool) : ys.countP p = xs.countP p + new.countP p := by
  induction h with
  | nil => rfl
  | keep f _ ih =>
    rw [List.countP_cons, List.countP_cons, ih]
    omega
  | insert f _ ih =>
    rw [List.countP_cons, List.countP_cons, ih]
    omega

theorem count_toDict (s : IdStats) : (s.toDict ops).count = s.count := by
  rw [IdStats.toDict]
  dsimp only
  split_ifs <;> rfl

theorem timing_entry_iff {xs new ys : List EnrichedFrame} (h : Inserted xs new ys) (id : Nat) :
    ((TimingStatsCollector.run ops {} xs).snapshot ops).get? (idKey id) =
        ((TimingStatsCollector.run ops {} ys).snapshot ops).get? (idKey id) ↔
      ∀ f ∈ new, f.arbId ≠ id := by
  rw [get?_snapshot, get?_snapshot]
  constructor
  · intro heq f hf hid
    have hcount := congrArg (fun entry => (Option.map IdTiming.count entry).getD 0) heq
    simp only [Option.map_map, Function.comp_def, count_toDict] at hcount
    have hsame : xs.countP (·.arbId = id) = ys.countP (·.arbId = id) :=
      (count_run ops xs id).symm.trans (hcount.trans (count_run ops ys id))
    have hsum := countP_inserted h (·.arbId = id)
    have hpos : 0 < new.countP (·.arbId = id) :=
      List.countP_pos_iff.mpr ⟨f, hf, by simpa using hid⟩
    omega
  · intro hid
    rw [timing_inserted ops h hid rfl]

variable {format : String → Nat → Option String} {pairs : List Pair} {key : DictKey}

/-- A frame of this id is taken as a response under the key. -/
def Responds (format : String → Nat → Option String) (pairs : List Pair) (key : DictKey)
    (arbId : Nat) : Prop :=
  ∃ p ∈ reached format pairs arbId, p.reaction format arbId = .response key

/-- A response comes within 1 s of a request sent at this time. -/
def Awaited (format : String → Nat → Option String) (pairs : List Pair) (key : DictKey) (sent : ℚ)
    (later : List EnrichedFrame) : Prop :=
  ∃ g ∈ later, Responds format pairs key g.arbId ∧ Binary64.sub g.kernelTs 1 ≤ sent

/-- Every request under the key is answered within 1 s. -/
def Answered (format : String → Nat → Option String) (pairs : List Pair) (key : DictKey) :
    List EnrichedFrame → Prop
  | [] => True
  | f :: later =>
    (Requested format pairs key f.arbId → Awaited format pairs key f.kernelTs later) ∧
      Answered format pairs key later

instance (pairs : List Pair) (key : DictKey) (arbId : Nat) :
    Decidable (Responds format pairs key arbId) :=
  inferInstanceAs (Decidable (∃ p ∈ reached format pairs arbId, _))

instance (pairs : List Pair) (key : DictKey) (sent : ℚ) (later : List EnrichedFrame) :
    Decidable (Awaited format pairs key sent later) :=
  inferInstanceAs (Decidable (∃ g ∈ later, _ ∧ _))

instance (pairs : List Pair) (key : DictKey) :
    (frames : List EnrichedFrame) → Decidable (Answered format pairs key frames)
  | [] => instDecidableTrue
  | f :: later =>
    have := instDecidableAnswered pairs key later
    inferInstanceAs (Decidable ((_ → _) ∧ Answered format pairs key later))

/-- Two monitors with the same pairs that hold the same under a key. -/
structure SameAt (pairs : List Pair) (key : DictKey) (m n : LatencyMonitor) : Prop where
  left : m.pairs = pairs
  right : n.pairs = pairs
  pending : m.pending key = n.pending key
  meas : m.meas key = n.meas key

theorem sameAt_applied {m n : LatencyMonitor} (h : SameAt pairs key m n) (ts : ℚ) (r : Reaction) :
    SameAt pairs key (m.applied ts r) (n.applied ts r) where
  left := (applied_pairs ts r).trans h.left
  right := (applied_pairs ts r).trans h.right
  pending := by
    cases r with
    | request k =>
      rw [pending_applied_request, pending_applied_request, Function.update_apply,
        Function.update_apply, h.pending]
    | response k =>
      rw [pending_applied_response, pending_applied_response, Function.update_apply,
        Function.update_apply, h.pending]
    | _ => exact h.pending
  meas := by
    by_cases hr : r = .response key
    · subst hr
      rw [meas_applied_response, meas_applied_response, h.pending]
      cases n.pending key with
      | none => exact h.meas
      | some sent => simp only [Function.update_self, h.meas]
    · rw [meas_applied_of_ne hr, meas_applied_of_ne hr, h.meas]

theorem sameAt_reactAll {m n : LatencyMonitor} (h : SameAt pairs key m n) (f : EnrichedFrame) :
    SameAt pairs key (m.reactAll format f).1 (n.reactAll format f).1 := by
  rw [reactAll_eq, reactAll_eq, h.left, h.right]
  generalize reached format pairs f.arbId = ps
  induction ps generalizing m n with
  | nil => exact h
  | cons p ps ih => exact ih (sameAt_applied h _ _)

theorem sameAt_ingest {m n : LatencyMonitor} (h : SameAt pairs key m n) (f : EnrichedFrame) :
    SameAt pairs key (m.ingest format f).1 (n.ingest format f).1 := by
  have hall : SameAt pairs key (m.reactAll format f).1 (n.reactAll format f).1 :=
    sameAt_reactAll h f
  rw [ingest_fst, ingest_fst, h.left, h.right]
  split_ifs
  · exact hall
  · exact ⟨hall.left, hall.right, congrArg (Option.filter _) hall.pending, hall.meas⟩

theorem sameAt_idle {ps : List Pair} {m n : LatencyMonitor} (h : SameAt pairs key m n) (ts : ℚ)
    (arbId : Nat)
    (hidle : ∀ p ∈ ps, p.reaction format arbId ≠ .request key ∧
      p.reaction format arbId ≠ .response key) :
    SameAt pairs key m (ps.foldl (fun n p => n.applied ts (p.reaction format arbId)) n) := by
  induction ps generalizing n with
  | nil => exact h
  | cons p ps ih =>
    obtain ⟨hreq, hresp⟩ := hidle p List.mem_cons_self
    refine ih ⟨h.left, (applied_pairs _ _).trans h.right, ?_, ?_⟩
      fun q hq => hidle q (List.mem_cons_of_mem p hq)
    · rw [h.pending, pending_applied_of_ne hreq hresp]
    · rw [h.meas, meas_applied_of_ne hresp]

theorem sameAt_insert {m n : LatencyMonitor} (h : SameAt pairs key m n) {f : EnrichedFrame}
    (hreq : ¬ Requested format pairs key f.arbId) (hresp : ¬ Responds format pairs key f.arbId)
    (hkept : ∀ v, n.pending key = some v → Binary64.sub f.kernelTs 1 ≤ v) :
    SameAt pairs key m (n.ingest format f).1 := by
  have hall : SameAt pairs key m (n.reactAll format f).1 := by
    rw [reactAll_eq, h.right]
    exact sameAt_idle h _ _ fun p hp => ⟨fun hr => hreq ⟨p, hp, hr⟩, fun hr => hresp ⟨p, hp, hr⟩⟩
  rw [ingest_fst]
  split_ifs
  · exact hall
  · refine ⟨hall.left, hall.right, ?_, hall.meas⟩
    cases hv : (n.reactAll format f).1.pending key with
    | none => exact hall.pending.trans (by simp [purge, hv])
    | some v =>
      have hle := hkept v (by rw [← h.pending, hall.pending, hv])
      exact hall.pending.trans (by simp [purge, hv, Option.filter_some, hle])

theorem pending_of_fold {ps : List Pair} {n : LatencyMonitor} {ts v : ℚ} {arbId : Nat}
    (h : (ps.foldl (fun n p => n.applied ts (p.reaction format arbId)) n).pending key = some v) :
    (n.pending key = some v ∧ ∀ p ∈ ps, p.reaction format arbId ≠ .response key) ∨
      (v = ts ∧ ∃ p ∈ ps, p.reaction format arbId = .request key) := by
  induction ps generalizing n with
  | nil => exact .inl ⟨h, by simp⟩
  | cons p ps ih =>
    obtain ⟨hpend, hno⟩ | ⟨rfl, q, hq, hreq⟩ := ih h
    · dsimp only at hpend
      by_cases hreq : p.reaction format arbId = .request key
      · rw [hreq, pending_applied_request, Function.update_self] at hpend
        exact .inr ⟨(Option.some.inj hpend).symm, p, List.mem_cons_self, hreq⟩
      · by_cases hresp : p.reaction format arbId = .response key
        · rw [hresp, pending_applied_response, Function.update_self] at hpend
          cases hpend
        · rw [pending_applied_of_ne hreq hresp] at hpend
          exact .inl ⟨hpend, List.forall_mem_cons.mpr ⟨hresp, hno⟩⟩
    · exact .inr ⟨rfl, q, List.mem_cons_of_mem p hq, hreq⟩

theorem pending_of_ingest {n : LatencyMonitor} {f : EnrichedFrame} {v : ℚ} (hn : n.pairs = pairs)
    (h : (n.ingest format f).1.pending key = some v) :
    (n.pending key = some v ∧ ¬ Responds format pairs key f.arbId) ∨
      (v = f.kernelTs ∧ Requested format pairs key f.arbId) := by
  have hall : (n.reactAll format f).1.pending key = some v := by
    rw [ingest_fst] at h
    split_ifs at h
    · exact h
    · exact (Option.filter_eq_some_iff.mp h).1
  rw [reactAll_eq, hn] at hall
  obtain ⟨hpend, hno⟩ | hreq := pending_of_fold hall
  · exact .inl ⟨hpend, fun ⟨p, hp, hresp⟩ => hno p hp hresp⟩
  · exact .inr hreq

theorem awaited_ingest {n : LatencyMonitor} (hn : n.pairs = pairs) {f : EnrichedFrame}
    {later : List EnrichedFrame} (hans : Answered format pairs key (f :: later))
    (h : ∀ v, n.pending key = some v → Awaited format pairs key v (f :: later)) :
    ∀ v, (n.ingest format f).1.pending key = some v → Awaited format pairs key v later := by
  intro v hv
  obtain ⟨hpend, hresp⟩ | ⟨rfl, hreq⟩ := pending_of_ingest hn hv
  · obtain ⟨g, hg, hgr, hle⟩ := h v hpend
    obtain rfl | hg := List.mem_cons.mp hg
    · exact absurd hgr hresp
    · exact ⟨g, hg, hgr, hle⟩
  · exact hans.1 hreq

theorem latency_inserted {xs new ys : List EnrichedFrame} (h : Inserted xs new ys)
    (hnew : ∀ f ∈ new, ¬ Requested format pairs key f.arbId ∧ ¬ Responds format pairs key f.arbId)
    (hsorted : ys.Pairwise fun f g => f.kernelTs ≤ g.kernelTs)
    (hans : Answered format pairs key ys) {m n : LatencyMonitor} (hsame : SameAt pairs key m n)
    (hpend : ∀ v, n.pending key = some v → Awaited format pairs key v ys) :
    SameAt pairs key (m.run format xs) (n.run format ys) := by
  induction h generalizing m n with
  | nil => exact hsame
  | keep f _ ih =>
    exact ih hnew (List.pairwise_cons.mp hsorted).2 hans.2 (sameAt_ingest hsame f)
      (awaited_ingest hsame.right hans hpend)
  | insert f _ ih =>
    obtain ⟨hfirst, hrest⟩ := List.pairwise_cons.mp hsorted
    obtain ⟨hreq, hresp⟩ := hnew f List.mem_cons_self
    refine ih (fun g hg => hnew g (List.mem_cons_of_mem f hg)) hrest hans.2
      (sameAt_insert hsame hreq hresp ?_) (awaited_ingest hsame.right hans hpend)
    intro v hv
    obtain ⟨g, hg, hgr, hle⟩ := hpend v hv
    obtain rfl | hg := List.mem_cons.mp hg
    · exact absurd hgr hresp
    -- the frame comes before the answer, so its purge leaves the request
    · have hmono : Binary64.sub f.kernelTs 1 ≤ Binary64.sub g.kernelTs 1 :=
        Binary64.round_mono (sub_le_sub_right (hfirst g hg) 1)
      exact hmono.trans hle

/-- The entry of an identifier stays the same exactly if no inserted frame has it, and the entry of
a label stays the same if no inserted frame is numerically a request or a response under it. -/
theorem inserted_frames_harmless (ops : FloatOps) (format : String → Nat → Option String)
    (explicit : List ExplicitPair) (patterns : List PatternPair)
    {xs new ys : List EnrichedFrame} (h : Inserted xs new ys)
    (hsorted : ys.Pairwise fun f g => f.kernelTs ≤ g.kernelTs) :
    let m : LatencyMonitor := { explicit, patterns }
    (∀ id, ((TimingStatsCollector.run ops {} xs).snapshot ops).get? (idKey id) =
        ((TimingStatsCollector.run ops {} ys).snapshot ops).get? (idKey id) ↔
      ∀ f ∈ new, f.arbId ≠ id) ∧
    ∀ key, Answered format m.pairs key ys →
      (∀ f ∈ new, ¬ Requested format m.pairs key f.arbId ∧
        ¬ Responds format m.pairs key f.arbId) →
      (m.run format xs).snapshot ops key = (m.run format ys).snapshot ops key := by
  intro m
  refine ⟨timing_entry_iff ops h, ?_⟩
  intro key hans hnew
  have hstart : SameAt m.pairs key m m := ⟨rfl, rfl, rfl, rfl⟩
  have hsame := latency_inserted h hnew hsorted hans hstart fun v hv => by cases hv
  rw [LatencyMonitor.snapshot, LatencyMonitor.snapshot, hsame.meas]

def frame (arbId : Nat) (isExtended : Bool) (kernelTs : ℚ) : EnrichedFrame :=
  ⟨arbId, 0, [], isExtended, none, kernelTs, 0⟩

theorem inserted_frames_harmless_exchange :
    let m : LatencyMonitor := { explicit := [⟨0x601, 0x581, .str "SDO"⟩], patterns := [] }
    let xs := [frame 0x601 false 1, frame 0x581 false 2]
    let ys := [frame 0x601 false 1, frame 0x18DA00F1 true 2, frame 0x581 false 2]
    (∀ id, ((TimingStatsCollector.run Binary64.ops {} xs).snapshot Binary64.ops).get? (idKey id) =
        ((TimingStatsCollector.run Binary64.ops {} ys).snapshot Binary64.ops).get? (idKey id) ↔
      ∀ f ∈ [frame 0x18DA00F1 true 2], f.arbId ≠ id) ∧
    ((m.run LatencyPairs.formatDefault xs).meas (.str "SDO")).items = [1000000] ∧
      (m.run LatencyPairs.formatDefault xs).snapshot Binary64.ops (.str "SDO") =
        (m.run LatencyPairs.formatDefault ys).snapshot Binary64.ops (.str "SDO") := by
  have h := inserted_frames_harmless Binary64.ops LatencyPairs.formatDefault
    [⟨0x601, 0x581, .str "SDO"⟩] [] (.keep (frame 0x601 false 1) (.insert (frame 0x18DA00F1 true 2)
      (.keep (frame 0x581 false 2) .nil))) (by simp [frame])
  exact ⟨h.1, by decide +kernel, h.2 (.str "SDO") (by decide +kernel) (by decide +kernel)⟩

/-- A frame of the standard identifier 0x100 and one of the extended identifier 0x100 are counted
together. -/
theorem extended_counts_as_standard :
    ¬ ∀ xs new ys, Inserted xs new ys → (∀ f ∈ new, f.isExtended) →
      (ys.Pairwise fun f g => f.kernelTs ≤ g.kernelTs) →
      ((TimingStatsCollector.run Binary64.ops {} xs).snapshot Binary64.ops).get? (idKey 0x100) =
        ((TimingStatsCollector.run Binary64.ops {} ys).snapshot Binary64.ops).get?
          (idKey 0x100) := by
  intro h
  have heq := h [frame 0x100 false 1] [frame 0x100 true 2] [frame 0x100 false 1, frame 0x100 true 2]
    (.keep _ (.insert _ .nil)) (by simp [frame]) (by simp [frame])
  rw [get?_snapshot, get?_snapshot] at heq
  exact absurd heq (by decide +kernel)

end CanSniffer.IdentityMixing
