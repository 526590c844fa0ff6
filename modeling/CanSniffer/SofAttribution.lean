import CanSniffer.Pipeline
import CanSniffer.Confluence

namespace CanSniffer.SofAttribution

open Library Library.Trace Library.RingSlots Library.WhileLoop Library.WindowMatch Models Firmware
  PruShm Correlator CorrelatorRuns Confluence Pipeline

/-- The Unix time of an event, for the constant `k` between the two clocks. -/
def trueNs (k : Int) (e : PruEventT) : Int := e.tFallNs.toNat + k

def captures (acts : List Act) : List UInt64 :=
  acts.filterMap fun
    | .capture tFallNs => some tFallNs
    | .frame _ | .poll _ _ => none

def instants (k : Int) : Act → List Int
  | .capture tFallNs => [tFallNs.toNat + k]
  | .frame _ => []
  | .poll drainNs flushNs => [drainNs, flushNs]

/-- Ideal clocks, captures a blind period apart, frames in the order of their timestamps,
and the first frame after each capture at most 5 ms after it. -/
structure Scenario (k : Int) (acts : List Act) : Prop where
  clock : (acts.flatMap (instants k)).Pairwise (· ≤ ·)
  blind : (captures acts).Pairwise fun t u => t.toNat + blindCounts.toNat ≤ u.toNat
  sorted : Sorted (received acts)
  started : ∀ t ∈ captures acts,
    ∀ m ∈ (received acts).find? ((t.toNat : Int) + k ≤ ·.timestampNs),
      m.timestampNs ≤ (t.toNat : Int) + k + defaultMaxDeltaNs

-- The instance for the list is named, since `UInt64` is a finite type as well.
instance (k : Int) (acts : List Act) : Decidable (Scenario k acts) :=
  haveI : Decidable (∀ t ∈ captures acts,
      ∀ m ∈ (received acts).find? ((t.toNat : Int) + k ≤ ·.timestampNs),
        m.timestampNs ≤ (t.toNat : Int) + k + defaultMaxDeltaNs) := List.decidableBAll _ _
  decidable_of_iff
    ((acts.flatMap (instants k)).Pairwise (· ≤ ·) ∧
      (captures acts).Pairwise (fun t u => t.toNat + blindCounts.toNat ≤ u.toNat) ∧
      Sorted (received acts) ∧
      ∀ t ∈ captures acts,
        ∀ m ∈ (received acts).find? ((t.toNat : Int) + k ≤ ·.timestampNs),
          m.timestampNs ≤ (t.toNat : Int) + k + defaultMaxDeltaNs)
    ⟨fun h => ⟨h.1, h.2.1, h.2.2.1, h.2.2.2⟩,
      fun h => ⟨h.clock, h.blind, h.sorted, h.started⟩⟩

/-- No poll finds the ring overrun. -/
def WithinDepth (s : Pipeline) : Act → Prop
  | .capture _ | .frame _ => True
  | .poll _ _ => s.pru.shm.writeIdx.toNat ≤ s.reader.readIdx + 256

/-- A poll comes no later after the newest capture than the first frame after each unread
capture comes after that. -/
def Prompt (k : Int) (msgs : List RawCanMessage) (s : Pipeline) : Act → Prop
  | .capture _ | .frame _ => True
  | .poll drainNs _ =>
    ∀ i ∈ List.range' s.reader.readIdx (s.pru.shm.writeIdx.toNat - s.reader.readIdx),
      0 < latestPruNs s.pru.shm ∧
      ∀ m ∈ msgs.find? (trueNs k (s.pru.shm.ring (slot 256 i)) ≤ ·.timestampNs),
        drainNs - (latestPruNs s.pru.shm + k) ≤
          m.timestampNs - trueNs k (s.pru.shm.ring (slot 256 i))

/-- No queue of the correlator is full when a step appends to it. -/
def HasRoom (s : Pipeline) (a : Act) : Prop := AllSteps Session.step Fits s.session (s.ops a)

/-- The frames that have left the queue. -/
def handed (s : Session) : List EnrichedFrame := s.emitted ++ s.correlator.matched

/-- The first frames after all captures have left the queue. -/
def Settled (k : Int) (acts : List Act) (s : Session) : Prop :=
  ∀ t ∈ captures acts, ∀ j ∈ (received acts).findIdx? ((t.toNat : Int) + k ≤ ·.timestampNs),
    j < (handed s).length

/-- A queue overflows only when the first frames after all captures have left it. -/
def SparesFirst (k : Int) (acts : List Act) (s : Pipeline) (a : Act) : Prop :=
  AllSteps Session.step (fun u op => Fits u op ∨ Settled k acts u) s.session (s.ops a)

instance (s : Pipeline) : (a : Act) → Decidable (WithinDepth s a)
  | .capture _ | .frame _ => instDecidableTrue
  | .poll _ _ => Nat.decLe _ _

instance (k : Int) (msgs : List RawCanMessage) (s : Pipeline) :
    (a : Act) → Decidable (Prompt k msgs s a)
  | .capture _ | .frame _ => instDecidableTrue
  | .poll _ _ => by
    unfold Prompt
    infer_instance

instance (s : Pipeline) (a : Act) : Decidable (HasRoom s a) :=
  inferInstanceAs (Decidable (AllSteps _ _ _ _))

instance (k : Int) (acts : List Act) (s : Session) : Decidable (Settled k acts s) :=
  List.decidableBAll _ _

instance (k : Int) (acts : List Act) (s : Pipeline) (a : Act) : Decidable (SparesFirst k acts s a) :=
  inferInstanceAs (Decidable (AllSteps _ _ _ _))

/-- What a step of the run `acts` must find. -/
structure Guarded (k : Int) (acts : List Act) (s : Pipeline) (a : Act) : Prop where
  depth : WithinDepth s a
  prompt : Prompt k (received acts) s a
  spares : SparesFirst k acts s a

instance (k : Int) (acts : List Act) (s : Pipeline) (a : Act) : Decidable (Guarded k acts s a) :=
  decidable_of_iff (WithinDepth s a ∧ Prompt k (received acts) s a ∧ SparesFirst k acts s a)
    ⟨fun h => ⟨h.1, h.2.1, h.2.2⟩, fun h => ⟨h.depth, h.prompt, h.spares⟩⟩

/-- The first frame after each capture was emitted with the time of the event that was
drained for that capture. -/
def Attributed (k : Int) (s : Pipeline) (acts : List Act) : Prop :=
  ∀ (i : Nat) (w : PruEventT) (j : Nat) (m : RawCanMessage), (writes s.pru.seq acts)[i]? = some w →
    (received acts).findIdx? (trueNs k w ≤ ·.timestampNs) = some j → (received acts)[j]? = some m →
    ∃ off e, decodeEvent w off = some e ∧ (events (s.opsFrom acts))[i]? = some e ∧
      (s.run acts).session.emitted[j]? = some (enrich m (some e.tFallNs))

/-- A drained event beside the written one it comes from. -/
structure Tagged (k : Int) (msgs : List RawCanMessage) (y : PruEvent × PruEventT) : Prop where
  decoded : ∃ off, decodeEvent y.2 off = some y.1
  sof : y.1.type = .sof
  later : trueNs k y.2 ≤ y.1.tFallNs
  first : ∀ m ∈ msgs.find? (trueNs k y.2 ≤ ·.timestampNs), y.1.tFallNs ≤ m.timestampNs

section

variable {k : Int} {msgs : List RawCanMessage} {s : Pipeline} {acts all : List Act}

theorem writes_captures (seq : UInt16) (acts : List Act) :
    (writes seq acts).map (·.tFallNs) = captures acts := by
  induction acts generalizing seq with
  | nil => rfl
  | cons a acts ih =>
    cases a with
    | capture tFallNs => exact congrArg (tFallNs :: ·) (ih (seq + 1))
    | frame msg => exact ih seq
    | poll drainNs flushNs => exact ih seq

theorem mem_instants {seq : UInt16} {e : PruEventT} (h : e ∈ writes seq acts) :
    trueNs k e ∈ acts.flatMap (instants k) := by
  have hmem : e.tFallNs ∈ captures acts := by
    rw [← writes_captures seq]
    exact List.mem_map_of_mem h
  obtain ⟨a, ha, hcap⟩ := List.mem_filterMap.mp hmem
  refine List.mem_flatMap.mpr ⟨a, ha, ?_⟩
  cases a with
  | capture tFallNs =>
    cases hcap
    exact List.mem_singleton_self _
  | _ => cases hcap

theorem inTime_ingestPrus {maxDeltaNs : Int} (es : List PruEvent) {ops : List Op}
    (h : InTime maxDeltaNs msgs ops) : InTime maxDeltaNs msgs (es.map .ingestPru ++ ops) := by
  induction es with
  | nil => exact h
  | cons e es ih => exact ih

theorem spares_opsFrom (h : AllSteps Pipeline.step (Guarded k all) s acts) :
    AllSteps Session.step (fun u op => Fits u op ∨ Settled k all u) s.session (s.opsFrom acts) := by
  induction acts generalizing s with
  | nil => trivial
  | cons a acts ih =>
    rw [opsFrom, allSteps_append]
    exact ⟨h.1.spares, ih h.2⟩

/-- The events of a prompt poll are moved to a time between their capture and the first
frame after it. -/
theorem tagged_poll {unread : List PruEventT} (hq : Queued unread s) {drainNs flushNs : Int}
    (hclock : ∀ e ∈ unread, trueNs k e ≤ drainNs) (hguard : Guarded k all s (.poll drainNs flushNs)) :
    ∃ tags : List (PruEvent × PruEventT), (s.drainAt drainNs).yielded = tags.map Prod.fst ∧
      unread = tags.map Prod.snd ∧ ∀ y ∈ tags, Tagged k (received all) y := by
  have hidx := hq.index
  have hdepth : s.pru.shm.writeIdx.toNat ≤ s.reader.readIdx + 256 := hguard.depth
  obtain ⟨hyield, -⟩ := queued_drain hq (by omega) drainNs flushNs
  set off := (s.reader.prepare s.pru.shm drainNs).epochOffsetNs with hoff
  refine ⟨unread.map fun e => (sofEvent e off, e), ?_, ?_, ?_⟩
  · rw [hyield, List.map_map]
    rfl
  · rw [List.map_map]
    exact (List.map_id unread).symm
  · intro y hy
    obtain ⟨e, he, rfl⟩ := List.mem_map.mp hy
    obtain ⟨n, hn, hget⟩ := List.getElem_of_mem he
    have hprompt := hguard.prompt (s.reader.readIdx + n) (by rw [List.mem_range'_1]; omega)
    rw [hq.holds n hn (by omega), hget] at hprompt
    obtain ⟨hlatest, hfirst⟩ := hprompt
    rw [prepare_offset (by omega) hlatest] at hoff
    obtain ⟨last, hlast⟩ : ∃ last, unread.getLast? = some last :=
      Option.isSome_iff_exists.mp (by simp [List.ne_nil_of_mem he])
    have hlate := hclock last (List.mem_of_getLast? hlast)
    rw [latest_eq hq hlast] at hoff hfirst
    refine ⟨⟨off, decodeEvent_sof (hq.sofs e he) off⟩, rfl, ?_, fun m hm => ?_⟩
    · simp only [sofEvent, trueNs, hoff] at hlate ⊢
      omega
    · have hm' := hfirst m hm
      simp only [sofEvent, trueNs, hoff] at hm' ⊢
      omega

/-- What the polls of a run have drained, and what is left in the ring. -/
structure Drained (k : Int) (msgs : List RawCanMessage) (unread : List PruEventT) (s : Pipeline)
    (acts : List Act) (tags : List (PruEvent × PruEventT)) (rest : List PruEventT) : Prop where
  queued : Queued rest (s.run acts)
  drained : events (s.opsFrom acts) = tags.map Prod.fst
  written : unread ++ writes s.pru.seq acts = tags.map Prod.snd ++ rest
  tagged : ∀ y ∈ tags, Tagged k msgs y
  in_time : InTime defaultMaxDeltaNs msgs (s.opsFrom acts)

theorem events_append (ops ops' : List Op) : events (ops ++ ops') = events ops ++ events ops' :=
  List.filterMap_append ..

theorem events_poll (s : Pipeline) (drainNs flushNs : Int) :
    events (s.ops (.poll drainNs flushNs)) = (s.drainAt drainNs).yielded := by
  simp [Pipeline.ops, events, List.filterMap_map, Function.comp_def, Op.event?,
    List.filterMap_cons]

theorem Drained.capture {unread : List PruEventT} {tags : List (PruEvent × PruEventT)}
    {rest : List PruEventT} {tFallNs : UInt64}
    (hd : Drained k msgs (unread ++ [⟨evtSof, 0, s.pru.seq, tFallNs, 0⟩])
      (s.step (.capture tFallNs)) acts tags rest) :
    Drained k msgs unread s (.capture tFallNs :: acts) tags rest := by
  refine ⟨?_, ?_, ?_, hd.tagged, ?_⟩
  · rw [run_cons]
    exact hd.queued
  · rw [opsFrom, Pipeline.ops, List.nil_append]
    exact hd.drained
  · rw [← hd.written, List.append_assoc]
    rfl
  · rw [opsFrom, Pipeline.ops, List.nil_append]
    exact hd.in_time

theorem Drained.frame {unread : List PruEventT} {tags : List (PruEvent × PruEventT)}
    {rest : List PruEventT} {msg : RawCanMessage}
    (hd : Drained k msgs unread (s.step (.frame msg)) acts tags rest) :
    Drained k msgs unread s (.frame msg :: acts) tags rest := by
  have hwritten := hd.written
  rw [pru_step_frame] at hwritten
  refine ⟨?_, ?_, hwritten, hd.tagged, ?_⟩
  · rw [run_cons]
    exact hd.queued
  · rw [opsFrom, events_append, hd.drained]
    rfl
  · rw [opsFrom, Pipeline.ops]
    exact hd.in_time

/-- A poll in front of a run drains what is unread. What later polls drain was captured after
its flush, and so lies out of reach of the frames in front of it. -/
theorem Drained.poll {unread : List PruEventT} {tags₁ tags₂ : List (PruEvent × PruEventT)}
    {rest : List PruEventT} {drainNs flushNs : Int}
    (hyield : (s.drainAt drainNs).yielded = tags₁.map Prod.fst) (hunread : unread = tags₁.map Prod.snd)
    (htagged : ∀ y ∈ tags₁, Tagged k msgs y)
    (hflush : ∀ e ∈ writes s.pru.seq acts, flushNs ≤ trueNs k e)
    (hd : Drained k msgs [] (s.step (.poll drainNs flushNs)) acts tags₂ rest) :
    Drained k msgs unread s (.poll drainNs flushNs :: acts) (tags₁ ++ tags₂) rest := by
  have hwritten : writes s.pru.seq acts = tags₂.map Prod.snd ++ rest := hd.written
  refine ⟨?_, ?_, ?_, ?_, ?_⟩
  · rw [run_cons]
    exact hd.queued
  · rw [opsFrom, events_append, events_poll, hyield, hd.drained, List.map_append]
  · rw [List.map_append, ← hunread, List.append_assoc, ← hwritten]
    rfl
  · intro y hy
    exact (List.mem_append.mp hy).elim (htagged y) (hd.tagged y)
  · rw [opsFrom, Pipeline.ops, List.append_assoc]
    refine inTime_ingestPrus _ ⟨fun m _ pru hpru hwindow => ?_, hd.in_time⟩
    have hmem : pru ∈ events ((s.step (.poll drainNs flushNs)).opsFrom acts) :=
      List.mem_of_mem_filter hpru
    rw [hd.drained] at hmem
    obtain ⟨y, hy, rfl⟩ := List.mem_map.mp hmem
    have hwrite : y.2 ∈ writes s.pru.seq acts := by
      rw [hwritten]
      exact List.mem_append_left _ (List.mem_map_of_mem hy)
    have hafter := hflush y.2 hwrite
    have hlater := (hd.tagged y hy).later
    have hw := hwindow.1
    simp only [defaultMaxDeltaNs]
    omega

theorem run_drained {unread : List PruEventT} (hq : Queued unread s)
    (hidx : s.pru.shm.writeIdx.toNat + (writes s.pru.seq acts).length < 2 ^ 32)
    (hclock : (unread.map (trueNs k) ++ acts.flatMap (instants k)).Pairwise (· ≤ ·))
    (hguard : AllSteps Pipeline.step (Guarded k all) s acts) :
    ∃ tags rest, Drained k (received all) unread s acts tags rest := by
  induction acts generalizing s unread with
  | nil => exact ⟨[], unread, hq, rfl, by simp [writes], by simp, trivial⟩
  | cons a acts ih =>
    cases a with
    | capture tFallNs =>
      have hq' := queued_capture hq (by simp only [writes, List.length_cons] at hidx; omega) tFallNs
      have hwidx : (s.step (.capture tFallNs)).pru.shm.writeIdx.toNat =
          s.pru.shm.writeIdx.toNat + 1 := by
        have h := hq'.index
        rw [List.length_append, List.length_singleton] at h
        exact h.trans (by rw [hq.index]; rfl)
      obtain ⟨tags, rest, hd⟩ := ih hq' (by
        rw [hwidx]
        simp only [writes, List.length_cons] at hidx
        change s.pru.shm.writeIdx.toNat + 1 + (writes (s.pru.seq + 1) acts).length < 2 ^ 32
        omega) (by simpa [instants, trueNs] using hclock) hguard.2
      exact ⟨tags, rest, hd.capture⟩
    | frame msg =>
      have hidx' : (s.step (.frame msg)).pru.shm.writeIdx.toNat +
          (writes (s.step (.frame msg)).pru.seq acts).length < 2 ^ 32 := by
        rw [pru_step_frame]
        exact hidx
      obtain ⟨tags, rest, hd⟩ := ih (queued_frame hq msg) hidx' hclock hguard.2
      exact ⟨tags, rest, hd.frame⟩
    | poll drainNs flushNs =>
      have hdepth : s.pru.shm.writeIdx.toNat ≤ s.reader.readIdx + 256 := hguard.1.depth
      have hqidx := hq.index
      obtain ⟨-, hq'⟩ := queued_drain hq (by omega) drainNs flushNs
      rw [List.flatMap_cons, instants, List.pairwise_append] at hclock
      obtain ⟨-, htail, hcross⟩ := hclock
      obtain ⟨tags₁, hyield, hunread, htagged⟩ := tagged_poll hq
        (fun e he => hcross _ (List.mem_map_of_mem he) drainNs (by simp)) hguard.1
      have htail' : ([].map (trueNs k) ++ acts.flatMap (instants k)).Pairwise (· ≤ ·) :=
        (List.pairwise_append.mp htail).2.1
      obtain ⟨tags₂, rest, hd⟩ := ih hq' hidx htail' hguard.2
      exact ⟨tags₁ ++ tags₂, rest, hd.poll hyield hunread htagged fun e he =>
        (List.pairwise_append.mp htail).2.2 flushNs (by simp) _ (mem_instants he)⟩

theorem received_concat_poll (acts : List Act) (drainNs flushNs : Int) :
    received (acts ++ [.poll drainNs flushNs]) = received acts := by
  simp [received, List.filterMap_append]

theorem run_concat (s : Pipeline) (acts : List Act) (a : Act) :
    s.run (acts ++ [a]) = (s.run acts).step a := by
  rw [run, run, List.foldl_append, List.foldl_cons, List.foldl_nil]

theorem run_drained_all {drainNs flushNs : Int} (hq : Queued [] s)
    (hidx : s.pru.shm.writeIdx.toNat + (captures acts).length < 2 ^ 32)
    (hclock : ((acts ++ [Act.poll drainNs flushNs]).flatMap (instants k)).Pairwise (· ≤ ·))
    (hguard : AllSteps Pipeline.step (Guarded k all) s (acts ++ [.poll drainNs flushNs])) :
    ∃ tags, Drained k (received all) [] s (acts ++ [.poll drainNs flushNs]) tags [] := by
  have hlen : ∀ acts', (writes s.pru.seq acts').length = (captures acts').length := fun acts' => by
    rw [← writes_captures s.pru.seq, List.length_map]
  have hcaps : captures (acts ++ [.poll drainNs flushNs]) = captures acts := by
    simp [captures, List.filterMap_append]
  obtain ⟨hguards, hlast⟩ := (allSteps_snoc _ _ _ _ _).mp hguard
  have hprefix : (acts.flatMap (instants k)).Pairwise (· ≤ ·) := by
    rw [List.flatMap_append] at hclock
    exact (List.pairwise_append.mp hclock).1
  obtain ⟨_, unread, hd⟩ := run_drained hq (by rwa [hlen]) hprefix hguards
  obtain ⟨tags, rest, hall⟩ := run_drained hq (by rwa [hlen, hcaps]) hclock hguard
  have hqueue := hd.queued
  have hdepth : (s.run acts).pru.shm.writeIdx.toNat ≤ (s.run acts).reader.readIdx + 256 := hlast.depth
  have hroom := hqueue.index
  obtain ⟨-, hempty⟩ := queued_drain hqueue (by omega) drainNs flushNs
  have hrest : rest.length = 0 := by
    have hidx₁ := hall.queued.index
    have hidx₂ := hempty.index
    rw [run_concat] at hidx₁
    rw [List.length_nil] at hidx₂
    omega
  rw [List.eq_nil_of_length_eq_zero hrest] at hall
  exact ⟨tags, hall⟩

/-- The correlation of the drained events pairs each first frame with its own SOF. -/
theorem correlate_first {tags : List (PruEvent × PruEventT)} {seq : UInt16}
    (hscenario : Scenario k acts) (hwritten : writes seq acts = tags.map Prod.snd)
    (htagged : ∀ y ∈ tags, Tagged k (received acts) y) {y : PruEvent × PruEventT} (hy : y ∈ tags)
    {j : Nat} {m : RawCanMessage}
    (hj : (received acts).findIdx? (trueNs k y.2 ≤ ·.timestampNs) = some j)
    (hm : (received acts)[j]? = some m) :
    (correlate defaultMaxDeltaNs (tags.map Prod.fst) (received acts))[j]? =
      some (enrich m (some y.1.tFallNs)) := by
  have hcaps : (tags.map Prod.snd).map (·.tFallNs) = captures acts := by
    rw [← hwritten, writes_captures]
  have hsep : tags.Pairwise fun p q => trueNs k p.2 + defaultMaxDeltaNs < trueNs k q.2 := by
    have hblind := hscenario.blind
    rw [← hcaps, List.pairwise_map, List.pairwise_map] at hblind
    refine hblind.imp fun {p q} h => ?_
    have hb : blindCounts.toNat = 10000000 := by decide
    simp only [trueNs, defaultMaxDeltaNs]
    omega
  have hfirst : ∀ p ∈ tags, ∀ n ∈ (received acts).find? (trueNs k p.2 ≤ ·.timestampNs),
      p.1.tFallNs ≤ n.timestampNs ∧ n.timestampNs ≤ trueNs k p.2 + defaultMaxDeltaNs := by
    intro p hp n hn
    have hmem : p.2.tFallNs ∈ captures acts := by
      rw [← hcaps]
      exact List.mem_map_of_mem (List.mem_map_of_mem hp)
    exact ⟨(htagged p hp).first n hn, hscenario.started _ hmem n hn⟩
  have hmerge : (merge (PruEvent.tFallNs ∘ Prod.fst) RawCanMessage.timestampNs defaultMaxDeltaNs
      tags (received acts))[j]? = some (m, some y) :=
    merge_first (by decide) tags (received acts) hsep (fun p hp => (htagged p hp).later) hfirst hy
      hj hm
  rw [correlate, List.getElem?_map, merge_map, List.getElem?_map, hmerge]
  rfl

theorem matched_tryMatch {c d : Correlator} (h : c.matched = d.matched) :
    c.matched <+: (tryMatch d).matched := by
  refine loop_invariant (fun d : Correlator => c.matched <+: d.matched) ?_ _ (h ▸ List.prefix_rfl)
  intro d d' hbody hd
  obtain ⟨msg, canRest, -, pru, pruRest, -, ⟨-, rfl⟩ | ⟨-, -, rfl⟩ | ⟨-, -, rfl⟩⟩ :=
    tryMatchBody_cases hbody
  · exact hd.trans (List.prefix_append _ _)
  · exact hd
  · exact hd.trans (List.prefix_append _ _)

theorem matched_flush (c : Correlator) (nowNs : Int) : c.matched <+: (c.flush nowNs).matched := by
  refine loop_invariant (fun d : Correlator => c.matched <+: d.matched) ?_ _ List.prefix_rfl
  intro d d' hbody hd
  obtain ⟨msg, canRest, -, -, rfl⟩ := flushBody_cases hbody
  exact hd.trans (List.prefix_append _ _)

theorem handed_step (u : Session) (op : Op) : handed u <+: handed (u.step op) := by
  cases op with
  | ingestPru event =>
    rw [handed, handed, step_ingestPru, List.prefix_append_right_inj, ingestPru]
    split
    · exact List.prefix_rfl
    · exact matched_tryMatch rfl
  | ingestFrame msg =>
    rw [handed, handed, step_ingestFrame, List.prefix_append_right_inj, ingestFrame]
    exact matched_tryMatch rfl
  | drainMatched nowNs =>
    have hflush := matched_flush u.correlator nowNs
    rw [handed, handed, step_drainMatched]
    simpa using hflush

theorem handed_run (u : Session) (ops : List Op) : handed u <+: handed (ops.foldl Session.step u) := by
  induction ops generalizing u with
  | nil => exact List.prefix_rfl
  | cons op ops ih => exact (handed_step u op).trans (ih _)

/-- A frame that is to be matched has been, if the queues have had room up to the end, where one of
them is empty, or up to a point at which the frame had left them. -/
theorem emitted_of_matched {ops pre post : List Op} (hsplit : ops = pre ++ post)
    (hfits : AllSteps Session.step Fits (.init defaultMaxDeltaNs) pre)
    (hin : InTime defaultMaxDeltaNs (frames ops) ops) (hsorted : Sorted (frames ops))
    (hlast : (Session.run defaultMaxDeltaNs ops).correlator.matched = []) {j : Nat}
    {m : RawCanMessage} {t : Int}
    (hend : post = [] ∨ j < (handed (Session.run defaultMaxDeltaNs pre)).length)
    (h : (correlate defaultMaxDeltaNs (sofs ops) (frames ops))[j]? = some (enrich m (some t))) :
    (Session.run defaultMaxDeltaNs ops).emitted[j]? = some (enrich m (some t)) := by
  have hout := outcome_split hsplit hfits hin hsorted
  have hgrows : handed (Session.run defaultMaxDeltaNs pre) <+:
      handed (Session.run defaultMaxDeltaNs ops) := by
    rw [hsplit, Session.run, Session.run, List.foldl_append]
    exact handed_run _ post
  have hhanded : handed (Session.run defaultMaxDeltaNs ops) =
      (Session.run defaultMaxDeltaNs ops).emitted := by rw [handed, hlast, List.append_nil]
  rw [outcome, ← List.append_assoc, ← handed] at hout
  rw [← hout] at h
  obtain hlt | hge := Nat.lt_or_ge j (handed (Session.run defaultMaxDeltaNs pre)).length
  · rw [List.getElem?_append_left hlt] at h
    obtain ⟨later, hlater⟩ := hgrows
    rwa [← hhanded, ← hlater, List.getElem?_append_left hlt]
  · obtain rfl | hlt := hend
    · rw [List.append_nil] at hsplit
      subst hsplit
      rw [sofs_nil, frames_nil, List.append_nil, List.append_nil, List.getElem?_append_right hge] at h
      obtain hpru | hcan := run_exhausted defaultMaxDeltaNs ops
      · rw [hpru, correlate, merge_nil_left, List.map_map, List.getElem?_map] at h
        obtain ⟨n, -, hn⟩ := Option.map_eq_some_iff.mp h
        have hts := congrArg EnrichedFrame.pruTsNs hn
        cases hts
      · rw [hcan, correlate, merge_nil_right] at h
        cases h
    · omega

/-- In every run whose polls are prompt and whose queues spare the first frames after the captures,
after each poll the first frame after each capture has been emitted with the time of that
capture's event. -/
theorem first_frames_attributed (k : Int) (pru : Pru) (nowNs : Int) (s : Pipeline)
    (acts : List Act) (drainNs flushNs : Int) (hattach : attach pru nowNs = some s)
    (hscenario : Scenario k (acts ++ [.poll drainNs flushNs]))
    (hidx : pru.shm.writeIdx.toNat + (captures acts).length < 2 ^ 32)
    (hguard : AllSteps Pipeline.step (Guarded k (acts ++ [.poll drainNs flushNs])) s
      (acts ++ [.poll drainNs flushNs])) :
    Attributed k s (acts ++ [.poll drainNs flushNs]) := by
  obtain ⟨hq, rfl, hsession⟩ := queued_attach hattach
  obtain ⟨tags, hd⟩ := run_drained_all hq hidx hscenario.clock hguard
  have hspares := spares_opsFrom hguard
  set all := acts ++ [Act.poll drainNs flushNs] with hall
  have hwritten : writes s.pru.seq all = tags.map Prod.snd := by
    have hwritten := hd.written
    rwa [List.nil_append, List.append_nil] at hwritten
  have htags : sofs (s.opsFrom all) = tags.map Prod.fst := by
    rw [sofs, hd.drained, List.filter_eq_self]
    intro e he
    obtain ⟨y, hy, rfl⟩ := List.mem_map.mp he
    simpa using (hd.tagged y hy).sof
  have hframes : frames (s.opsFrom all) = received all := frames_opsFrom s all
  have hlast : (Session.run defaultMaxDeltaNs (s.opsFrom all)).correlator.matched = [] := by
    rw [hall, opsFrom_append, opsFrom, opsFrom, List.append_nil, Pipeline.ops, ← List.append_assoc,
      CorrelatorRuns.run_snoc, step_drainMatched]
  rw [hsession] at hspares
  obtain ⟨pre, post, hsplit, hfits, hend⟩ := allSteps_until hspares
  intro i w j m hw hj hm
  have hcapture : w.tFallNs ∈ captures all := by
    rw [← writes_captures s.pru.seq]
    exact List.mem_map_of_mem (List.mem_of_getElem? hw)
  rw [hwritten, List.getElem?_map] at hw
  obtain ⟨y, hy, rfl⟩ := Option.map_eq_some_iff.mp hw
  have hmem := List.mem_of_getElem? hy
  obtain ⟨off, hoff⟩ := (hd.tagged y hmem).decoded
  refine ⟨off, y.1, hoff, ?_, ?_⟩
  · rw [hd.drained, List.getElem?_map, hy]
    rfl
  · have hfirst := correlate_first hscenario hwritten hd.tagged hmem hj hm
    rw [← htags, ← hframes] at hfirst
    have hin := hd.in_time
    have hsorted := hscenario.sorted
    rw [← hframes] at hin hsorted
    rw [Pipeline.session_run, hsession]
    exact emitted_of_matched hsplit hfits hin hsorted hlast
      (hend.imp_right fun hsettled => hsettled _ hcapture j hj) hfirst

end

def freshPru : Pru := start ⟨0, 0, 0, 0, 0, fun _ => ⟨0, 0, 0, 0, 0⟩⟩

def epochNs : Int := 1760000000000000000

def fresh : Pipeline := ⟨freshPru, ⟨0, epochNs⟩, .init defaultMaxDeltaNs⟩

theorem fresh_attached : attach freshPru epochNs = some fresh := rfl

def firstFrame : RawCanMessage := ⟨1760000001 + 1 / 4096, 0x123, 0, [], false, false⟩

def promptActs : List Act :=
  [.capture 1000000000, .poll 1760000001000100000 1760000001000110000, .frame firstFrame]

theorem prompt_poll_attributes :
    Attributed epochNs fresh (promptActs ++ [.poll 1760000001020000000 1760000001020010000]) := by
  have hscenario : Scenario epochNs
      (promptActs ++ [.poll 1760000001020000000 1760000001020010000]) := by decide +kernel
  exact first_frames_attributed epochNs freshPru epochNs fresh promptActs 1760000001020000000
    1760000001020010000 fresh_attached hscenario (by decide) (by decide +kernel)

/-- The SOF is published and its frame comes 244 µs later, but the poll only after 10 ms. -/
def lateActs : List Act :=
  [.capture 1000000000, .frame firstFrame, .poll 1760000001010000000 1760000001010010000]

theorem late_poll_loses_sof :
    attach freshPru epochNs = some fresh ∧ Scenario epochNs lateActs ∧
      AllSteps Pipeline.step (fun s a => WithinDepth s a ∧ HasRoom s a) fresh lateActs ∧
      ¬ Attributed epochNs fresh lateActs := by
  refine ⟨fresh_attached, by decide +kernel, by decide +kernel, fun h => ?_⟩
  obtain ⟨_, e, _, _, hemitted⟩ := h 0 ⟨evtSof, 0, 0, 1000000000, 0⟩ 0 firstFrame rfl
    (by decide +kernel) rfl
  have hnone : (fresh.run lateActs).session.emitted[0]? = some (enrich firstFrame none) := by
    decide +kernel
  rw [hnone, Option.some_inj] at hemitted
  cases congrArg EnrichedFrame.pruTsNs hemitted

end CanSniffer.SofAttribution
