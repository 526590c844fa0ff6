import CanSniffer.MatchSoundness
import CanSniffer.ServerDiagnostics
import CanSniffer.SofPolls

namespace CanSniffer

open Library Library.PyJson LatencyPairs Models Firmware IepTime CorrelatorRuns

namespace Watched

open PruShm Pipeline

variable {shm : PruShmT} {d p : Nat} {main : MainLoop} {s : Watched} {old new : List Nat}
  {batches : List (List PruEventT)} {unread : List PruEventT} {K : Int}

theorem recorded_append (pru : Pru) (counts more : List UInt32) :
    recorded pru.shm (counts ++ more) =
      recorded pru.shm counts ++ recorded (counts.foldl Pru.capture pru).shm more := by
  induction counts generalizing pru with
  | nil => rfl
  | cons c counts ih =>
    have hnext := ih (pru.capture c)
    rw [capture_eq, Pru.writeSof, recorded_writeEvent, recorded_writeEvent] at hnext
    rw [List.cons_append, recorded, recorded, List.cons_append, hnext]
    rfl

theorem length_recorded (shm : PruShmT) (counts : List UInt32) :
    (recorded shm counts).length = counts.length := by
  induction counts generalizing shm with
  | nil => rfl
  | cons c counts ih => rw [recorded, List.length_cons, List.length_cons, ih]

theorem sofEvents_times (seq : UInt16) (times : List UInt64) :
    (sofEvents seq times).map PruEventT.tFallNs = times := by
  induction times generalizing seq with
  | nil => rfl
  | cons t times ih => rw [sofEvents, List.map_cons, ih]

theorem written_times (h : Follows shm d p main s old new batches unread)
    (hmain : main.pru = (main.captured.map iepCount).foldl Pru.capture (Firmware.start shm))
    (hsampled : SampledEachPeriod s.main.captured) (hbound : ∀ t ∈ s.main.captured, t < 2 ^ 63) :
    unread.map (·.tFallNs.toNat) = new := by
  obtain ⟨es, hwatches⟩ := h.watches
  have hexact := (recorded_eq_iff (Firmware.start shm).shm rfl rfl
    (MainLoop.captured_sorted hwatches) hbound).mpr hsampled
  rw [h.captured, List.map_append, recorded_append, ← hmain, List.map_append] at hexact
  have hsince := (List.append_inj hexact (by simp [length_recorded])).2
  have htimes : (batches.flatten ++ unread).map (·.tFallNs.toNat) = old ++ new := by
    calc (batches.flatten ++ unread).map (·.tFallNs.toNat)
        = ((written main.pru (old ++ new)).map PruEventT.tFallNs).map UInt64.toNat := by
          rw [h.written, List.map_map]
          rfl
      _ = old ++ new := by rw [Watched.written, sofEvents_times, hsince]
  rw [List.map_append] at htimes
  exact (List.append_inj' htimes (by rw [List.length_map, h.length])).2

/-- The event is a SOF with a wall clock time at most `p` ns after that of the capture; the wall
clock shows `K` when the counter is reset. -/
def Stamps (K : Int) (p : Nat) (x : PruEvent × Nat) : Prop :=
  x.1.type = .sof ∧ (x.2 : Int) + K ≤ x.1.tFallNs ∧ x.1.tFallNs ≤ (x.2 : Int) + K + p

/-- The events that have been yielded, each with its capture. -/
def Stamped (K : Int) (p : Nat) (s : Watched) (old : List Nat) : Prop :=
  ∃ stamped : List (PruEvent × Nat), s.drained.flatMap Prod.snd = stamped.map Prod.fst ∧
    old = stamped.map Prod.snd ∧ ∀ x ∈ stamped, Stamps K p x

theorem stamped_poll (h : Follows shm d p main s old new batches unread)
    (hp : p < 256 * blindCounts.toNat) (htimes : unread.map (·.tFallNs.toNat) = new)
    (hstamped : Stamped K p s old) (hpolled : 0 < s.polled) {t : Nat} (hnow : s.main.now ≤ t)
    (hsoon : t ≤ s.polled + p) : Stamped K p (s.step (.poll t (t + K))) (old ++ new) := by
  obtain ⟨stamped, hdrained, rfl, hall⟩ := hstamped
  obtain ⟨off, hyielded, hoff⟩ := yields_poll h hp (t + K)
  obtain ⟨es, hwatches⟩ := h.watches
  dsimp only at hyielded hoff
  have hnew : ∀ e ∈ unread, s.polled ≤ e.tFallNs.toNat ∧ e.tFallNs.toNat ≤ t := by
    intro e he
    have hmem : e.tFallNs.toNat ∈ new := by
      rw [← htimes]
      exact List.mem_map_of_mem he
    have hcaptured : e.tFallNs.toNat ∈ s.main.captured := by
      rw [h.captured]
      exact List.mem_append_right _ (List.mem_append_right _ hmem)
    have hchecked := MainLoop.captured_checked hwatches _ hcaptured
    exact ⟨h.since _ hmem, hchecked.trans (hwatches.checked.trans hnow)⟩
  refine ⟨stamped ++ unread.map fun e => (sofEvent e off, e.tFallNs.toNat), ?_, ?_, ?_⟩
  · rw [step, List.flatMap_append, hdrained, List.flatMap_singleton, hyielded, List.map_append,
      List.map_map]
    rfl
  · rw [List.map_append, List.map_map, ← htimes]
    rfl
  · intro x hx
    obtain hx | hx := List.mem_append.mp hx
    · exact hall x hx
    · obtain ⟨e, he, rfl⟩ := List.mem_map.mp hx
      obtain ⟨last, hlast⟩ := Option.isSome_iff_exists.mp
        (List.getLast?_isSome.mpr (List.ne_nil_of_mem he))
      have hsince := hnew last (List.mem_of_getLast? hlast)
      have heq := hoff last hlast (by omega)
      refine ⟨rfl, ?_, ?_⟩
      · dsimp only [sofEvent]
        omega
      · dsimp only [sofEvent]
        omega

theorem captured_grows (s : Watched) (a : MainLoop.Act) :
    s.main.captured <+: (s.step (.pru a)).main.captured := by
  cases a with
  | edge t => exact List.prefix_rfl
  | check t =>
    obtain ⟨-, hcaptured⟩ | ⟨-, hcaptured⟩ := check_cases s.main t
    · exact ⟨[], (List.append_nil _).trans hcaptured.symm⟩
    · exact ⟨[t], hcaptured.symm⟩

end Watched

structure Sniffer where
  watched : Watched
  server : Server

namespace Sniffer

/-- What a pass of `_ingest_loop` reads beside the ring; event `i` that it drains comes with
`monotonic i`, `times i` and `logged i`. -/
structure PassRead where
  monotonic : Nat → ℚ
  times : Nat → DiagTimes
  logged : Nat → ℚ
  nowNs : Int
  frames : Nat → FrameRead
  sweepNow : ℚ
  aborts : Nat → DiagTimes

def PassRead.pass (r : PassRead) (drained : PruShm.Drain) : Pass where
  events := drained.yielded.zipIdx.map fun (e, i) => ⟨e, r.monotonic i, r.times i, r.logged i⟩
  raises := drained.raised
  nowNs := r.nowNs
  frames := r.frames
  sweepNow := r.sweepNow
  aborts := r.aborts

/-- A step of the firmware, a pass of `_ingest_loop` at some time, for which the wall clock shows
`drainNs`, or anything else on the event loop. -/
inductive Act
  | pru (a : MainLoop.Act)
  | pass (t : Nat) (drainNs : Int) (r : PassRead)
  | other (a : { a : Server.Act // ∀ p, a ≠ .pass p })

section

variable (ops : FloatOps) (format : String → Nat → Option String) (dumps : FrameDict → String)

def step (s : Sniffer) : Act → Sniffer
  | .pru a => { s with watched := s.watched.step (.pru a) }
  | .pass t drainNs r =>
    if s.server.running then
      { watched := s.watched.step (.poll t drainNs)
        server := s.server.pass ops format (r.pass (s.watched.path.drainAt drainNs)) }
    else s
  | .other a => { s with server := s.server.step ops format dumps a.1 }

def run (s : Sniffer) (acts : List Act) : Sniffer := acts.foldl (step ops format dumps) s

end

/-- The firmware is in time, the ring is read at least every `p` ns, and the wall clock, which shows
`K` when the counter is reset, goes like the counter. -/
def InTime (d p : Nat) (K : Int) (s : Sniffer) : Act → Prop
  | .pru a => s.watched.InTime d p (.pru a)
  | .pass t drainNs _ =>
    s.watched.InTime d p (.poll t drainNs) ∧ s.watched.polled ≤ t ∧ t ≤ s.watched.polled + p ∧
      drainNs = t + K
  | .other _ => True

instance (d p : Nat) (K : Int) (s : Sniffer) : (a : Act) → Decidable (InTime d p K s a)
  | .pru a => inferInstanceAs (Decidable (s.watched.InTime d p (.pru a)))
  | .pass _ _ _ => inferInstanceAs (Decidable (_ ∧ _ ∧ _ ∧ _))
  | .other _ => instDecidableTrue

def pruActs (acts : List Act) : List MainLoop.Act :=
  acts.filterMap fun
    | .pru a => some a
    | .pass _ _ _ | .other _ => none

def dataFrames (acts : List Act) : List RawCanMessage :=
  Server.dataFrames (acts.filterMap fun
    | .other a => some a.1
    | .pru _ | .pass _ _ _ => none)

def loopOps (acts : List Server.Act) : List Op :=
  (acts.filterMap Server.Act.loopAct?).flatMap IngestLoop.Act.ops

theorem events_loopOps (acts : List Server.Act) :
    events (loopOps acts) = (Server.eventsRead acts).map EventRead.event := by
  have hone (a : Server.Act) : events (a.loopAct?.toList.flatMap IngestLoop.Act.ops) =
      (Server.eventsRead [a]).map EventRead.event := by
    cases a with
    | pass p =>
      simp [Server.Act.loopAct?, IngestLoop.Act.ops, Pass.poll, Server.eventsRead, events,
        List.filterMap_map, Function.comp_def, Op.event?]
    | readable batch =>
      simp [Server.Act.loopAct?, IngestLoop.Act.ops, Server.eventsRead, events, Op.event?]
    | _ => rfl
  induction acts using List.reverseRecOn with
  | nil => rfl
  | append_singleton acts a ih =>
    have hops : loopOps (acts ++ [a]) =
        loopOps acts ++ a.loopAct?.toList.flatMap IngestLoop.Act.ops := by
      rw [loopOps, List.filterMap_append, List.flatMap_append]
      cases a <;> rfl
    rw [hops, events, List.filterMap_append, ← events, ← events, hone, ih, ← List.map_append,
      Server.eventsRead, Server.eventsRead, Server.eventsRead, List.flatMap_append]

theorem serverFrames_concat (acts : List Server.Act) (a : Server.Act) :
    Server.dataFrames (acts ++ [a]) = Server.dataFrames acts ++ Server.dataFrames [a] := by
  simp [Server.dataFrames]

theorem dataFrames_concat (acts : List Act) (a : Act) :
    dataFrames (acts ++ [a]) = dataFrames acts ++ dataFrames [a] := by
  rw [dataFrames, List.filterMap_append, Server.dataFrames, List.flatMap_append, List.filter_append]
  rfl

theorem event_pass (r : PassRead) (drained : PruShm.Drain) :
    (r.pass drained).events.map EventRead.event = drained.yielded := by
  rw [PassRead.pass, List.map_map]
  exact List.zipIdx_map_fst 0 drained.yielded

variable {ops : FloatOps} {format : String → Nat → Option String} {dumps : FrameDict → String}
  {shm : PruShmT} {d p : Nat} {K : Int} {main : MainLoop} {server : Server} {acts : List Act}
  {s : Sniffer}

variable (ops format dumps) in
/-- The server has been through a run of its own, in which it read the events that have been yielded
and the frames of these acts. -/
structure Served (server : Server) (acts : List Act) (served : List Server.Act) (s : Sniffer) :
    Prop where
  server : s.server = server.run ops format dumps served
  events : (Server.eventsRead served).map EventRead.event = s.watched.drained.flatMap Prod.snd
  frames : Server.dataFrames served = dataFrames acts

variable {served : List Server.Act}

theorem served_same (h : Served ops format dumps server acts served s) {t : Sniffer} {a : Act}
    (hserver : t.server = s.server) (hdrained : t.watched.drained = s.watched.drained)
    (hframes : dataFrames [a] = []) : Served ops format dumps server (acts ++ [a]) served t := by
  refine ⟨hserver.trans h.server, by rw [hdrained, h.events], ?_⟩
  rw [h.frames, dataFrames_concat, hframes, List.append_nil]

theorem served_next (h : Served ops format dumps server acts served s) {t : Sniffer} {a : Act}
    (next : Server.Act) (hserver : t.server = s.server.step ops format dumps next)
    (hevents : t.watched.drained.flatMap Prod.snd =
      s.watched.drained.flatMap Prod.snd ++ (Server.eventsRead [next]).map EventRead.event)
    (hframes : dataFrames [a] = Server.dataFrames [next]) :
    Served ops format dumps server (acts ++ [a]) (served ++ [next]) t := by
  refine ⟨?_, ?_, ?_⟩
  · rw [Server.run_concat, ← h.server, hserver]
  · rw [hevents, ← h.events, ← List.map_append, Server.eventsRead, Server.eventsRead,
      Server.eventsRead, List.flatMap_append]
  · rw [serverFrames_concat, dataFrames_concat, h.frames, hframes]

variable (ops format dumps) in
theorem served_run {w : Watched} (hdrained : w.drained = []) (server : Server) (acts : List Act) :
    ∃ served, Served ops format dumps server acts served
      (run ops format dumps ⟨w, server⟩ acts) := by
  induction acts using List.reverseRecOn with
  | nil => exact ⟨[], rfl, by rw [run, List.foldl_nil, hdrained]; rfl, rfl⟩
  | append_singleton acts a ih =>
    obtain ⟨served, h⟩ := ih
    have hrun : run ops format dumps ⟨w, server⟩ (acts ++ [a]) =
        (run ops format dumps ⟨w, server⟩ acts).step ops format dumps a := List.foldl_append
    rw [hrun]
    cases a with
    | pru a => exact ⟨served, served_same h rfl rfl rfl⟩
    | other a =>
      refine ⟨_, served_next h a.1 rfl ?_ rfl⟩
      cases ha : a.1 with
      | pass p => exact absurd ha (a.2 p)
      | _ => exact (List.append_nil _).symm
    | pass t drainNs r =>
      rw [step]
      split_ifs
      · refine ⟨_, served_next h (.pass (r.pass
          ((run ops format dumps ⟨w, server⟩ acts).watched.path.drainAt drainNs))) rfl ?_ rfl⟩
        rw [Watched.step, List.flatMap_append, List.flatMap_singleton, Server.eventsRead,
          List.flatMap_singleton, event_pass]
      · exact ⟨served, served_same h rfl rfl rfl⟩

/-- The captures that have been yielded are those of `old`, each with its time. -/
structure Joined (shm : PruShmT) (d p : Nat) (K : Int) (main : MainLoop) (s : Watched) : Prop where
  polled : 0 < s.polled
  watched : ∃ old new batches unread,
    Watched.Follows shm d p main s old new batches unread ∧ Watched.Stamped K p s old

theorem joined_pru (h : Joined shm d p K main s.watched) (hd : blindCounts.toNat + d ≤ 2 ^ 32)
    {a : MainLoop.Act} (hin : s.watched.InTime d p (.pru a)) :
    Joined shm d p K main (s.watched.step (.pru a)) := by
  obtain ⟨old, new, batches, unread, hfollows, hstamped⟩ := h.watched
  obtain ⟨new', unread', hnext⟩ := Watched.follows_pru hfollows hd hin
  exact ⟨h.polled, old, new', batches, unread', hnext, hstamped⟩

variable (ops format dumps) in
theorem joined_pass (h : Joined shm d p K main s.watched) (hp : p < 256 * blindCounts.toNat)
    (hmain : main.pru = (main.captured.map iepCount).foldl Pru.capture (Firmware.start shm))
    (hsampled : SampledEachPeriod s.watched.main.captured)
    (hbound : ∀ t ∈ s.watched.main.captured, t < 2 ^ 63)
    {t : Nat} {drainNs : Int} {r : PassRead} (hin : InTime d p K s (.pass t drainNs r)) :
    Joined shm d p K main (s.step ops format dumps (.pass t drainNs r)).watched := by
  obtain ⟨old, new, batches, unread, hfollows, hstamped⟩ := h.watched
  obtain ⟨hnow, hforward, hsoon, rfl⟩ := hin
  have htimes := Watched.written_times hfollows hmain hsampled hbound
  have hpoll := Watched.follows_poll hfollows hp t (t + K)
  have hnext := Watched.stamped_poll hfollows hp htimes hstamped h.polled hnow hsoon
  rw [step]
  split_ifs
  · exact ⟨h.polled.trans_le hforward, _, _, _, _, hpoll, hnext⟩
  · exact h

variable (ops format dumps) in
theorem captured_grows (s : Sniffer) (a : Act) :
    s.watched.main.captured <+: (s.step ops format dumps a).watched.main.captured := by
  cases a with
  | pru a => exact s.watched.captured_grows a
  | other a => exact List.prefix_rfl
  | pass t drainNs r =>
    rw [step]
    split_ifs
    · exact List.prefix_rfl
    · exact List.prefix_rfl

theorem joined_run (hd : blindCounts.toNat + d ≤ 2 ^ 32) (hp : p < 256 * blindCounts.toNat)
    (hmain : main.pru = (main.captured.map iepCount).foldl Pru.capture (Firmware.start shm))
    (h : Joined shm d p K main s.watched)
    (htime : Trace.AllSteps (step ops format dumps) (InTime d p K) s acts)
    (hsampled : SampledEachPeriod (s.run ops format dumps acts).watched.main.captured)
    (hbound : ∀ t ∈ (s.run ops format dumps acts).watched.main.captured, t < 2 ^ 63) :
    Joined shm d p K main (s.run ops format dumps acts).watched := by
  induction acts using List.reverseRecOn with
  | nil => exact h
  | append_singleton acts a ih =>
    rw [Trace.allSteps_snoc] at htime
    rw [run, List.foldl_append] at hsampled hbound ⊢
    obtain ⟨hbefore, hin⟩ := htime
    have hgrows := captured_grows ops format dumps (s.run ops format dumps acts) a
    have hsampled' : SampledEachPeriod (s.run ops format dumps acts).watched.main.captured :=
      hsampled.prefix (List.cons_prefix_cons.mpr ⟨rfl, hgrows⟩)
    have hbound' : ∀ t ∈ (s.run ops format dumps acts).watched.main.captured, t < 2 ^ 63 :=
      fun t ht => hbound t (hgrows.subset ht)
    have hjoined := ih hbefore hsampled' hbound'
    cases a with
    | pru a => exact joined_pru hjoined hd hin
    | pass t drainNs r => exact joined_pass ops format dumps hjoined hp hmain hsampled' hbound' hin
    | other a => exact hjoined

theorem main_run (htime : Trace.AllSteps (step ops format dumps) (InTime d p K) s acts) :
    (s.run ops format dumps acts).watched.main =
        (pruActs acts).foldl MainLoop.step s.watched.main ∧
      Trace.AllSteps MainLoop.step (MainLoop.InTime d) s.watched.main (pruActs acts) := by
  induction acts generalizing s with
  | nil => exact ⟨rfl, trivial⟩
  | cons a acts ih =>
    obtain ⟨hin, hrest⟩ := htime
    obtain ⟨hmain, hsteps⟩ := ih hrest
    cases a with
    | pru a => exact ⟨hmain, hin.1, hsteps⟩
    | other a => exact ⟨hmain, hsteps⟩
    | pass t drainNs r =>
      have hsame : (s.step ops format dumps (.pass t drainNs r)).watched.main = s.watched.main := by
        rw [step]
        split_ifs <;> rfl
      rw [hsame] at hmain hsteps
      exact ⟨hmain, hsteps⟩

/-- The row is one of a frame with a PRU time. -/
def hasPruTime (row : Row) : Bool := row[5]? ≠ some .null

theorem filter_frameRow (frames : List EnrichedFrame) :
    (frames.map (DiagLogger.frameRow · false)).filter hasPruTime =
      (MatchSoundness.matchedFrames frames).map (DiagLogger.frameRow · false) := by
  rw [List.filter_map, MatchSoundness.matchedFrames]
  congr 1
  apply List.filter_congr
  intro frame _
  cases h : frame.pruTsNs <;> simp [hasPruTime, DiagLogger.frameRow, h, SqlValue.ofOption]

/-- The row is that of the frame, with a PRU time at most `p` ns after the wall clock time of the
capture and at most 5 ms before that of the frame. -/
def Shows (K : Int) (p : Nat) (row : Row) (t : Nat) (msg : RawCanMessage) : Prop :=
  ∃ stamp : Int, row = DiagLogger.frameRow (Correlator.enrich msg (some stamp)) false ∧
    t + K ≤ stamp ∧ stamp ≤ t + K + p ∧
    0 ≤ msg.timestampNs - stamp ∧ msg.timestampNs - stamp ≤ Correlator.defaultMaxDeltaNs

theorem exists_joint {α β γ : Type} {fs : List (α × β)} {gs : List (α × γ)}
    (h : fs.map Prod.fst = gs.map Prod.fst) :
    ∃ joint : List (α × β × γ), fs = joint.map (fun x => (x.1, x.2.1)) ∧
      gs = joint.map fun x => (x.1, x.2.2) := by
  induction fs generalizing gs with
  | nil => exact ⟨[], rfl, List.map_eq_nil_iff.mp h.symm⟩
  | cons f fs ih =>
    cases gs with
    | nil => cases h
    | cons g gs =>
      rw [List.map_cons, List.map_cons, List.cons.injEq] at h
      obtain ⟨joint, rfl, rfl⟩ := ih h.2
      refine ⟨(f.1, f.2, g.2) :: joint, rfl, ?_⟩
      rw [List.map_cons, h.1]

theorem rows_shown {served : List Server.Act} {t : Server} {old : List Nat} {w : Watched}
    (hstamped : Watched.Stamped K p w old)
    (hevents : events (loopOps served) = w.drained.flatMap Prod.snd)
    (hloop : t.loop.session = Session.run Correlator.defaultMaxDeltaNs (loopOps served))
    (hlogged : t.logged .frame = t.loop.emitted.map (DiagLogger.frameRow · false)) :
    ∃ used : List (Nat × RawCanMessage),
      List.Forall₂ (fun row u => Shows K p row u.1 u.2) ((t.logged .frame).filter hasPruTime) used ∧
      (used.map Prod.fst).Sublist old ∧
      (used.map Prod.snd).Sublist (frames (loopOps served)) := by
  obtain ⟨stamped, hdrained, rfl, hall⟩ := hstamped
  obtain ⟨pairs, hmatched, hsofs, hframes, hwindow⟩ :=
    MatchSoundness.matched_pairs Correlator.defaultMaxDeltaNs (loopOps served)
  rw [← hloop] at hmatched
  change MatchSoundness.matchedFrames t.loop.emitted = _ at hmatched
  have hyielded : (pairs.map Prod.fst).Sublist (stamped.map Prod.fst) := by
    rw [← hdrained, ← hevents]
    exact hsofs.trans List.filter_sublist
  obtain ⟨taken, htaken, heq⟩ := List.sublist_map_iff.mp hyielded
  obtain ⟨joint, rfl, rfl⟩ := exists_joint heq
  refine ⟨joint.map fun x => (x.2.2, x.2.1), ?_, ?_, ?_⟩
  · rw [hlogged, filter_frameRow, hmatched, List.map_map, List.map_map, List.forall₂_map_left_iff,
      List.forall₂_map_right_iff, List.forall₂_same]
    intro x hx
    obtain ⟨-, hfrom, hto⟩ := hall _ (htaken.subset (List.mem_map_of_mem hx))
    have hwin := hwindow _ (List.mem_map_of_mem hx)
    exact ⟨x.1.tFallNs, rfl, hfrom, hto, hwin.1, hwin.2⟩
  · have hsub := htaken.map Prod.snd
    rw [List.map_map] at hsub ⊢
    exact hsub
  · rw [List.map_map] at hframes ⊢
    exact hframes

/-- If the firmware and the loop are in time, the bus does not go quiet for a period of the counter
and the wall clock goes like the counter, then each row with a PRU time stands for a capture of its
own, in order, and for an edge on the bus at most `d` ns before that: the time in the row is at most
`p` ns after the capture, and the frame in the row is one that was read and that came at most 5 ms
later. -/
theorem rows_have_edges (shm : PruShmT) (d p idle : Nat) (K : Int)
    (hidle : blindCounts.toNat + idle + 2 * d + 1 < 2 ^ 32) (hp : p < 256 * blindCounts.toNat)
    (pre : List MainLoop.Act)
    (hpre : Trace.AllSteps MainLoop.step (MainLoop.InTime d) (.start shm) pre) (reader : PruShm)
    (polled : Nat) (hpolled : 0 < polled) (nowNs : Int)
    (hinit : PruShm.init (MainLoop.run shm pre).pru.shm nowNs = some reader)
    {file : Option PairsFile} (hstart : Server.start file = some server) (acts : List Act)
    (htime : Trace.AllSteps (step ops format dumps) (InTime d p K)
      ⟨⟨MainLoop.run shm pre, reader, polled, []⟩, server⟩ acts) :
    let main := MainLoop.run shm pre
    let s := run ops format dumps ⟨⟨main, reader, polled, []⟩, server⟩ acts
    let edges := MainLoop.edges (pre ++ pruActs acts)
    s.server.running = true → MainLoop.Busy idle edges s.watched.main.checked →
    s.watched.main.checked < 2 ^ 63 →
    ∃ used : List (Nat × RawCanMessage),
      List.Forall₂ (fun row u => Shows K p row u.1 u.2) ((s.server.logged .frame).filter hasPruTime)
        used ∧
      (main.captured ++ used.map Prod.fst).Sublist s.watched.main.captured ∧
      (used.map Prod.snd).Sublist (dataFrames acts) ∧
      ∀ u ∈ used, ∃ e ∈ edges, e ≤ u.1 ∧ u.1 ≤ e + d := by
  intro main s edges hrunning hbusy hbound
  have hd : blindCounts.toNat + d ≤ 2 ^ 32 := by omega
  obtain ⟨hfirmware, hsteps⟩ := main_run htime
  have hmain : MainLoop.Watches shm d (MainLoop.edges pre) main := MainLoop.watches_run shm hd hpre
  have hrun : s.watched.main = MainLoop.run shm (pre ++ pruActs acts) := by
    rw [MainLoop.run, List.foldl_append]
    exact hfirmware
  have hwatches : MainLoop.Watches shm d edges s.watched.main := by
    rw [hrun]
    exact MainLoop.watches_run shm hd
      ((Trace.allSteps_append _ _ _ pre (pruActs acts)).mpr ⟨hpre, hsteps⟩)
  have hsampled := MainLoop.sampled_of_busy hwatches hidle hbusy
  have hbelow : ∀ t ∈ s.watched.main.captured, t < 2 ^ 63 := fun t ht =>
    (MainLoop.captured_checked hwatches t ht).trans_lt hbound
  have hinitial : Joined shm d p K main ⟨main, reader, polled, []⟩ :=
    ⟨hpolled, _, _, _, _, Watched.follows_init hmain hinit polled, [], rfl, rfl,
      List.forall_mem_nil _⟩
  have hjoined : Joined shm d p K main s.watched :=
    joined_run hd hp hmain.pru hinitial htime hsampled hbelow
  obtain ⟨old, new, batches, unread, hfollows, hstamped⟩ := hjoined.watched
  obtain ⟨served, hserver, hevents, hframes⟩ :=
    served_run ops format dumps (w := ⟨main, reader, polled, []⟩) rfl server acts
  have hloop : s.server.loop.session = Session.run Correlator.defaultMaxDeltaNs (loopOps served) := by
    rw [hserver] at hrunning ⊢
    rw [Server.loop_run hstart served hrunning, IngestLoop.session_run]
    rfl
  have hfed : Server.Fed dumps s.server := by
    rw [hserver]
    exact Server.fed_run ops format dumps hstart served
  rw [← events_loopOps] at hevents
  obtain ⟨used, hrows, htimes, hread⟩ := rows_shown hstamped hevents hloop hfed.frames
  have hcaptured : (main.captured ++ used.map Prod.fst).Sublist s.watched.main.captured := by
    rw [hfollows.captured]
    exact (htimes.trans (List.sublist_append_left old new)).append_left main.captured
  refine ⟨used, hrows, hcaptured, ?_, ?_⟩
  · rwa [loopOps, Server.frames_loopActs, hframes] at hread
  · intro u hu
    apply hwatches.caused
    exact hcaptured.subset (List.mem_append_right _ (List.mem_map_of_mem hu))

def oneFrame : List Act :=
  [.pru (.check 31000000), .pru (.edge 32000000), .pru (.check 33000000),
    .other ⟨.readable [(⟨1700000000 + 18 / 512, 0x123, 0, [], false, false⟩, Server.noTimes)], nofun⟩,
    .pass 34000000 1700000000034000000
      ⟨fun _ => 0, fun _ => Server.noTimes, fun _ => 0, 1700000000036000000,
        fun _ => ⟨0, fun _ => 0, fun _ => 0, "", 0⟩, 0, fun _ => Server.noTimes⟩]

def attached : Watched :=
  ⟨MainLoop.run MainLoop.ringOff MainLoop.twoFrames, ⟨2, 1700000000001000000⟩, 22000000, []⟩

theorem rows_have_edges_oneFrame :
    let s := run Binary64.ops formatDefault (fun _ => "") ⟨attached, Server.fresh⟩ oneFrame
    ∃ used : List (Nat × RawCanMessage),
      List.Forall₂ (fun row u => Shows 1700000000000000000 2000000000 row u.1 u.2)
        ((s.server.logged .frame).filter hasPruTime) used ∧
      (attached.main.captured ++ used.map Prod.fst).Sublist s.watched.main.captured ∧
      (used.map Prod.snd).Sublist (dataFrames oneFrame) ∧
      ∀ u ∈ used, ∃ e ∈ MainLoop.edges (MainLoop.twoFrames ++ pruActs oneFrame),
        e ≤ u.1 ∧ u.1 ≤ e + 10000000 := by
  refine rows_have_edges MainLoop.ringOff 10000000 2000000000 16000000 1700000000000000000
    (by decide) (by decide) MainLoop.twoFrames (by decide +kernel) ⟨2, 1700000000001000000⟩ 22000000
    (by decide) 1700000000022000000 (by decide +kernel) (show Server.start none = some _ from rfl)
    oneFrame (by decide +kernel) (by decide +kernel) ?_ (by decide +kernel)
  change MainLoop.Busy 16000000 _ 33000000
  intro x hx
  obtain hfirst | hlater := Nat.lt_or_ge 6000000 x
  · exact ⟨20000000, by decide, by omega, by omega⟩
  · obtain hsecond | hfirst := Nat.lt_or_ge 4000000 x
    · exact ⟨6000000, by decide, by omega, by omega⟩
    · exact ⟨4000000, by decide, by omega, by omega⟩

end Sniffer
end CanSniffer
