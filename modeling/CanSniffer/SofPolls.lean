import CanSniffer.Pipeline
import CanSniffer.SofCapture

namespace CanSniffer

open Library Library.RingSlots Models Firmware IepTime

/-- The firmware beside a reader of its ring, with the time of the last poll, and what each poll has
yielded with the clock that it read. -/
structure Watched where
  main : MainLoop
  reader : PruShm
  polled : Nat
  drained : List (Int × List PruEvent) := []

namespace Watched

open PruShm Pipeline

inductive Act
  | pru (a : MainLoop.Act)
  | poll (t : Nat) (nowNs : Int)

def path (s : Watched) : Pipeline := ⟨s.main.pru, s.reader, .init Correlator.defaultMaxDeltaNs⟩

def step (s : Watched) : Act → Watched
  | .pru a => { s with main := s.main.step a }
  | .poll t nowNs =>
    let d := s.path.drainAt nowNs
    { s with reader := d.reader, polled := t, drained := s.drained ++ [(nowNs, d.yielded)] }

def run (s : Watched) (acts : List Act) : Watched := acts.foldl step s

/-- Time does not go back, the last check is never more than `d` ns ago and the last poll never more
than `p` ns, and the firmware has not run for 497 days, when the index of the ring may go round. -/
def InTime (d p : Nat) (s : Watched) : Act → Prop
  | .pru a => MainLoop.InTime d s.main a ∧ s.polled ≤ a.time ∧ a.time ≤ s.polled + p ∧
      a.time < (2 ^ 32 - 1) * blindCounts.toNat
  | .poll t _ => s.main.now ≤ t

instance (d p : Nat) (s : Watched) : (a : Act) → Decidable (InTime d p s a)
  | .pru _ => inferInstanceAs (Decidable (_ ∧ _ ∧ _ ∧ _))
  | .poll _ _ => Nat.decLe _ _

def pruActs (acts : List Act) : List MainLoop.Act :=
  acts.filterMap fun
    | .pru a => some a
    | .poll _ _ => none

/-- A poll yields these events, all with one offset; if the last has a time, then it gets that of
the poll. -/
def Yields (poll : Int × List PruEvent) (batch : List PruEventT) : Prop :=
  ∃ off, poll.2 = batch.map (sofEvent · off) ∧
    ∀ e ∈ batch.getLast?, 0 < e.tFallNs.toNat → off = poll.1 - e.tFallNs.toNat

/-- What the firmware writes from a state of it on, for captures at these times. -/
def written (pru : Pru) (times : List Nat) : List PruEventT :=
  sofEvents pru.seq (recorded pru.shm (times.map iepCount))

theorem written_cons (pru : Pru) (t : Nat) (times : List Nat) :
    written pru (t :: times) = ⟨evtSof, 0, pru.seq, (iepToNs pru.shm (iepCount t)).1, 0⟩ ::
      written (pru.capture (iepCount t)) times := by
  rw [written, written, List.map_cons, recorded, sofEvents, capture_eq, Pru.writeSof,
    recorded_writeEvent]

theorem written_concat (pru : Pru) (times : List Nat) (t : Nat) :
    let now := (times.map iepCount).foldl Pru.capture pru
    written pru (times ++ [t]) =
      written pru times ++ [⟨evtSof, 0, now.seq, (iepToNs now.shm (iepCount t)).1, 0⟩] := by
  induction times generalizing pru with
  | nil => rfl
  | cons u times ih =>
    rw [List.cons_append, written_cons, written_cons, ih]
    rfl

theorem writeIdx_captures (pru : Pru) (counts : List UInt32) :
    (counts.foldl Pru.capture pru).shm.writeIdx = pru.shm.writeIdx + UInt32.ofNat counts.length := by
  induction counts generalizing pru with
  | nil => simp
  | cons c counts ih =>
    have hone : (pru.capture c).shm.writeIdx = pru.shm.writeIdx + 1 := by
      rw [capture_eq, Pru.writeSof, writeEvent_eq]
      rfl
    rw [List.foldl_cons, ih, hone, List.length_cons, Nat.add_comm counts.length, UInt32.ofNat_add,
      UInt32.add_assoc]
    rfl

theorem length_of_apart {k lo hi : Nat} {times : List Nat}
    (hapart : times.Pairwise fun t u => t + k ≤ u) (hlo : ∀ t ∈ times, lo ≤ t)
    (hhi : ∀ t ∈ times, t ≤ hi) : times.length * k ≤ hi - lo + k := by
  induction times generalizing lo with
  | nil => simp
  | cons t times ih =>
    obtain ⟨hnext, hrest⟩ := List.pairwise_cons.mp hapart
    have hlot := hlo t List.mem_cons_self
    have hhit := hhi t List.mem_cons_self
    rw [List.length_cons, Nat.succ_mul]
    cases times with
    | nil => simp
    | cons u times =>
      have hih := ih hrest hnext fun v hv => hhi v (List.mem_cons_of_mem t hv)
      have hu := hnext u List.mem_cons_self
      have hhiu := hhi u (List.mem_cons_of_mem t List.mem_cons_self)
      omega

theorem queued_congr {unread : List PruEventT} {s t : Pipeline} (h : Queued unread s)
    (hpru : t.pru = s.pru) (hreader : t.reader = s.reader) : Queued unread t := by
  obtain ⟨sane, index, holds, sofs⟩ := h
  rw [← hpru, ← hreader] at sane index holds
  exact ⟨sane, index, holds, sofs⟩

variable {shm : PruShmT} {d p : Nat} {main : MainLoop} {s : Watched}

structure Follows (shm : PruShmT) (d p : Nat) (main : MainLoop) (s : Watched) (old new : List Nat)
    (batches : List (List PruEventT)) (unread : List PruEventT) : Prop where
  watches : ∃ es, MainLoop.Watches shm d es s.main
  captured : s.main.captured = main.captured ++ (old ++ new)
  pru : s.main.pru = ((old ++ new).map iepCount).foldl Pru.capture main.pru
  written : written main.pru (old ++ new) = batches.flatten ++ unread
  length : unread.length = new.length
  since : ∀ t ∈ new, s.polled ≤ t
  recent : ∀ t ∈ new, t ≤ s.polled + p
  yields : List.Forall₂ Yields s.drained batches
  queued : Queued unread s.path

variable {old new : List Nat} {batches : List (List PruEventT)} {unread : List PruEventT}

theorem follows_init {es : List Nat} (h : MainLoop.Watches shm d es main) {nowNs : Int}
    {reader : PruShm} (hinit : PruShm.init main.pru.shm nowNs = some reader) (polled : Nat) :
    Follows shm d p main ⟨main, reader, polled, []⟩ [] [] [] [] := by
  have hattach : Pipeline.attach main.pru nowNs =
      some ⟨main.pru, reader, .init Correlator.defaultMaxDeltaNs⟩ := by
    rw [Pipeline.attach, hinit]
    rfl
  exact ⟨⟨es, h⟩, (List.append_nil _).symm, rfl, rfl, rfl, nofun, nofun, .nil,
    queued_congr (queued_attach hattach).1 rfl rfl⟩

theorem check_cases (m : MainLoop) (t : Nat) :
    ((m.step (.check t)).pru = m.pru ∧ (m.step (.check t)).captured = m.captured) ∨
      ((m.step (.check t)).pru = m.pru.capture (iepCount t) ∧
        (m.step (.check t)).captured = m.captured ++ [t]) := by
  rw [MainLoop.step, MainLoop.check]
  cases m.wait with
  | interrupt =>
    dsimp only
    split_ifs
    · exact .inr ⟨rfl, rfl⟩
    · exact .inl ⟨rfl, rfl⟩
  | blind iepSnap =>
    dsimp only
    split_ifs
    · exact .inl ⟨rfl, rfl⟩
    · exact .inl ⟨rfl, rfl⟩

theorem follows_same (h : Follows shm d p main s old new batches unread) {a : MainLoop.Act}
    {es : List Nat} (hwatches : MainLoop.Watches shm d es (s.main.step a))
    (hpru : (s.main.step a).pru = s.main.pru)
    (hcaptured : (s.main.step a).captured = s.main.captured) :
    Follows shm d p main (s.step (.pru a)) old new batches unread where
  watches := ⟨es, hwatches⟩
  captured := hcaptured.trans h.captured
  pru := hpru.trans h.pru
  written := h.written
  length := h.length
  since := h.since
  recent := h.recent
  yields := h.yields
  queued := queued_congr h.queued hpru rfl

theorem writeIdx_lt {es : List Nat} {m : MainLoop} (h : MainLoop.Watches shm d es m)
    {t : Nat} (hlast : ∀ u ∈ m.captured, u ≤ t) (ht : t < (2 ^ 32 - 1) * blindCounts.toNat) :
    m.captured.length < 2 ^ 32 ∧ m.pru.shm.writeIdx.toNat = m.captured.length := by
  have hb : blindCounts.toNat = 10000000 := by decide
  have hlen := length_of_apart h.apart (fun u _ => Nat.zero_le u) hlast
  have hidx : m.pru.shm.writeIdx = 0 + UInt32.ofNat m.captured.length := by
    rw [h.pru, writeIdx_captures, List.length_map]
    rfl
  have hlt : m.captured.length < 2 ^ 32 := by
    rw [hb] at ht hlen
    omega
  refine ⟨hlt, ?_⟩
  rw [hidx, UInt32.zero_add, UInt32.toNat_ofNat']
  exact Nat.mod_eq_of_lt hlt

theorem follows_capture (h : Follows shm d p main s old new batches unread) {t : Nat}
    {es : List Nat} (hwatches : MainLoop.Watches shm d es (s.main.step (.check t)))
    (hpru : (s.main.step (.check t)).pru = s.main.pru.capture (iepCount t))
    (hcaptured : (s.main.step (.check t)).captured = s.main.captured ++ [t])
    (hin : InTime d p s (.pru (.check t))) :
    ∃ e, Follows shm d p main (s.step (.pru (.check t))) old (new ++ [t]) batches
      (unread ++ [e]) := by
  obtain ⟨htime, hpolled, hrecent, hbound⟩ := hin
  change s.polled ≤ t at hpolled
  change t ≤ s.polled + p at hrecent
  obtain ⟨es', hbefore⟩ := h.watches
  have hidx : s.main.pru.shm.writeIdx.toNat + 1 < 2 ^ 32 := by
    have hchecked := MainLoop.captured_checked hwatches
    have hafter := (writeIdx_lt hwatches hchecked hbound).1
    have hearlier : ∀ u ∈ s.main.captured, u ≤ t := by
      intro u hu
      apply hchecked
      rw [hcaptured]
      exact List.mem_append_left _ hu
    have hnow := (writeIdx_lt hbefore hearlier hbound).2
    rw [hcaptured, List.length_append, List.length_singleton] at hafter
    omega
  let e : PruEventT := ⟨evtSof, 0, s.main.pru.seq, (iepToNs s.main.pru.shm (iepCount t)).1, 0⟩
  refine ⟨e, ⟨es, hwatches⟩, ?_, ?_, ?_, ?_, ?_, ?_, h.yields, ?_⟩
  · change (s.main.step (.check t)).captured = _
    rw [hcaptured, h.captured, List.append_assoc, List.append_assoc]
  · change (s.main.step (.check t)).pru = _
    have hsplit : (old ++ (new ++ [t])).map iepCount = (old ++ new).map iepCount ++ [iepCount t] := by
      rw [← List.append_assoc, List.map_append]
      rfl
    rw [hpru, h.pru, hsplit, List.foldl_append]
    rfl
  · rw [← List.append_assoc, written_concat, ← h.pru, h.written, List.append_assoc]
  · rw [List.length_append, List.length_append, h.length]
    rfl
  · intro u hu
    obtain hold | hnew := List.mem_append.mp hu
    · exact h.since u hold
    · rw [List.mem_singleton.mp hnew]
      exact hpolled
  · intro u hu
    obtain hold | hnew := List.mem_append.mp hu
    · exact h.recent u hold
    · rw [List.mem_singleton.mp hnew]
      exact hrecent
  · -- the private header fields are not read by the reader
    let counted : Pipeline :=
      ⟨⟨(iepToNs s.main.pru.shm (iepCount t)).2, s.main.pru.seq⟩, s.reader, s.path.session⟩
    have hcounted : Queued unread counted :=
      ⟨⟨h.queued.sane.cursor, h.queued.sane.known⟩, h.queued.index, h.queued.holds, h.queued.sofs⟩
    have hqueued := queued_capture hcounted hidx (iepToNs s.main.pru.shm (iepCount t)).1
    exact queued_congr hqueued hpru rfl

theorem follows_room (h : Follows shm d p main s old new batches unread)
    (hp : p < 256 * blindCounts.toNat) : unread.length ≤ 256 := by
  have hb : blindCounts.toNat = 10000000 := by decide
  obtain ⟨es, hwatches⟩ := h.watches
  have hapart := hwatches.apart
  rw [h.captured] at hapart
  have hnew := (List.pairwise_append.mp (List.pairwise_append.mp hapart).2.1).2.1
  have hlen := length_of_apart hnew h.since h.recent
  rw [h.length]
  rw [hb] at hp hlen
  omega

theorem yields_poll (h : Follows shm d p main s old new batches unread)
    (hp : p < 256 * blindCounts.toNat) (nowNs : Int) :
    Yields (nowNs, (s.path.drainAt nowNs).yielded) unread := by
  refine ⟨_, (queued_drain h.queued (follows_room h hp) nowNs 0).1, fun e he hpos => ?_⟩
  have hlatest := latest_eq h.queued he
  have hidx := h.queued.index
  have hne : 0 < unread.length := by
    apply List.length_pos_of_ne_nil
    rintro rfl
    cases he
  have hlt : s.reader.readIdx < s.main.pru.shm.writeIdx.toNat := by
    change s.main.pru.shm.writeIdx.toNat = s.reader.readIdx + _ at hidx
    omega
  change latestPruNs s.main.pru.shm = _ at hlatest
  have hoff := prepare_offset hlt (hlatest ▸ Int.natCast_pos.mpr hpos) nowNs
  rw [hlatest] at hoff
  exact hoff

theorem follows_poll (h : Follows shm d p main s old new batches unread)
    (hp : p < 256 * blindCounts.toNat) (t : Nat) (nowNs : Int) :
    Follows shm d p main (s.step (.poll t nowNs)) (old ++ new) [] (batches ++ [unread]) [] := by
  have hqueued := (queued_drain h.queued (follows_room h hp) nowNs 0).2
  refine ⟨h.watches, ?_, ?_, ?_, rfl, nofun, nofun, ?_, queued_congr hqueued rfl rfl⟩
  · rw [List.append_nil]
    exact h.captured
  · rw [List.append_nil]
    exact h.pru
  · rw [List.append_nil, h.written, List.flatten_append, List.flatten_singleton, List.append_nil]
  · exact List.rel_append h.yields (.cons (yields_poll h hp nowNs) .nil)

theorem follows_pru (h : Follows shm d p main s old new batches unread)
    (hd : blindCounts.toNat + d ≤ 2 ^ 32) {a : MainLoop.Act} (hin : InTime d p s (.pru a)) :
    ∃ new unread, Follows shm d p main (s.step (.pru a)) old new batches unread := by
  obtain ⟨es, hwatches⟩ := h.watches
  have hnext := MainLoop.watches_step hwatches hd hin.1
  cases a with
  | edge t => exact ⟨_, _, follows_same h hnext rfl rfl⟩
  | check t =>
    obtain ⟨hpru, hcaptured⟩ | ⟨hpru, hcaptured⟩ := check_cases s.main t
    · exact ⟨_, _, follows_same h hnext hpru hcaptured⟩
    · obtain ⟨e, hfollows⟩ := follows_capture h hnext hpru hcaptured hin
      exact ⟨_, _, hfollows⟩

theorem follows_step (h : Follows shm d p main s old new batches unread)
    (hd : blindCounts.toNat + d ≤ 2 ^ 32) (hp : p < 256 * blindCounts.toNat) {a : Act}
    (hin : InTime d p s a) :
    ∃ old new batches unread, Follows shm d p main (s.step a) old new batches unread := by
  cases a with
  | poll t nowNs => exact ⟨_, _, _, _, follows_poll h hp t nowNs⟩
  | pru a =>
    obtain ⟨new, unread, hfollows⟩ := follows_pru h hd hin
    exact ⟨_, _, _, _, hfollows⟩

theorem follows_run (h : Follows shm d p main s old new batches unread)
    (hd : blindCounts.toNat + d ≤ 2 ^ 32) (hp : p < 256 * blindCounts.toNat) {acts : List Act}
    (htime : Trace.AllSteps step (InTime d p) s acts) :
    ∃ old new batches unread, Follows shm d p main (s.run acts) old new batches unread := by
  induction acts generalizing s old new batches unread with
  | nil => exact ⟨_, _, _, _, h⟩
  | cons a acts ih =>
    obtain ⟨old, new, batches, unread, hnext⟩ := follows_step h hd hp htime.1
    exact ih hnext htime.2

theorem main_run (s : Watched) (acts : List Act) :
    (s.run acts).main = (pruActs acts).foldl MainLoop.step s.main := by
  induction acts generalizing s with
  | nil => rfl
  | cons a acts ih =>
    cases a with
    | pru a => exact ih (s.step (.pru a))
    | poll t nowNs => exact ih (s.step (.poll t nowNs))

/-- If a reader that is made at any time polls often enough that a poll is never 2.56 s ago, then
the polls yield each capture since then once, in order, those of one poll all with one offset, so
that their distances stay what the firmware recorded; what has not been yielded yet is still in the
ring. -/
theorem polls_take_all (shm : PruShmT) (d p : Nat) (hd : blindCounts.toNat + d ≤ 2 ^ 32)
    (hp : p < 256 * blindCounts.toNat) (pre : List MainLoop.Act)
    (hpre : Trace.AllSteps MainLoop.step (MainLoop.InTime d) (.start shm) pre) (reader : PruShm)
    (polled : Nat) (nowNs : Int)
    (hinit : PruShm.init (MainLoop.run shm pre).pru.shm nowNs = some reader) (acts : List Act)
    (htime : Trace.AllSteps step (InTime d p) ⟨MainLoop.run shm pre, reader, polled, []⟩ acts) :
    let main := MainLoop.run shm pre
    let s := run ⟨main, reader, polled, []⟩ acts
    s.main = MainLoop.run shm (pre ++ pruActs acts) ∧
    ∃ since batches unread, s.main.captured = main.captured ++ since ∧
      written main.pru since = batches.flatten ++ unread ∧
      List.Forall₂ Yields s.drained batches ∧
      unread.length ≤ 256 ∧ Holds s.main.pru.shm.ring s.reader.readIdx unread := by
  intro main s
  have hstart : Follows shm d p main ⟨main, reader, polled, []⟩ [] [] [] [] :=
    follows_init (MainLoop.watches_run shm hd hpre) hinit polled
  obtain ⟨old, new, batches, unread, h⟩ := follows_run hstart hd hp htime
  refine ⟨?_, old ++ new, batches, unread, h.captured, h.written, h.yields, follows_room h hp,
    h.queued.holds⟩
  rw [main_run, MainLoop.run, List.foldl_append]
  rfl

def twoMore : List Act :=
  [.pru (.check 31000000), .pru (.edge 32000000), .pru (.check 33000000),
    .poll 34000000 1700000000034000000, .pru (.check 43000000), .pru (.edge 44000000),
    .pru (.check 45000000)]

theorem polls_take_all_twoMore :
    let main := MainLoop.run MainLoop.ringOff MainLoop.twoFrames
    let s := run ⟨main, ⟨2, 1700000000000000000⟩, 22000000, []⟩ twoMore
    (s.drained.map (·.2.length) = [1] ∧ s.main.captured.length = main.captured.length + 2) ∧
    s.main = MainLoop.run MainLoop.ringOff (MainLoop.twoFrames ++ pruActs twoMore) ∧
    ∃ since batches unread, s.main.captured = main.captured ++ since ∧
      written main.pru since = batches.flatten ++ unread ∧
      List.Forall₂ Yields s.drained batches ∧
      unread.length ≤ 256 ∧ Holds s.main.pru.shm.ring s.reader.readIdx unread :=
  ⟨by decide +kernel,
    polls_take_all MainLoop.ringOff 10000000 2000000000 (by decide) (by decide) MainLoop.twoFrames
      (by decide +kernel) ⟨2, 1700000000000000000⟩ 22000000 1700000000021000000 (by decide +kernel)
      twoMore (by decide +kernel)⟩

end Watched
end CanSniffer
