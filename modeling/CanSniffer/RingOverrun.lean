import CanSniffer.DrainProgress

namespace CanSniffer.RingOverrun

open Library.RingSlots Library.Trace Models Firmware PruShm RingHistory DrainProgress

/-- The events written in a history, in order. -/
def written (ls : List Label) : List PruEventT :=
  ls.filterMap fun
    | .wrote type seq tFallNs pulseNs => some ⟨typeCode type, 0, seq, tFallNs, pulseNs⟩
    | _ => none

/-- The events yielded in a history can be attributed to positions in the sequence of
written events: `seen` lists the positions yielded so far. They are yielded in increasing
order, so none twice, and each `drain` leaves none unseen among the last 256. -/
inductive Delivered : List Label → List Nat → Prop
  | nil : Delivered [] []
  | wrote {ls : List Label} {seen : List Nat} (type : PruEventType) (seq : UInt16)
      (tFallNs : UInt64) (pulseNs : UInt32) :
      Delivered ls seen → Delivered (ls ++ [.wrote type seq tFallNs pulseNs]) seen
  | drained {ls : List Label} {seen : List Nat} (ids : List Nat) (nowNs off : Int)
      (events : List PruEvent) : Delivered ls seen →
      events.map some = ids.map (fun k => (written ls)[k]?.bind (decodeEvent · off)) →
      (seen ++ ids).Pairwise (· < ·) →
      (∀ k < (written ls).length, (written ls).length ≤ k + 256 → k ∈ seen ++ ids) →
      Delivered (ls ++ [.drained nowNs events]) (seen ++ ids)

/-- At a `drain`, at most a ring's depth of events is unread. -/
def BacklogFits (r : SharedRing) : Label → Prop
  | .drained _ _ => r.shm.writeIdx.toNat ≤ r.reader.readIdx + 256
  | _ => True

def GuardedStep (r : SharedRing) (l : Label) (r' : SharedRing) : Prop := Step r l r' ∧ BacklogFits r l

/-- The index counts the written events, the ring holds the newest of them, and the
reader has seen exactly those before its cursor. -/
structure Tracks (base : Nat) (ls : List Label) (m : Nat) (r : SharedRing) : Prop where
  sane : Sane r
  index : r.shm.writeIdx.toNat = base + (written ls).length
  holds : Holds r.shm.ring base (written ls)
  le : m ≤ (written ls).length
  cursor : r.reader.readIdx = base + m
  delivered : Delivered ls (List.range m)

theorem map_some_filterMap {α β : Type} (f : α → Option β) (l : List α)
    (h : ∀ a ∈ l, (f a).isSome) : (l.filterMap f).map some = l.map f := by
  induction l with
  | nil => rfl
  | cons a l ih =>
    obtain ⟨b, hb⟩ := Option.isSome_iff_exists.mp (h a List.mem_cons_self)
    simp [hb, ih fun a ha => h a (List.mem_cons_of_mem _ ha)]

theorem range_split {m n : Nat} (h : m ≤ n) :
    List.range m ++ List.range' m (n - m) = List.range n := by
  have ha := List.range'_append_1 (s := 0) (m := m) (n := n - m)
  rwa [Nat.zero_add, show m + (n - m) = n by omega, ← List.range_eq_range',
    ← List.range_eq_range'] at ha

theorem written_wrote (ls : List Label) (type : PruEventType) (seq : UInt16) (tFallNs : UInt64)
    (pulseNs : UInt32) :
    written (ls ++ [.wrote type seq tFallNs pulseNs]) =
      written ls ++ [⟨typeCode type, 0, seq, tFallNs, pulseNs⟩] := by
  simp [written, List.filterMap_append]

theorem written_drained (ls : List Label) (nowNs : Int) (events : List PruEvent) :
    written (ls ++ [.drained nowNs events]) = written ls := by
  simp [written, List.filterMap_append]

theorem tracks_init {shm : PruShmT} {nowNs : Int} {reader : PruShm}
    (h : PruShm.init shm nowNs = some reader) : Tracks shm.writeIdx.toNat [] 0 ⟨shm, reader⟩ := by
  obtain ⟨hs, hidx⟩ := init_sane h
  exact ⟨hs, rfl, holds_nil _ _, le_rfl, hidx, .nil⟩

theorem tracks_write {base : Nat} {ls : List Label} {m : Nat} {r : SharedRing}
    (h : Tracks base ls m r) (hw : base + (written ls).length + 1 < 2 ^ 32)
    (type : PruEventType) (seq : UInt16) (tFallNs : UInt64) (pulseNs : UInt32) :
    Tracks base (ls ++ [.wrote type seq tFallNs pulseNs]) m
      ⟨writeEvent r.shm (typeCode type) seq tFallNs pulseNs, r.reader⟩ := by
  have hsane := write_sane h.sane type seq tFallNs pulseNs
  have hidx := h.index
  have hle := h.le
  rw [writeEvent_eq] at hsane ⊢
  refine ⟨hsane, ?_, ?_, ?_, h.cursor, .wrote type seq tFallNs pulseNs h.delivered⟩
  · simp only [written_wrote, UInt32.toNat_add, UInt32.reduceToNat, List.length_append,
      List.length_singleton]
    omega
  · rw [written_wrote]
    simpa only [hidx] using holds_put h.holds ⟨typeCode type, 0, seq, tFallNs, pulseNs⟩
  · simp only [written_wrote, List.length_append, List.length_singleton]
    omega

theorem map_getElem?_range' {α β : Type} (f : α → Option β) (l : List α) {m : Nat}
    (h : m ≤ l.length) :
    (List.range' m (l.length - m)).map (fun k => l[k]?.bind f) = (l.drop m).map f := by
  apply List.ext_getElem (by simp)
  intro i hi hi'
  simp only [List.length_map, List.length_range'] at hi
  rw [List.getElem_map, List.getElem_map, List.getElem_drop, List.getElem_range', Nat.one_mul,
    List.getElem?_eq_getElem (by omega), Option.bind_some]

theorem drain_yields {base : Nat} {ls : List Label} {m : Nat} {r : SharedRing}
    (h : Tracks base ls m r) (nowNs : Int) (fuel : Nat)
    (hend : (drain fuel r.shm nowNs r.reader).Ended r.shm)
    (hback : r.shm.writeIdx.toNat ≤ r.reader.readIdx + 256) :
    (drain fuel r.shm nowNs r.reader).yielded.map some =
      ((written ls).drop m).map
        (decodeEvent · (r.reader.prepare r.shm nowNs).epochOffsetNs) := by
  have hidx := h.index
  have hcur := h.cursor
  have hle := h.le
  obtain ⟨-, hd⟩ := drain_of_le h.sane (by omega) nowNs
  rw [drain_unique hend (ended_of_exit hd), hd]
  set off := (r.reader.prepare r.shm nowNs).epochOffsetNs
  have hread : ∀ k ∈ List.range' m ((written ls).length - m),
      decodeEvent (r.shm.ring (slot 256 (base + k))) off =
        (written ls)[k]?.bind (decodeEvent · off) := by
    intro k hk
    rw [List.mem_range'_1] at hk
    rw [h.holds k (by omega) (by omega), List.getElem?_eq_getElem (by omega), Option.bind_some]
  have hshift : List.range' r.reader.readIdx (r.shm.writeIdx.toNat - r.reader.readIdx) =
      (List.range' m ((written ls).length - m)).map (base + ·) := by
    rw [List.map_add_range', hcur, hidx,
      show base + (written ls).length - (base + m) = (written ls).length - m by omega]
  rw [map_some_filterMap, hshift, List.map_map, ← map_getElem?_range' _ _ hle]
  · exact List.map_congr_left hread
  · intro i hi
    rw [List.mem_range'_1] at hi
    obtain ⟨type, ht⟩ := h.sane.known i hi.1 (by omega)
    exact decodeEvent_isSome ht off

theorem tracks_drain {base : Nat} {ls : List Label} {m : Nat} {r : SharedRing}
    (h : Tracks base ls m r) (nowNs : Int) (fuel : Nat)
    (hend : (drain fuel r.shm nowNs r.reader).Ended r.shm)
    (hback : r.shm.writeIdx.toNat ≤ r.reader.readIdx + 256) :
    Tracks base (ls ++ [.drained nowNs (drain fuel r.shm nowNs r.reader).yielded])
      (written ls).length ⟨r.shm, (drain fuel r.shm nowNs r.reader).reader⟩ := by
  have hyields := drain_yields h nowNs fuel hend hback
  have hseen := range_split h.le
  rw [← map_getElem?_range' _ _ h.le] at hyields
  have hidx := h.index
  refine ⟨drain_catches_up hend, ?_, ?_, ?_, ?_, ?_⟩
  · rwa [written_drained]
  · rw [written_drained]
    exact h.holds
  · rw [written_drained]
  · exact (ended_readIdx hend).trans hidx
  · rw [← hseen]
    apply Delivered.drained _ nowNs _ _ h.delivered hyields
    · rw [hseen]
      exact List.pairwise_lt_range
    · intro k hk _
      rw [hseen]
      exact List.mem_range.mpr hk

theorem guarded_tracks {shm : PruShmT} {nowNs : Int} {reader : PruShm} {ls : List Label}
    {r : SharedRing} (hinit : PruShm.init shm nowNs = some reader)
    (hrun : Run GuardedStep ⟨shm, reader⟩ ls r) (hrestart : .restarted ∉ ls)
    (hidx : shm.writeIdx.toNat + (written ls).length < 2 ^ 32) :
    ∃ m, Tracks shm.writeIdx.toNat ls m r := by
  induction hrun with
  | nil => exact ⟨0, tracks_init hinit⟩
  | snoc _ hstep ih =>
    rw [List.mem_append, not_or] at hrestart
    obtain ⟨hstep, hback⟩ := hstep
    cases hstep with
    | write type seq tFallNs pulseNs =>
      rw [written_wrote, List.length_append, List.length_singleton] at hidx
      obtain ⟨m, ht⟩ := ih hrestart.1 (by omega)
      exact ⟨m, tracks_write ht (by omega) type seq tFallNs pulseNs⟩
    | restart => simp at hrestart
    | drain nowNs fuel hend =>
      rw [written_drained] at hidx
      obtain ⟨m, ht⟩ := ih hrestart.1 hidx
      exact ⟨_, tracks_drain ht nowNs fuel hend hback⟩

/-- While no `drain` finds more than a ring's depth unread, every written event is
yielded at most once and in order, nothing still in the ring is missed, and the next
`drain` ends. -/
theorem drains_deliver_within_depth (shm : PruShmT) (nowNs : Int) (reader : PruShm)
    (ls : List Label) (r : SharedRing) (hinit : PruShm.init shm nowNs = some reader)
    (hrun : Run GuardedStep ⟨shm, reader⟩ ls r) (hrestart : .restarted ∉ ls)
    (hidx : shm.writeIdx.toNat + (written ls).length < 2 ^ 32) :
    (∃ seen, Delivered ls seen) ∧ ∀ nextNs, CatchesUp r nextNs := by
  obtain ⟨m, ht⟩ := guarded_tracks hinit hrun hrestart hidx
  have hle : r.reader.readIdx ≤ r.shm.writeIdx.toNat := by
    have := ht.le
    rw [ht.cursor, ht.index]
    omega
  exact ⟨⟨_, ht.delivered⟩, fun nextNs => catches_up_of_le ht.sane hle nextNs⟩

theorem guardedStep_drain {r : SharedRing} {nowNs : Int} {d : Drain} (fuel : Nat)
    (hd : drain fuel r.shm nowNs r.reader = d) (hend : d.Ended r.shm)
    (hback : r.shm.writeIdx.toNat ≤ r.reader.readIdx + 256) :
    GuardedStep r (.drained nowNs d.yielded) ⟨r.shm, d.reader⟩ := by
  subst hd
  exact ⟨.drain r nowNs fuel hend, hback⟩

/-- Two events that one `drain` reads, and a third for the next. -/
def threeEvents : List Label :=
  [.wrote .sof 0 1000 0, .wrote .sof 1 2000 0,
    .drained 4000 [⟨.sof, 0, 0, 3000, 0⟩, ⟨.sof, 0, 1, 4000, 0⟩],
    .wrote .sof 2 3000 0, .drained 5600 [⟨.sof, 0, 2, 5600, 0⟩]]

theorem threeEvents_reached : ∃ r, Run GuardedStep ⟨idleMemory, ⟨0, 500⟩⟩ threeEvents r := by
  let backlog : SharedRing := ⟨writeEvent afterFirst.shm (typeCode .sof) 1 2000 0, ⟨0, 500⟩⟩
  let later : SharedRing := ⟨writeEvent backlog.shm (typeCode .sof) 2 3000 0, ⟨2, 2000⟩⟩
  have hfirst : GuardedStep backlog
      (.drained 4000 [⟨.sof, 0, 0, 3000, 0⟩, ⟨.sof, 0, 1, 4000, 0⟩]) ⟨backlog.shm, ⟨2, 2000⟩⟩ :=
    guardedStep_drain (d := ⟨⟨2, 2000⟩, [⟨.sof, 0, 0, 3000, 0⟩, ⟨.sof, 0, 1, 4000, 0⟩], false⟩) 2
      (by decide) (by constructor <;> decide) (by decide)
  have hsecond : GuardedStep later (.drained 5600 [⟨.sof, 0, 2, 5600, 0⟩])
      ⟨later.shm, ⟨3, 2600⟩⟩ :=
    guardedStep_drain (d := ⟨⟨3, 2600⟩, [⟨.sof, 0, 2, 5600, 0⟩], false⟩) 1 (by decide)
      (by constructor <;> decide) (by decide)
  have hwritten : Run GuardedStep ⟨idleMemory, ⟨0, 500⟩⟩ [.wrote .sof 0 1000 0, .wrote .sof 1 2000 0]
      backlog :=
    (Run.nil.snoc ⟨.write _ .sof 0 1000 0, trivial⟩).snoc ⟨.write _ .sof 1 2000 0, trivial⟩
  exact ⟨_, ((hwritten.snoc hfirst).snoc ⟨.write _ .sof 2 3000 0, trivial⟩).snoc hsecond⟩

theorem threeEvents_delivered :
    ∃ r, Run GuardedStep ⟨idleMemory, ⟨0, 500⟩⟩ threeEvents r ∧
      (∃ seen, Delivered threeEvents seen) ∧ ∀ nextNs, CatchesUp r nextNs := by
  obtain ⟨r, hrun⟩ := threeEvents_reached
  exact ⟨r, hrun, drains_deliver_within_depth idleMemory 500 ⟨0, 500⟩ threeEvents r (by decide) hrun
    (by decide) (by decide)⟩

/-- A stalled backend: `n` numbered events are written and none is drained. -/
def stalled (n : Nat) : List Label :=
  (List.range n).map fun k => .wrote .sof (UInt16.ofNat k) (UInt64.ofNat (1000 + k)) 0

theorem stalled_succ (n : Nat) : stalled (n + 1) =
    stalled n ++ [.wrote .sof (UInt16.ofNat n) (UInt64.ofNat (1000 + n)) 0] := by
  simp [stalled, List.range_succ]

theorem written_stalled (n : Nat) : written (stalled n) =
    (List.range n).map fun k => ⟨evtSof, 0, UInt16.ofNat k, UInt64.ofNat (1000 + k), 0⟩ := by
  induction n with
  | zero => rfl
  | succ n ih => rw [stalled_succ, written_wrote, ih, List.range_succ, List.map_append]; rfl

theorem stalled_reached {n : Nat} (hn : n < 2 ^ 32) :
    ∃ r, Run Step ⟨idleMemory, ⟨0, 500⟩⟩ (stalled n) r ∧ Tracks 0 (stalled n) 0 r := by
  induction n with
  | zero =>
    have hinit : PruShm.init idleMemory 500 = some ⟨0, 500⟩ := by decide
    have ht := tracks_init hinit
    exact ⟨_, .nil, ht⟩
  | succ n ih =>
    obtain ⟨r, hrun, ht⟩ := ih (by omega)
    rw [stalled_succ]
    exact ⟨_, .snoc hrun (.write r .sof _ _ 0),
      tracks_write ht (by simp [written_stalled]; omega) .sof _ _ 0⟩

theorem delivered_drained {ls : List Label} {nowNs : Int} {events : List PruEvent} {seen : List Nat}
    (h : Delivered (ls ++ [.drained nowNs events]) seen) :
    ∃ (ids : List Nat) (off : Int), ids.Pairwise (· < ·) ∧
      events.map some = ids.map fun k => (written ls)[k]?.bind (decodeEvent · off) := by
  generalize hl : ls ++ [.drained nowNs events] = l at h
  cases h with
  | nil => simp at hl
  | wrote type seq tFallNs pulseNs h => simp at hl
  | drained ids nowNs off events h hev hlt hall =>
    obtain ⟨rfl, hd⟩ := List.append_inj' hl rfl
    simp only [List.cons.injEq, Label.drained.injEq, and_true] at hd
    rw [← hd.2] at hev
    exact ⟨ids, off, (List.pairwise_append.mp hlt).2.1, hev⟩

theorem seq_of_stalled {n k : Nat} {off : Int} {e : PruEvent} (hn : n ≤ 2 ^ 16)
    (h : (written (stalled n))[k]?.bind (decodeEvent · off) = some e) : e.seq = k := by
  rw [written_stalled, List.getElem?_map, Option.bind_eq_some_iff] at h
  obtain ⟨raw, hraw, hdec⟩ := h
  obtain ⟨i, hi, rfl⟩ := Option.map_eq_some_iff.mp hraw
  obtain ⟨hlt, rfl⟩ := List.getElem?_eq_some_iff.mp hi
  simp only [List.length_range] at hlt
  obtain ⟨type, -, rfl⟩ := Option.map_eq_some_iff.mp hdec
  simp only [List.getElem_range, UInt16.toNat_ofNat']
  omega

/-- After 257 writes the slot of event 0 holds event 256, which one `drain` then
yields first and again last. -/
theorem overrun_replays_an_event :
    ∃ events r, Reaches (stalled 257 ++ [.drained 9000 events]) r ∧
      ¬ ∃ seen, Delivered (stalled 257 ++ [.drained 9000 events]) seen := by
  obtain ⟨r, hrun, ht⟩ := stalled_reached (n := 257) (by decide)
  have hidx : r.shm.writeIdx.toNat = 257 := by rw [ht.index, written_stalled]; simp
  have hcur : r.reader.readIdx = 0 := ht.cursor
  obtain ⟨-, hd⟩ := drain_of_le ht.sane (by omega) 9000
  refine ⟨_, _, ⟨idleMemory, 500, ⟨0, 500⟩, by decide,
    .snoc hrun (.drain r 9000 _ (ended_of_exit hd))⟩, ?_⟩
  rintro ⟨seen, hdel⟩
  obtain ⟨ids, off, hlt, hev⟩ := delivered_drained hdel
  set raw := (r.reader.prepare r.shm 9000).epochOffsetNs
  rw [hd, map_some_filterMap, hcur, hidx] at hev
  · -- entries 0 and 256 of the yielded list come from the same slot
    have hlen : ids.length = 257 := by simpa using (congrArg List.length hev).symm
    have hslot : slot 256 0 = slot 256 256 := by decide
    have hget : ∀ i (h : i < ids.length), decodeEvent (r.shm.ring (slot 256 i)) raw =
        (written (stalled 257))[ids[i]]?.bind (decodeEvent · off) := by
      intro i h
      have hi := congrArg (·[i]?) hev
      simpa [List.getElem?_range', h, show i < 257 by omega] using hi
    have htype : (r.shm.ring (slot 256 0)).type = typeCode .sof := by
      rw [hslot]
      have hh := ht.holds 256 (by simp [written_stalled]) (by simp [written_stalled])
      simp only [Nat.zero_add] at hh
      rw [hh]
      simp [written_stalled, evtSof, typeCode, PruEventType.value]
    obtain ⟨e, he⟩ := Option.isSome_iff_exists.mp (decodeEvent_isSome htype raw)
    have h0 := seq_of_stalled (by decide) ((hget 0 (by omega)).symm.trans he)
    have h256 := seq_of_stalled (by decide) ((hget 256 (by omega)).symm.trans (hslot ▸ he))
    have := List.pairwise_iff_getElem.mp hlt 0 256 (by omega) (by omega) (by decide)
    omega
  · intro i hi
    rw [List.mem_range'_1] at hi
    obtain ⟨type, hk⟩ := ht.sane.known i hi.1 (by omega)
    exact decodeEvent_isSome hk raw

end CanSniffer.RingOverrun
