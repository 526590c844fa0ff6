import CanSniffer.RingOverrun

namespace CanSniffer.Recalibration

open Library.RingSlots Library.Trace Models Firmware PruShm RingHistory DrainProgress RingOverrun

/-- When a step happened, in Unix time that is `k` ahead of the firmware's. An event is
published at the instant it is captured. -/
def instant (k : Int) : Label → Option Int
  | .wrote _ _ tFallNs _ => some (tFallNs.toNat + k)
  | .drained nowNs _ => some nowNs
  | .restarted => none

/-- The steps follow one another on the two clocks, which never drift apart. -/
structure IdealClocks (k : Int) (ls : List Label) : Prop where
  ordered : (ls.filterMap (instant k)).Pairwise (· ≤ ·)
  increasing : (written ls).Pairwise fun e f => e.tFallNs.toNat < f.tFallNs.toNat
  positive : ∀ e ∈ written ls, 0 < e.tFallNs.toNat

/-- The events written since the last `drain`. -/
def unread (ls : List Label) : List PruEventT :=
  ls.foldl (fun events => fun
    | .wrote type seq tFallNs pulseNs => events ++ [⟨typeCode type, 0, seq, tFallNs, pulseNs⟩]
    | .drained _ _ => []
    | .restarted => events) []

def yielded (ls : List Label) : List PruEvent :=
  ls.flatMap fun
    | .drained _ events => events
    | .wrote _ _ _ _ | .restarted => []

/-- What a `drain` at `nowNs` yields for the events `raw`: their differences are the
firmware's, and no event is dated before its true time or after the drain. -/
structure Calibrated (k nowNs : Int) (raw : List PruEventT) (events : List PruEvent) : Prop where
  length_eq : events.length = raw.length
  differences : ∀ (i j : Nat) (e f : PruEventT) (y z : PruEvent), raw[i]? = some e →
    raw[j]? = some f → events[i]? = some y → events[j]? = some z →
    z.tFallNs - y.tFallNs = (f.tFallNs.toNat : Int) - e.tFallNs.toNat
  bounds : ∀ (i : Nat) (e : PruEventT) (y : PruEvent), raw[i]? = some e → events[i]? = some y →
    (e.tFallNs.toNat : Int) + k ≤ y.tFallNs ∧ y.tFallNs ≤ nowNs

variable {k : Int} {ls : List Label} {base m : Nat} {r : SharedRing}

section

variable (ls : List Label) (type : PruEventType) (seq : UInt16) (tFallNs : UInt64)
  (pulseNs : UInt32)
  (nowNs : Int) (events : List PruEvent)

@[simp] theorem unread_wrote : unread (ls ++ [.wrote type seq tFallNs pulseNs]) =
    unread ls ++ [⟨typeCode type, 0, seq, tFallNs, pulseNs⟩] := by
  simp [unread]

@[simp] theorem unread_drained : unread (ls ++ [.drained nowNs events]) = [] := by
  simp [unread]

@[simp] theorem yielded_wrote : yielded (ls ++ [.wrote type seq tFallNs pulseNs]) = yielded ls := by
  simp [yielded]

@[simp] theorem yielded_drained :
    yielded (ls ++ [.drained nowNs events]) = yielded ls ++ events := by
  simp [yielded]

end

theorem decodeEvent_tFallNs {e : PruEventT} {off : Int} {y : PruEvent}
    (h : decodeEvent e off = some y) : y.tFallNs = e.tFallNs.toNat + off := by
  obtain ⟨type, -, rfl⟩ := Option.map_eq_some_iff.mp h
  rfl

theorem prepare_offset {p : PruShm} {shm : PruShmT} (hr : p.readIdx < shm.writeIdx.toNat)
    (hlatest : 0 < latestPruNs shm) (nowNs : Int) :
    (p.prepare shm nowNs).epochOffsetNs = nowNs - latestPruNs shm := by
  have hkeep : p.detectRestart shm nowNs = p := by
    rw [detectRestart]
    split_ifs
    · rfl
    · omega
    · rfl
  rw [prepare, hkeep, recalibrate, if_pos (by omega)]
  dsimp only
  rw [if_pos hlatest]

theorem latestPruNs_eq (h : Tracks base ls m r) {e : PruEventT}
    (he : (written ls).getLast? = some e) :
    latestPruNs r.shm = e.tFallNs.toNat := by
  obtain ⟨before, hw⟩ := List.getLast?_eq_some_iff.mp he
  have hlen : (written ls).length = before.length + 1 := by rw [hw, List.length_append]; rfl
  have hidx := h.index
  have hlt : before.length < (written ls).length := by omega
  have hlast : (written ls)[before.length] = e := by simp [hw]
  have hslot := h.holds before.length hlt (by omega)
  rw [latestPruNs, if_neg (by omega), unpackSlot_eq,
    show r.shm.writeIdx.toNat - 1 = base + before.length by omega, hslot, hlast]

theorem getElem_decoded {raw : List PruEventT} {events : List PruEvent} {off : Int}
    (h : events.map some = raw.map (decodeEvent · off)) {i : Nat} {e : PruEventT} {y : PruEvent}
    (he : raw[i]? = some e) (hy : events[i]? = some y) : y.tFallNs = e.tFallNs.toNat + off := by
  have hi := congrArg (·[i]?) h
  simp only [List.getElem?_map, he, hy, Option.map_some, Option.some.injEq] at hi
  exact decodeEvent_tFallNs hi.symm

theorem calibrated_of_offset {nowNs off : Int} {raw : List PruEventT} {events : List PruEvent}
    (h : events.map some = raw.map (decodeEvent · off))
    (hbounds : ∀ e ∈ raw, k ≤ off ∧ (e.tFallNs.toNat : Int) + off ≤ nowNs) :
    Calibrated k nowNs raw events where
  length_eq := by simpa using congrArg List.length h
  differences := by
    intro i j e f y z he hf hy hz
    rw [getElem_decoded h he hy, getElem_decoded h hf hz]
    omega
  bounds := by
    intro i e y he hy
    have hb := hbounds e (List.mem_of_getElem? he)
    rw [getElem_decoded h he hy]
    omega

/-- The events of one drain, with the offset between the two bounds that the newest event
gives: at least the true one, and no later than now. -/
theorem drain_calibrated (h : Tracks base ls m r) (hunread : unread ls = (written ls).drop m)
    (hclocks : IdealClocks k ls) {nowNs : Int} (hnow : ∀ i ∈ ls.filterMap (instant k), i ≤ nowNs)
    (hpast : ∀ e ∈ unread ls, (e.tFallNs.toNat : Int) + k ∈ ls.filterMap (instant k)) {fuel : Nat}
    (hend : (drain fuel r.shm nowNs r.reader).Ended r.shm)
    (hback : r.shm.writeIdx.toNat ≤ r.reader.readIdx + 256) :
    ∃ off, (drain fuel r.shm nowNs r.reader).yielded.map some =
        (unread ls).map (decodeEvent · off) ∧
      ∀ e ∈ unread ls, k ≤ off ∧ (e.tFallNs.toNat : Int) + off ≤ nowNs := by
  refine ⟨_, by rw [hunread]; exact drain_yields h nowNs fuel hend hback, fun e he => ?_⟩
  have hidx := h.index
  have hcur := h.cursor
  have hle := h.le
  have hmore : m < (written ls).length := by
    have hpos := List.length_pos_of_mem he
    rw [hunread, List.length_drop] at hpos
    omega
  have hne : written ls ≠ [] := List.ne_nil_of_length_pos (by omega)
  obtain ⟨newest, hnewest⟩ : ∃ e, (written ls).getLast? = some e :=
    ⟨_, List.getLast?_eq_some_getLast hne⟩
  obtain ⟨before, hw⟩ := List.getLast?_eq_some_iff.mp hnewest
  have hlatest := latestPruNs_eq h hnewest
  have hpos := hclocks.positive newest (by simp [hw])
  rw [prepare_offset (by omega) (by omega), hlatest]
  -- no unread event is newer than the newest, which was captured before the drain
  have hnewer : e.tFallNs.toNat ≤ newest.tFallNs.toNat := by
    have hmem : e ∈ written ls := List.mem_of_mem_drop (hunread ▸ he)
    have hinc := hclocks.increasing
    rw [hw] at hmem hinc
    obtain hmem | hmem := List.mem_append.mp hmem
    · exact ((List.pairwise_append.mp hinc).2.2 e hmem newest (by simp)).le
    · rw [List.mem_singleton.mp hmem]
  have hlast : newest ∈ unread ls := by
    rw [hw, List.length_append, List.length_singleton] at hmore
    rw [hunread, hw, List.drop_append_of_le_length (by omega)]
    simp
  have := hnow _ (hpast newest hlast)
  omega

structure Ordered (k : Int) (ls : List Label) : Prop where
  sorted : (yielded ls).Pairwise fun y z => y.tFallNs ≤ z.tFallNs
  behind : ∀ y ∈ yielded ls, ∃ i ∈ ls.filterMap (instant k), y.tFallNs ≤ i
  past : ∀ e ∈ unread ls, (e.tFallNs.toNat : Int) + k ∈ ls.filterMap (instant k)
  ahead : ∀ y ∈ yielded ls, ∀ e ∈ unread ls, y.tFallNs ≤ e.tFallNs.toNat + k

theorem idealClocks_of_snoc {l : Label} (h : IdealClocks k (ls ++ [l])) : IdealClocks k ls := by
  have hw : written (ls ++ [l]) = written ls ++ written [l] := by simp [written]
  refine ⟨?_, ?_, ?_⟩
  · have hord := h.ordered
    rw [List.filterMap_append] at hord
    exact (List.pairwise_append.mp hord).1
  · have hinc := h.increasing
    rw [hw] at hinc
    exact (List.pairwise_append.mp hinc).1
  · intro e he
    exact h.positive e (by rw [hw]; exact List.mem_append_left _ he)

theorem instant_le {l : Label} {j : Int} (h : IdealClocks k (ls ++ [l]))
    (hl : instant k l = some j) :
    ∀ i ∈ ls.filterMap (instant k), i ≤ j := by
  have hord := h.ordered
  rw [List.filterMap_append] at hord
  intro i hi
  exact (List.pairwise_append.mp hord).2.2 i hi j (by simp [hl])

theorem ordered_wrote (h : Ordered k ls) {type : PruEventType} {seq : UInt16} {tFallNs : UInt64}
    {pulseNs : UInt32} (hclocks : IdealClocks k (ls ++ [.wrote type seq tFallNs pulseNs])) :
    Ordered k (ls ++ [.wrote type seq tFallNs pulseNs]) := by
  have hlater := instant_le hclocks rfl
  refine ⟨?_, ?_, ?_, ?_⟩
  · simpa using h.sorted
  · intro y hy
    obtain ⟨i, hi, hyi⟩ := h.behind y (by simpa using hy)
    exact ⟨i, by rw [List.filterMap_append]; exact List.mem_append_left _ hi, hyi⟩
  · intro e he
    rw [List.filterMap_append]
    rw [unread_wrote] at he
    obtain he | he := List.mem_append.mp he
    · exact List.mem_append_left _ (h.past e he)
    · rw [List.mem_singleton.mp he]
      exact List.mem_append_right _ (by simp [instant])
  · intro y hy e he
    rw [yielded_wrote] at hy
    rw [unread_wrote] at he
    obtain he | he := List.mem_append.mp he
    · exact h.ahead y hy e he
    · obtain ⟨i, hi, hyi⟩ := h.behind y hy
      rw [List.mem_singleton.mp he]
      exact hyi.trans (hlater i hi)

theorem ordered_drained (h : Ordered k ls) {nowNs off : Int} {events : List PruEvent}
    (hdec : events.map some = (unread ls).map (decodeEvent · off))
    (hbounds : ∀ e ∈ unread ls, k ≤ off ∧ (e.tFallNs.toNat : Int) + off ≤ nowNs)
    (hinc : (unread ls).Pairwise fun e f => e.tFallNs.toNat < f.tFallNs.toNat) :
    Ordered k (ls ++ [.drained nowNs events]) := by
  have hsource : ∀ z ∈ events, ∃ e ∈ unread ls, z.tFallNs = e.tFallNs.toNat + off := by
    intro z hz
    have hmem : some z ∈ (unread ls).map (decodeEvent · off) := by
      rw [← hdec]
      exact List.mem_map_of_mem hz
    obtain ⟨e, he, hz⟩ := List.mem_map.mp hmem
    exact ⟨e, he, decodeEvent_tFallNs hz⟩
  have hnew : events.Pairwise fun y z => y.tFallNs ≤ z.tFallNs := by
    have hpair : (events.map some).Pairwise fun y z =>
        ∀ v ∈ y, ∀ w ∈ z, v.tFallNs ≤ w.tFallNs := by
      rw [hdec, List.pairwise_map]
      refine hinc.imp fun hef v hv w hw => ?_
      rw [decodeEvent_tFallNs hv, decodeEvent_tFallNs hw]
      omega
    rw [List.pairwise_map] at hpair
    exact hpair.imp fun hyz => hyz _ rfl _ rfl
  refine ⟨?_, ?_, ?_, ?_⟩
  · rw [yielded_drained]
    refine List.pairwise_append.mpr ⟨h.sorted, hnew, fun y hy z hz => ?_⟩
    obtain ⟨e, he, hze⟩ := hsource z hz
    have hye := h.ahead y hy e he
    have := (hbounds e he).1
    omega
  · intro y hy
    rw [List.filterMap_append]
    rw [yielded_drained] at hy
    obtain hy | hy := List.mem_append.mp hy
    · obtain ⟨i, hi, hyi⟩ := h.behind y hy
      exact ⟨i, List.mem_append_left _ hi, hyi⟩
    · obtain ⟨e, he, hye⟩ := hsource y hy
      have := (hbounds e he).2
      exact ⟨nowNs, by simp [instant], by omega⟩
  · simp
  · simp

def AllCalibrated (k : Int) (ls : List Label) : Prop :=
  ∀ pre nowNs events post, ls = pre ++ .drained nowNs events :: post →
    Calibrated k nowNs (unread pre) events

theorem allCalibrated_snoc {l : Label} (h : AllCalibrated k ls)
    (hl : ∀ nowNs events, l = .drained nowNs events → Calibrated k nowNs (unread ls) events) :
    AllCalibrated k (ls ++ [l]) := by
  intro pre nowNs events post hsplit
  obtain rfl | ⟨init, last, rfl⟩ := List.eq_nil_or_concat post
  · obtain ⟨rfl, hlast⟩ := List.append_inj' hsplit rfl
    exact hl nowNs events (List.singleton_inj.mp hlast)
  · rw [List.concat_eq_append, ← List.cons_append, ← List.append_assoc] at hsplit
    exact h pre nowNs events init (List.append_inj' hsplit rfl).1

/-- While the firmware never restarts, its index never wraps and no `drain` finds more than a
ring's depth unread, the times yielded never go back, whichever way the offset moves. -/
theorem recalibration_ordered (k : Int) (shm : PruShmT) (nowNs : Int) (reader : PruShm)
    (ls : List Label) (r : SharedRing) (hinit : PruShm.init shm nowNs = some reader)
    (hrun : Run GuardedStep ⟨shm, reader⟩ ls r) (hrestart : .restarted ∉ ls)
    (hidx : shm.writeIdx.toNat + (written ls).length < 2 ^ 32) (hclocks : IdealClocks k ls) :
    ((yielded ls).Pairwise fun y z => y.tFallNs ≤ z.tFallNs) ∧ AllCalibrated k ls := by
  suffices hinv : ∃ m, Tracks shm.writeIdx.toNat ls m r ∧ unread ls = (written ls).drop m ∧
      Ordered k ls ∧ AllCalibrated k ls by
    obtain ⟨m, -, -, hordered, hall⟩ := hinv
    exact ⟨hordered.sorted, hall⟩
  induction hrun with
  | nil =>
    refine ⟨0, tracks_init hinit, rfl, ⟨.nil, ?_, ?_, ?_⟩, ?_⟩
    · simp [yielded]
    · simp [unread]
    · simp [yielded]
    · intro pre nowNs events post hsplit
      simp at hsplit
  | @snoc ls _ _ _ _ hstep ih =>
    rw [List.mem_append, not_or] at hrestart
    obtain ⟨hstep, hback⟩ := hstep
    have hbefore := idealClocks_of_snoc hclocks
    cases hstep with
    | write type seq tFallNs pulseNs =>
      rw [written_wrote, List.length_append, List.length_singleton] at hidx
      obtain ⟨m, ht, hunread, hordered, hall⟩ := ih hrestart.1 (by omega) hbefore
      refine ⟨m, tracks_write ht (by omega) type seq tFallNs pulseNs, ?_,
        ordered_wrote hordered hclocks, allCalibrated_snoc hall nofun⟩
      rw [unread_wrote, written_wrote, List.drop_append_of_le_length ht.le, hunread]
    | restart => simp at hrestart
    | drain nowNs fuel hend =>
      rw [written_drained] at hidx
      obtain ⟨m, ht, hunread, hordered, hall⟩ := ih hrestart.1 hidx hbefore
      obtain ⟨off, hdec, hbounds⟩ := drain_calibrated ht hunread hbefore (instant_le hclocks rfl)
        hordered.past hend hback
      have hinc : (unread ls).Pairwise fun e f => e.tFallNs.toNat < f.tFallNs.toNat := by
        rw [hunread]
        exact hbefore.increasing.sublist (List.drop_sublist _ _)
      refine ⟨_, tracks_drain ht nowNs fuel hend hback, ?_,
        ordered_drained hordered hdec hbounds hinc, allCalibrated_snoc hall ?_⟩
      · rw [unread_drained, written_drained, List.drop_length]
      · rintro nowNs events ⟨⟩
        exact calibrated_of_offset hdec hbounds

/-- Two events, each read by its own drain; the second drain lowers the offset. -/
def twoDrains : List Label :=
  [.wrote .sof 0 1000 0, .drained 4000 [⟨.sof, 0, 0, 4000, 0⟩],
    .wrote .sof 1 2000 0, .drained 4600 [⟨.sof, 0, 1, 4600, 0⟩]]

theorem twoDrains_reached : Run GuardedStep ⟨idleMemory, ⟨0, 500⟩⟩ twoDrains
    ⟨writeEvent afterFirst.shm (typeCode .sof) 1 2000 0, ⟨2, 2600⟩⟩ := by
  let between : SharedRing := ⟨writeEvent afterFirst.shm (typeCode .sof) 1 2000 0, ⟨1, 3000⟩⟩
  have hfirst : GuardedStep afterFirst (.drained 4000 [⟨.sof, 0, 0, 4000, 0⟩])
      ⟨afterFirst.shm, ⟨1, 3000⟩⟩ :=
    guardedStep_drain (d := ⟨⟨1, 3000⟩, [⟨.sof, 0, 0, 4000, 0⟩], false⟩) 1 (by decide)
      (by constructor <;> decide) (by decide)
  have hsecond : GuardedStep between (.drained 4600 [⟨.sof, 0, 1, 4600, 0⟩])
      ⟨between.shm, ⟨2, 2600⟩⟩ :=
    guardedStep_drain (d := ⟨⟨2, 2600⟩, [⟨.sof, 0, 1, 4600, 0⟩], false⟩) 1 (by decide)
      (by constructor <;> decide) (by decide)
  have hstart : Run GuardedStep ⟨idleMemory, ⟨0, 500⟩⟩ [.wrote .sof 0 1000 0] afterFirst :=
    .snoc .nil ⟨.write _ .sof 0 1000 0, trivial⟩
  exact ((hstart.snoc hfirst).snoc ⟨.write _ .sof 1 2000 0, trivial⟩).snoc hsecond

theorem twoDrains_ordered :
    ((yielded twoDrains).Pairwise fun y z => y.tFallNs ≤ z.tFallNs) ∧
      AllCalibrated 2500 twoDrains :=
  recalibration_ordered 2500 idleMemory 500 ⟨0, 500⟩ twoDrains _ (by decide) twoDrains_reached
    (by decide) (by decide) ⟨by decide, by decide, by decide⟩

end CanSniffer.Recalibration
