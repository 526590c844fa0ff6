import CanSniffer.GraphRuns

namespace CanSniffer.Graphs

open Library GraphRing

inductive Series
  | busLoad | tec | recCount | errRate
  deriving DecidableEq, Repr

namespace Series

def ring : Series → Graphs → GraphRing
  | busLoad, g => g.busLoad
  | tec, g => g.tec
  | recCount, g => g.recCount
  | errRate, g => g.errRate

def value : Series → Graphs → Option ℚ
  | busLoad, g =>
    if 0 < g.acc.busLoadCount then some (Binary64.div g.acc.busLoadSum g.acc.busLoadCount) else none
  | tec, g => g.acc.tec
  | recCount, g => g.acc.recCount
  | errRate, g => some g.acc.errorFrames

end Series

/-- The flushes of so many passes: the second and the state that is flushed, also by a flush that
raises later on. -/
def secondFlushes : Nat → Graphs → List (Nat × Graphs)
  | 0, _ => []
  | n + 1, g =>
    let (g', raised) := g.flushBucket g.lastBucketSec
    (g.lastBucketSec, g) ::
      if raised then [] else secondFlushes n { g' with lastBucketSec := g'.lastBucketSec + 1 }

/-- The flushes of a message. -/
def msgFlushes (g : Graphs) (nowSec : Nat) : List (Nat × Graphs) :=
  secondFlushes (nowSec - (g.startBuckets nowSec).lastBucketSec) (g.startBuckets nowSec)

def flushesFrom : Graphs → History → List (Nat × Graphs)
  | _, [] => []
  | g, e :: h => msgFlushes g e.1 ++ flushesFrom (g.graphsIngest e.1 e.2).1 h

def flushes (h : History) : List (Nat × Graphs) := flushesFrom {} h

/-- The arrays of each series have the value of each of the last 60 flushes at its second, no other
seconds if there was a flush, and increase. -/
def Plotted (h : History) (nowTs : Int) : Prop :=
  ∀ s : Series,
    let (ts, vs) := ringToUplot (s.ring (run h)) nowTs
    ts.Pairwise (· < ·) ∧
      (∀ f ∈ (flushes h).rtake windowS, ((f.1 : Int), s.value f.2) ∈ ts.zip vs) ∧
      (flushes h ≠ [] → ∀ t ∈ ts, ∃ f ∈ (flushes h).rtake windowS, t = f.1)

variable {g : Graphs} {h : History} {xs : List (Option ℚ)} {e : Nat × UpdateMsg}

theorem flushBucket_ring (s : Series) (g : Graphs) (sec : Nat) :
    s.ring (g.flushBucket sec).1 = ringPush (s.ring g) (s.value g) := by
  have hlabels : ∀ lbls : List String,
      s.ring (lbls.foldl pushLabel g.pushRings) = ringPush (s.ring g) (s.value g) := by
    intro lbls
    have hkeep : s.ring (lbls.foldl pushLabel g.pushRings) = s.ring g.pushRings :=
      List.foldlRecOn (motive := fun g' : Graphs => s.ring g' = s.ring g.pushRings) _ _ rfl
        fun _ ih _ _ => by cases s <;> exact ih
    rw [hkeep]
    cases s <;> rfl
  rw [flushBucket, flushLabels_eq]
  dsimp only
  split_ifs
  · exact hlabels _
  · rw [← hlabels]
    cases s <;> rfl

theorem flushSeconds_ring (s : Series) (n : Nat) (hshows : Shows (s.ring g) xs) :
    Shows (s.ring (flushSeconds n g).1) (xs ++ (secondFlushes n g).map fun f => s.value f.2) := by
  induction n generalizing g xs with
  | zero => simpa [flushSeconds, secondFlushes] using hshows
  | succ n ih =>
    have hpush := hshows.push (s.value g)
    rw [← flushBucket_ring s g g.lastBucketSec] at hpush
    rw [flushSeconds, secondFlushes]
    dsimp only
    split_ifs
    · exact hpush
    · rw [List.map_cons, List.append_cons]
      apply ih
      cases s <;> exact hpush

theorem ingestPair_ring (s : Series) (g : Graphs) (p : LatencyPair) :
    s.ring (g.ingestPair p) = s.ring g := by
  rw [ingestPair]
  split
  · rfl
  · rfl
  · dsimp only
    split <;> cases s <;> rfl

theorem ingestFrame_ring (s : Series) (g : Graphs) (f : GraphFrame) :
    s.ring (g.ingestFrame f) = s.ring g := by
  rw [ingestFrame]
  by_cases hid : f.arbId = ""
  · rw [if_pos hid]
  · rw [if_neg hid]
    cases s <;> rfl

theorem ingestMsg_ring (s : Series) (g : Graphs) (msg : UpdateMsg) :
    s.ring (g.ingestMsg msg) = s.ring g := by
  have hload : s.ring (g.ingestBusLoad msg.busLoad) = s.ring g := by
    cases msg.busLoad <;> cases s <;> rfl
  have hdiag : ∀ g : Graphs, s.ring (g.ingestDiag msg.diag) = s.ring g := by
    intro g
    cases msg.diag <;> cases s <;> rfl
  have hlatency : ∀ g : Graphs, s.ring (g.ingestLatency msg.latency) = s.ring g := by
    intro g
    cases msg.latency with
    | none => rfl
    | some latency =>
      exact List.foldlRecOn (motive := fun g' : Graphs => s.ring g' = s.ring g) _ _ rfl
        fun g' ih p _ => (ingestPair_ring s g' p).trans ih
  rw [ingestMsg]
  refine List.foldlRecOn (motive := fun g' : Graphs => s.ring g' = s.ring g) _ _ ?_
    fun g' ih f _ => (ingestFrame_ring s g' f).trans ih
  rw [hlatency, hdiag, hload]

theorem graphsIngest_ring (s : Series) (nowSec : Nat) (msg : UpdateMsg)
    (hshows : Shows (s.ring g) xs) :
    Shows (s.ring (g.graphsIngest nowSec msg).1)
      (xs ++ (msgFlushes g nowSec).map fun f => s.value f.2) := by
  have hstart : Shows (s.ring (g.startBuckets nowSec)) xs := by
    cases s <;> exact hshows
  have hflushed := flushSeconds_ring s (nowSec - (g.startBuckets nowSec).lastBucketSec) hstart
  rw [graphsIngest, msgFlushes]
  dsimp only
  split_ifs
  · exact hflushed
  · have hring := ingestMsg_ring s (flushSeconds (nowSec - (g.startBuckets nowSec).lastBucketSec)
      (g.startBuckets nowSec)).1 msg
    rw [← hring] at hflushed
    exact hflushed

theorem flushes_concat (h : History) (e : Nat × UpdateMsg) :
    flushes (h ++ [e]) = flushes h ++ msgFlushes (run h) e.1 := by
  have hfrom : ∀ g : Graphs, flushesFrom g (h ++ [e]) = flushesFrom g h ++
      msgFlushes (h.foldl (fun g e => (g.graphsIngest e.1 e.2).1) g) e.1 := by
    intro g
    induction h generalizing g with
    | nil => exact List.append_nil _
    | cons d h ih => rw [List.cons_append, flushesFrom, ih, flushesFrom, List.append_assoc]; rfl
  exact hfrom {}

theorem run_ring (s : Series) (h : History) :
    Shows (s.ring (run h)) ((flushes h).map fun f => s.value f.2) := by
  induction h using List.reverseRecOn with
  | nil => cases s <;> exact shows_makeRing
  | append_singleton h e ih =>
    rw [run_concat, flushes_concat, List.map_append]
    exact graphsIngest_ring s e.1 e.2 ih

theorem flushBucket_sec (g : Graphs) (sec : Nat) :
    (g.flushBucket sec).1.lastBucketSec = g.lastBucketSec :=
  flushBucket_keeps (fun _ => rfl) (fun _ _ => rfl) (fun _ _ => rfl) g sec

theorem secondFlushes_lt {n : Nat} {f : Nat × Graphs} (hf : f ∈ secondFlushes n g) :
    f.1 < g.lastBucketSec + n := by
  induction n generalizing g with
  | zero => cases hf
  | succ n ih =>
    rw [secondFlushes] at hf
    obtain rfl | hf := List.mem_cons.mp hf
    · dsimp only
      omega
    · dsimp only at hf
      split_ifs at hf
      · cases hf
      · have hlt : f.1 < (g.flushBucket g.lastBucketSec).1.lastBucketSec + 1 + n := ih hf
        rw [flushBucket_sec] at hlt
        omega

theorem msgFlushes_lt {nowSec : Nat} {f : Nat × Graphs} (hf : f ∈ msgFlushes g nowSec) :
    f.1 < nowSec := by
  have hlt := secondFlushes_lt hf
  by_cases hle : (g.startBuckets nowSec).lastBucketSec ≤ nowSec
  · omega
  · rw [msgFlushes, Nat.sub_eq_zero_of_le (by omega)] at hf
    cases hf

theorem msgFlushes_eq_nil_iff (g : Graphs) (nowSec : Nat) :
    msgFlushes g nowSec = [] ↔ nowSec ≤ (g.startBuckets nowSec).lastBucketSec := by
  rw [msgFlushes, ← Nat.sub_eq_zero_iff_le]
  cases nowSec - (g.startBuckets nowSec).lastBucketSec with
  | zero => simp [secondFlushes]
  | succ n => simp [secondFlushes]

theorem flushes_lt {h : History} (hsorted : h.Pairwise fun d e => d.1 ≤ e.1) :
    ∀ f ∈ flushes h, f.1 < lastSec h := by
  induction h using List.reverseRecOn with
  | nil => exact List.forall_mem_nil _
  | append_singleton h e ih =>
    obtain ⟨hbefore, -, hlater⟩ := List.pairwise_append.mp hsorted
    intro f hf
    rw [flushes_concat] at hf
    rw [lastSec_concat]
    obtain hf | hf := List.mem_append.mp hf
    · exact (ih hbefore f hf).trans_le (lastSec_le fun d hd => hlater d hd e (by simp))
    · exact msgFlushes_lt hf

theorem lastBucketSec_of_unflushed {h : History} (hsorted : h.Pairwise fun d e => d.1 ≤ e.1)
    (hnone : flushes h = []) : (run h).lastBucketSec = lastSec h := by
  induction h using List.reverseRecOn with
  | nil => rfl
  | append_singleton h e ih =>
    obtain ⟨hbefore, -, hlater⟩ := List.pairwise_append.mp hsorted
    rw [flushes_concat, List.append_eq_nil_iff] at hnone
    have hsec := ih hbefore hnone.1
    have hle := (msgFlushes_eq_nil_iff _ _).mp hnone.2
    have hstay : ((run h).graphsIngest e.1 e.2).1.lastBucketSec =
        ((run h).startBuckets e.1).lastBucketSec := by
      rw [graphsIngest]
      dsimp only
      rw [Nat.sub_eq_zero_of_le hle]
      exact (ingestMsg_spec ((run h).startBuckets e.1) e.2).last
    rw [run_concat, hstay, lastSec_concat]
    refine le_antisymm ?_ hle
    rw [startBuckets, hsec]
    dsimp only
    split_ifs
    · exact le_rfl
    · exact lastSec_le fun d hd => hlater d hd e (by simp)

theorem flushes_eq_nil_iff {h : History} (hsorted : h.Pairwise fun d e => d.1 ≤ e.1) :
    flushes h = [] ↔ h.Pairwise fun d e => 0 < d.1 → d.1 = e.1 := by
  induction h using List.reverseRecOn with
  | nil => exact iff_of_true rfl List.Pairwise.nil
  | append_singleton h e ih =>
    obtain ⟨hbefore, -, hlater⟩ := List.pairwise_append.mp hsorted
    rw [flushes_concat, List.append_eq_nil_iff, List.pairwise_append, ih hbefore]
    refine and_congr_right fun hsame => ?_
    have hsec := lastBucketSec_of_unflushed hbefore ((ih hbefore).mpr hsame)
    rw [msgFlushes_eq_nil_iff, startBuckets, hsec]
    dsimp only
    obtain rfl | ⟨h, d, rfl⟩ := List.eq_nil_or_concat' h
    · simp [lastSec]
    · rw [lastSec_concat]
      have hde : d.1 ≤ e.1 := hlater d (by simp) e (by simp)
      constructor
      · intro hle
        refine ⟨List.pairwise_singleton _ _, ?_⟩
        rintro c hc _ he hpos
        rw [List.mem_singleton.mp he]
        obtain hc | hc := List.mem_append.mp hc
        · have hcd := (List.pairwise_append.mp hsame).2.2 c hc d (by simp) hpos
          rw [if_neg (by omega)] at hle
          omega
        · rw [List.mem_singleton.mp hc] at hpos ⊢
          rw [if_neg (by omega)] at hle
          omega
      · rintro ⟨-, hall⟩
        split_ifs with hzero
        · exact le_rfl
        · exact (hall d (by simp) e (by simp) (Nat.pos_of_ne_zero hzero)).ge

/-- The value of the newest flush stands at the time of rendering and the others in front of it,
second by second, whenever they were flushed. -/
theorem plotted_at (s : Series) (h : History) (nowTs : Int) {i : Nat} {f : Nat × Graphs}
    (hf : ((flushes h).rtake windowS)[i]? = some f) :
    (ringToUplot (s.ring (run h)) nowTs).1[i]? =
        some (nowTs - (((flushes h).rtake windowS).length - 1) + i) ∧
      (ringToUplot (s.ring (run h)) nowTs).2[i]? = some (s.value f.2) := by
  have hshows := run_ring s h
  have hlen := Newest.length_rtake windowS (flushes h)
  have hi : i < ((flushes h).rtake windowS).length := (List.getElem?_eq_some_iff.mp hf).1
  have hne : (flushes h).map (fun f => s.value f.2) ≠ [] := by
    intro hnil
    rw [List.map_eq_nil_iff.mp hnil] at hi
    exact absurd hi (Nat.not_lt_zero i)
  have hcount : (s.ring (run h)).count = ((flushes h).rtake windowS).length := by
    rw [hshows.count, List.length_map, hlen, Nat.min_comm]
    rfl
  constructor
  · rw [ringToUplot, hcount, if_neg (by omega)]
    simp [hi]
  · rw [hshows.values, if_neg hne]
    have hmap : ((flushes h).map fun f => s.value f.2).rtake 60 =
        ((flushes h).rtake windowS).map fun f => s.value f.2 :=
      (Newest.map_rtake _ windowS (flushes h)).symm
    rw [hmap, List.getElem?_map, hf, Option.map_some]

/-- Values stand at their seconds only as long as there are none: the newest one is plotted at the
time of rendering, which is after its second. -/
theorem plotted_iff {h : History} (hsorted : h.Pairwise fun d e => d.1 ≤ e.1) {nowTs : Int}
    (hlater : lastSec h ≤ nowTs) :
    Plotted h nowTs ↔ h.Pairwise fun d e => 0 < d.1 → d.1 = e.1 := by
  rw [← flushes_eq_nil_iff hsorted]
  constructor
  · intro hplot
    by_contra hne
    have hpos : 0 < ((flushes h).rtake windowS).length := by
      rw [Newest.length_rtake]
      exact lt_min (by decide) (List.length_pos_iff.mpr hne)
    obtain ⟨hts, -⟩ := plotted_at .busLoad h nowTs
      (List.getElem?_eq_getElem (Nat.sub_one_lt hpos.ne'))
    obtain ⟨f, hf, heq⟩ := (hplot .busLoad).2.2 hne _ (List.mem_of_getElem? hts)
    have hlt := flushes_lt hsorted f ((Newest.rtake_suffix windowS (flushes h)).mem hf)
    omega
  · intro hnone s
    have hshows := run_ring s h
    rw [hnone] at hshows ⊢
    have hempty : ringToUplot (s.ring (run h)) nowTs = ([nowTs], [none]) := by
      rw [ringToUplot, if_pos (show (s.ring (run h)).count = 0 from hshows.count)]
    rw [hempty]
    exact ⟨List.pairwise_singleton _ _, List.forall_mem_nil _, absurd rfl⟩

def loadMsg : UpdateMsg where
  busLoad := some (1 / 2)

def threeSeconds : History := [(5, loadMsg), (5, loadMsg), (6, loadMsg), (7, {})]

theorem plotted_iff_threeSeconds :
    (flushes threeSeconds).map Prod.fst = [5, 6] ∧
      (Plotted threeSeconds 8 ↔ threeSeconds.Pairwise fun d e => 0 < d.1 → d.1 = e.1) :=
  ⟨by decide +kernel, plotted_iff (by simp [threeSeconds]) (by decide)⟩

/-- The bus load of second 5 stands at second 6, at which the next message is rendered. -/
theorem load_plotted_late : ¬ Plotted [(5, loadMsg), (6, {})] 6 := by
  intro h
  obtain ⟨-, -, hseconds⟩ := h .busLoad
  obtain ⟨f, hf, heq⟩ := hseconds (by decide +kernel) 6 (by decide +kernel)
  revert f
  decide +kernel

end CanSniffer.Graphs
