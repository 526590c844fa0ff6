import CanSniffer.PlotTimes

namespace CanSniffer.Graphs

open Library

def frameCount (h : History) (id : String) (sec : Nat) : Nat :=
  ((h.filter fun e => e.1 = sec).flatMap fun e => e.2.frames).countP fun f => f.arbId = id

def firstSec (h : History) : Nat := (h.head?.map Prod.fst).getD 0

def countOf (counts : PyDict String Nat) (id : String) : Nat := (counts.get? id).getD 0

/-- The columns and the current bucket after the last message of a history. -/
structure Columns (h : History) : Prop where
  consecutive : ∃ start, firstSec h ≤ start ∧
    (run h).heatmapCols.map HeatmapCol.tsS = List.range' start (lastSec h - start)
  recent : (run h).heatmapCols.length ≤ windowS
  ending : firstSec h < lastSec h → (run h).heatmapCols ≠ []
  counts : ∀ col ∈ (run h).heatmapCols, ∀ id ≠ "", countOf col.counts id = frameCount h id col.tsS
  bucket : ∀ id ≠ "", countOf (run h).heatmapCurrentBucket id = frameCount h id (lastSec h)

/-- The columns are right after each message of a history. -/
def Partitioned (h : History) : Prop :=
  ∀ before e after, h = before ++ e :: after → Columns (before ++ [e])

/-- Whenever a second is over, it is not second 0 and no inherited name is listed. -/
def FlushesDone (h : History) : Prop :=
  ∀ before e after, h = before ++ e :: after → before ≠ [] → lastSec before < e.1 →
    0 < lastSec before ∧ ∀ p ∈ listed before, p.1 ∉ inherited

variable {g : Graphs} {h : History} {e : Nat × UpdateMsg} {first last : Nat}

theorem forall_message_concat {P : History → Nat × UpdateMsg → Prop} (h : History)
    (e : Nat × UpdateMsg) :
    (∀ before d after, h ++ [e] = before ++ d :: after → P before d) ↔
      (∀ before d after, h = before ++ d :: after → P before d) ∧ P h e := by
  constructor
  · intro hall
    refine ⟨fun before d after heq => ?_, hall h e [] rfl⟩
    apply hall before d (after ++ [e])
    rw [heq, List.append_assoc, List.cons_append]
  · rintro ⟨hbefore, hlast⟩ before d after heq
    obtain rfl | ⟨after, d', rfl⟩ := List.eq_nil_or_concat' after
    · obtain ⟨rfl, hd⟩ := List.append_inj' heq rfl
      cases hd
      exact hlast
    · rw [← List.cons_append, ← List.append_assoc] at heq
      exact hbefore before d after (List.append_inj' heq rfl).1

theorem frameCount_concat (h : History) (e : Nat × UpdateMsg) (id : String) (sec : Nat) :
    frameCount (h ++ [e]) id sec = frameCount h id sec +
      if e.1 = sec then e.2.frames.countP fun f => f.arbId = id else 0 := by
  rw [frameCount, List.filter_append, List.flatMap_append, List.countP_append, ← frameCount]
  split_ifs with he
  · simp [he]
  · simp [he]

theorem frameCount_of_lt {id : String} {sec : Nat} (hlt : ∀ e ∈ h, e.1 < sec) :
    frameCount h id sec = 0 := by
  have hnone : (h.filter fun e => e.1 = sec) = [] :=
    List.filter_eq_nil_iff.mpr fun e he => by simpa using (hlt e he).ne
  rw [frameCount, hnone]
  rfl

/-- What is ingested of a message goes to the current bucket and not to the columns. -/
structure Counted (g g' : Graphs) (fs : List GraphFrame) : Prop where
  cols : g'.heatmapCols = g.heatmapCols
  bucket : ∀ id ≠ "", countOf g'.heatmapCurrentBucket id =
    countOf g.heatmapCurrentBucket id + fs.countP fun f => f.arbId = id

theorem Counted.of_eq {g' : Graphs} (hcols : g'.heatmapCols = g.heatmapCols)
    (hbucket : g'.heatmapCurrentBucket = g.heatmapCurrentBucket) : Counted g g' [] where
  cols := hcols
  bucket := fun id _ => by rw [hbucket]; rfl

theorem Counted.trans {g' g'' : Graphs} {fs fs' : List GraphFrame} (hc : Counted g g' fs)
    (hc' : Counted g' g'' fs') : Counted g g'' (fs ++ fs') where
  cols := hc'.cols.trans hc.cols
  bucket := by
    intro id hid
    rw [hc'.bucket id hid, hc.bucket id hid, List.countP_append, Nat.add_assoc]

theorem ingestFrame_counted (g : Graphs) (f : GraphFrame) : Counted g (g.ingestFrame f) [f] := by
  rw [ingestFrame]
  by_cases hempty : f.arbId = ""
  · rw [if_pos hempty]
    refine ⟨rfl, fun id hid => ?_⟩
    have hne : f.arbId ≠ id := hempty ▸ hid.symm
    simp [hne]
  · rw [if_neg hempty]
    refine ⟨rfl, fun id _ => ?_⟩
    dsimp only
    rw [countOf, PyDict.get?_set]
    by_cases hsame : id = f.arbId
    · subst hsame
      simp [countOf]
    · have hne : f.arbId ≠ id := fun heq => hsame heq.symm
      rw [Function.update_of_ne hsame]
      simp [countOf, hne]

theorem ingestFrames_counted (g : Graphs) (fs : List GraphFrame) :
    Counted g (fs.foldl ingestFrame g) fs := by
  induction fs generalizing g with
  | nil => exact Counted.of_eq rfl rfl
  | cons f fs ih => exact (ingestFrame_counted g f).trans (ih _)

theorem ingestPair_counted (g : Graphs) (p : LatencyPair) : Counted g (g.ingestPair p) [] := by
  rw [ingestPair]
  split
  · exact Counted.of_eq rfl rfl
  · exact Counted.of_eq rfl rfl
  · dsimp only
    split
    · exact Counted.of_eq rfl rfl
    · exact Counted.of_eq rfl rfl

theorem ingestMsg_counted (g : Graphs) (msg : UpdateMsg) :
    Counted g (g.ingestMsg msg) msg.frames := by
  have hload : Counted g (g.ingestBusLoad msg.busLoad) [] := by
    cases msg.busLoad with
    | none => exact Counted.of_eq rfl rfl
    | some load => exact Counted.of_eq rfl rfl
  have hdiag : ∀ g : Graphs, Counted g (g.ingestDiag msg.diag) [] := by
    intro g
    cases msg.diag with
    | none => exact Counted.of_eq rfl rfl
    | some diag => exact Counted.of_eq rfl rfl
  have hlatency : ∀ g : Graphs, Counted g (g.ingestLatency msg.latency) [] := by
    intro g
    cases msg.latency with
    | none => exact Counted.of_eq rfl rfl
    | some latency =>
      exact List.foldlRecOn (motive := fun g' : Graphs => Counted g g' []) _ _
        (Counted.of_eq rfl rfl) fun g' ih p _ => ih.trans (ingestPair_counted g' p)
  exact ((hload.trans (hdiag _)).trans (hlatency _)).trans (ingestFrames_counted _ msg.frames)

theorem flushed_rtake {cols : List HeatmapCol} (hlen : cols.length ≤ windowS) (col : HeatmapCol) :
    (if windowS < (cols ++ [col]).length then (cols ++ [col]).tail else cols ++ [col]) =
      (cols ++ [col]).rtake windowS := by
  have hsucc : (cols ++ [col]).length = cols.length + 1 := List.length_append
  split_ifs with hlong
  · rw [List.rtake, show (cols ++ [col]).length - windowS = 1 by omega, List.drop_one]
  · exact (Newest.rtake_of_le (by omega)).symm

theorem pushLabels_heat (g : Graphs) (lbls : List String) :
    (lbls.foldl pushLabel g).heatmapCols = g.heatmapCols ∧
      (lbls.foldl pushLabel g).heatmapCurrentBucket = g.heatmapCurrentBucket :=
  List.foldlRecOn (motive := fun g' : Graphs => g'.heatmapCols = g.heatmapCols ∧
    g'.heatmapCurrentBucket = g.heatmapCurrentBucket) _ _ ⟨rfl, rfl⟩ fun _ ih _ _ => ih

theorem flushBucket_heat_of_raised (hin : ∃ lbl ∈ g.latencyPairLabels, lbl ∈ inherited)
    (sec : Nat) : (g.flushBucket sec).1.heatmapCols = g.heatmapCols := by
  have hraised := (flushBucket_raises g sec).mpr hin
  rw [flushBucket] at hraised ⊢
  rw [flushLabels_eq] at hraised ⊢
  dsimp only at hraised ⊢
  split_ifs at hraised ⊢ with hall
  exact (pushLabels_heat g.pushRings _).1

theorem flushBucket_heat (hown : ∀ lbl ∈ g.latencyPairLabels, lbl ∉ inherited)
    (hlen : g.heatmapCols.length ≤ windowS) (sec : Nat) :
    (g.flushBucket sec).1.heatmapCols =
        (g.heatmapCols ++ [HeatmapCol.mk sec g.heatmapCurrentBucket]).rtake windowS ∧
      (g.flushBucket sec).1.heatmapCurrentBucket = PyDict.empty := by
  have hall : (g.latencyPairLabels.all fun lbl => decide (lbl ∉ inherited)) = true := by
    simpa using hown
  obtain ⟨hcols, hbucket⟩ := pushLabels_heat g.pushRings
    (g.latencyPairLabels.takeWhile fun lbl => decide (lbl ∉ inherited))
  rw [flushBucket, flushLabels_eq]
  dsimp only
  rw [hall]
  refine ⟨?_, rfl⟩
  rw [← flushed_rtake hlen, Bool.not_true, if_neg Bool.false_ne_true]
  dsimp only [closeBucket]
  rw [hcols, hbucket]
  rfl

/-- The state after messages up to a second, with the seconds in front of it flushed. -/
structure HeatTracks (h : History) (first last : Nat) (g : Graphs) : Prop where
  sec : g.lastBucketSec = last
  labels : g.latencyPairLabels = (listed h).map Prod.fst
  seconds : g.heatmapCols.map HeatmapCol.tsS = (List.range' first (last - first)).rtake windowS
  counts : ∀ col ∈ g.heatmapCols, ∀ id ≠ "", countOf col.counts id = frameCount h id col.tsS
  bucket : ∀ id ≠ "", countOf g.heatmapCurrentBucket id = frameCount h id last

theorem HeatTracks.length (ht : HeatTracks h first last g) : g.heatmapCols.length ≤ windowS := by
  have hlen := congrArg List.length ht.seconds
  rw [List.length_map, Newest.length_rtake] at hlen
  rw [hlen]
  exact min_le_left ..

theorem HeatTracks.flush (ht : HeatTracks h first last g)
    (hown : ∀ lbl ∈ g.latencyPairLabels, lbl ∉ inherited) (hfirst : first ≤ last)
    (hle : ∀ e ∈ h, e.1 ≤ last) :
    HeatTracks h first (last + 1)
      { (g.flushBucket g.lastBucketSec).1 with
        lastBucketSec := (g.flushBucket g.lastBucketSec).1.lastBucketSec + 1 } := by
  obtain ⟨hcols, hbucket⟩ := flushBucket_heat hown ht.length g.lastBucketSec
  refine ⟨?_, (flushBucket_labels g _).trans ht.labels, ?_, ?_, ?_⟩
  · dsimp only
    rw [flushBucket_sec, ht.sec]
  · dsimp only
    rw [hcols, Newest.map_rtake, List.map_append, ht.seconds, Newest.rtake_rtake_append,
      Nat.succ_sub hfirst, List.range'_concat, Nat.one_mul, Nat.add_sub_of_le hfirst, ht.sec]
    rfl
  · dsimp only
    rw [hcols]
    intro col hcol id hid
    obtain hcol | hcol := List.mem_append.mp ((Newest.rtake_suffix windowS _).mem hcol)
    · exact ht.counts col hcol id hid
    · rw [List.mem_singleton.mp hcol, ht.bucket id hid, ht.sec]
  · dsimp only
    rw [hbucket]
    intro id _
    exact (frameCount_of_lt fun e he => Nat.lt_succ_of_le (hle e he)).symm

theorem HeatTracks.flushSeconds (n : Nat)
    (hown : 0 < n → ∀ lbl ∈ g.latencyPairLabels, lbl ∉ inherited)
    (ht : HeatTracks h first last g) (hfirst : first ≤ last) (hle : ∀ e ∈ h, e.1 ≤ last) :
    (flushSeconds n g).2 = false ∧ HeatTracks h first (last + n) (flushSeconds n g).1 := by
  obtain rfl | hpos := Nat.eq_zero_or_pos n
  · exact ⟨rfl, ht⟩
  · have hrun := flushSeconds_induction
      (I := fun last g => HeatTracks h first last g ∧
        (∀ lbl ∈ g.latencyPairLabels, lbl ∉ inherited) ∧ first ≤ last ∧ ∀ e ∈ h, e.1 ≤ last)
      (by
        rintro last g ⟨ht, hown, hfirst, hle⟩
        refine ⟨flushBucket_quiet hown _, ht.flush hown hfirst hle, ?_, Nat.le_succ_of_le hfirst,
          fun e he => Nat.le_succ_of_le (hle e he)⟩
        dsimp only
        rwa [flushBucket_labels])
      n ⟨ht, hown hpos, hfirst, hle⟩
    exact ⟨hrun.1, hrun.2.1⟩

theorem HeatTracks.ingestMsg {now : Nat} (ht : HeatTracks h first now g) (msg : UpdateMsg) :
    HeatTracks (h ++ [(now, msg)]) first now (g.ingestMsg msg) := by
  have hin := ingestMsg_spec g msg
  have hc := ingestMsg_counted g msg
  refine ⟨hin.last.trans ht.sec, ?_, hc.cols ▸ ht.seconds, ?_, ?_⟩
  · rw [hin.labels, listed_concat, notes_labels, ht.labels]
  · rw [hc.cols]
    intro col hcol id hid
    have hsec : col.tsS ∈ List.range' first (now - first) := by
      apply (Newest.rtake_suffix windowS _).mem
      rw [← ht.seconds]
      exact List.mem_map_of_mem hcol
    have hlt : now ≠ col.tsS := by
      have := List.mem_range'_1.mp hsec
      omega
    rw [frameCount_concat, if_neg hlt, ht.counts col hcol id hid, Nat.add_zero]
  · intro id hid
    rw [frameCount_concat, if_pos rfl, hc.bucket id hid, ht.bucket id hid]

/-- One message: the seconds that are over are flushed and the message counts in its own. -/
theorem HeatTracks.graphsIngest {now : Nat} (ht : HeatTracks h first last (g.startBuckets now))
    (hown : last < now → ∀ p ∈ listed h, p.1 ∉ inherited) (hfirst : first ≤ last)
    (hlast : last ≤ now) (hle : ∀ e ∈ h, e.1 ≤ last) (msg : UpdateMsg) :
    HeatTracks (h ++ [(now, msg)]) first now (g.graphsIngest now msg).1 := by
  have hlabels : 0 < now - last →
      ∀ lbl ∈ (g.startBuckets now).latencyPairLabels, lbl ∉ inherited := by
    intro hpos lbl hlbl
    rw [ht.labels] at hlbl
    obtain ⟨p, hp, rfl⟩ := List.mem_map.mp hlbl
    exact hown (by omega) p hp
  obtain ⟨hquiet, hflushed⟩ := ht.flushSeconds (now - last) hlabels hfirst hle
  rw [Nat.add_sub_of_le hlast] at hflushed
  rw [Graphs.graphsIngest]
  dsimp only
  rw [ht.sec, hquiet, if_neg Bool.false_ne_true]
  exact hflushed.ingestMsg msg

theorem firstSec_le_lastSec (hsorted : h.Pairwise fun d e => d.1 ≤ e.1) :
    firstSec h ≤ lastSec h := by
  cases h with
  | nil => exact le_rfl
  | cons e h => exact le_lastSec_of_sorted hsorted e List.mem_cons_self

theorem firstSec_concat (hne : h ≠ []) (e : Nat × UpdateMsg) :
    firstSec (h ++ [e]) = firstSec h := by
  rw [firstSec, firstSec, List.head?_append_of_ne_nil h hne]

theorem flushesDone_concat : FlushesDone (h ++ [e]) ↔ FlushesDone h ∧
    (h ≠ [] → lastSec h < e.1 → 0 < lastSec h ∧ ∀ p ∈ listed h, p.1 ∉ inherited) :=
  forall_message_concat h e

theorem run_heatTracks (hsorted : h.Pairwise fun d e => d.1 ≤ e.1) (hdone : FlushesDone h)
    (hne : h ≠ []) : HeatTracks h (firstSec h) (lastSec h) (run h) := by
  induction h using List.reverseRecOn with
  | nil => exact absurd rfl hne
  | append_singleton h e ih =>
    obtain ⟨hbefore, -, hlater⟩ := List.pairwise_append.mp hsorted
    obtain ⟨hdone, hover⟩ := flushesDone_concat.mp hdone
    rw [run_concat, lastSec_concat]
    by_cases hnil : h = []
    · subst hnil
      have hstart : HeatTracks [] e.1 e.1 (startBuckets {} e.1) := by
        refine ⟨rfl, rfl, ?_, List.forall_mem_nil _, fun _ _ => rfl⟩
        rw [Nat.sub_self]
        rfl
      exact hstart.graphsIngest (fun _ => List.forall_mem_nil _) le_rfl le_rfl
        (List.forall_mem_nil _) e.2
    · have ht := ih hbefore hdone hnil
      have hle := le_lastSec_of_sorted hbefore
      have hnow : lastSec h ≤ e.1 := lastSec_le fun d hd => hlater d hd e (by simp)
      have hstart : HeatTracks h (firstSec h) (lastSec h) ((run h).startBuckets e.1) := by
        refine ⟨?_, ht.labels, ht.seconds, ht.counts, ht.bucket⟩
        rw [startBuckets, ht.sec]
        dsimp only
        split_ifs with hzero
        · by_contra hlt
          exact (hover hnil (by omega)).1.ne' hzero
        · rfl
      rw [firstSec_concat hnil]
      exact hstart.graphsIngest (fun hlt => (hover hnil hlt).2) (firstSec_le_lastSec hbefore)
        hnow hle e.2

theorem HeatTracks.columns (ht : HeatTracks h (firstSec h) (lastSec h) (run h)) :
    Columns h where
  consecutive := by
    refine ⟨firstSec h + (lastSec h - firstSec h - windowS), by omega, ?_⟩
    rw [ht.seconds, List.rtake, List.length_range', List.drop_range', Nat.mul_one]
    congr 1
    omega
  recent := ht.length
  ending := by
    intro hlt hnil
    have hlen := congrArg List.length ht.seconds
    rw [hnil, List.map_nil, Newest.length_rtake, List.length_range', List.length_nil] at hlen
    simp only [windowS] at hlen
    omega
  counts := ht.counts
  bucket := ht.bucket

theorem flushSeconds_raises (n : Nat) (g : Graphs) (h : (flushSeconds n g).2 = true) :
    ∃ lbl ∈ g.latencyPairLabels, lbl ∈ inherited := by
  induction n generalizing g with
  | zero => cases h
  | succ n ih =>
    rw [flushSeconds] at h
    dsimp only at h
    split_ifs at h with hraised
    · exact (flushBucket_raises g _).mp hraised
    · have hin := ih _ h
      rwa [flushBucket_labels] at hin

theorem run_labels (h : History) : (∃ lbl ∈ (run h).latencyPairLabels, lbl ∈ inherited) ∨
    (run h).latencyPairLabels = (listed h).map Prod.fst := by
  induction h using List.reverseRecOn with
  | nil => exact .inr rfl
  | append_singleton h e ih =>
    rw [run_concat]
    obtain ⟨lbl, hlbl, hin⟩ | hlabels := ih
    · left
      obtain ⟨lbls, -, hlbls⟩ := graphsIngest_labels (run h) e.1 e.2
      refine ⟨lbl, ?_, hin⟩
      rw [hlbls]
      exact subset_listLabels _ _ hlbl
    · have hstart : ((run h).startBuckets e.1).latencyPairLabels = (run h).latencyPairLabels := rfl
      have hraises := flushSeconds_raises (e.1 - ((run h).startBuckets e.1).lastBucketSec)
        ((run h).startBuckets e.1)
      have hkept := flushSeconds_labels (e.1 - ((run h).startBuckets e.1).lastBucketSec)
        ((run h).startBuckets e.1)
      rw [graphsIngest]
      dsimp only
      split_ifs with hraised
      · left
        obtain ⟨lbl, hlbl, hin⟩ := hraises hraised
        exact ⟨lbl, hkept ▸ hlbl, hin⟩
      · right
        rw [listed_concat, notes_labels, ← hlabels, ← hstart, ← hkept]
        exact (ingestMsg_spec _ e.2).labels

theorem graphsIngest_cols_of_inherited (hin : ∃ lbl ∈ g.latencyPairLabels, lbl ∈ inherited)
    (now : Nat) (msg : UpdateMsg) :
    (g.graphsIngest now msg).1.heatmapCols = g.heatmapCols := by
  have hin' : ∃ lbl ∈ (g.startBuckets now).latencyPairLabels, lbl ∈ inherited := hin
  have hflush : ∀ n, (flushSeconds n (g.startBuckets now)).1.heatmapCols = g.heatmapCols := by
    intro n
    cases n with
    | zero => rfl
    | succ n =>
      rw [flushSeconds]
      dsimp only
      rw [if_pos ((flushBucket_raises _ _).mpr hin')]
      exact flushBucket_heat_of_raised hin' _
  rw [graphsIngest]
  dsimp only
  split_ifs
  · exact hflush _
  · exact (ingestMsg_counted _ msg).cols.trans (hflush _)

/-- While second 0 lasts, no second is over for the page. -/
theorem graphsIngest_cols_of_zero (hzero : g.lastBucketSec = 0) (now : Nat) (msg : UpdateMsg) :
    (g.graphsIngest now msg).1.heatmapCols = g.heatmapCols := by
  have hsec : (g.startBuckets now).lastBucketSec = now := if_pos hzero
  rw [graphsIngest]
  dsimp only
  rw [hsec, Nat.sub_self]
  exact (ingestMsg_counted (g.startBuckets now) msg).cols

theorem not_columns_of_stale (hsorted : h.Pairwise fun d e => d.1 ≤ e.1) (hne : h ≠ [])
    (hlt : lastSec h < e.1) (hc : Columns h)
    (hstale : ((run h).graphsIngest e.1 e.2).1.heatmapCols = (run h).heatmapCols) :
    ¬ Columns (h ++ [e]) := by
  rintro ⟨⟨start, -, hseconds⟩, -, hending, -, -⟩
  obtain ⟨start', -, hbefore⟩ := hc.consecutive
  rw [lastSec_concat, firstSec_concat hne, run_concat, hstale] at hending
  rw [lastSec_concat, run_concat, hstale, hbefore] at hseconds
  have hcols := hending ((firstSec_le_lastSec hsorted).trans_lt hlt)
  have hpos : 0 < e.1 - start := by
    have hlen := congrArg List.length hseconds
    rw [← hbefore, List.length_map, List.length_range'] at hlen
    exact hlen ▸ List.length_pos_iff.mpr hcols
  have hlast : e.1 - 1 ∈ List.range' start (e.1 - start) :=
    List.mem_range'_1.mpr ⟨by omega, by omega⟩
  rw [← hseconds, List.mem_range'_1] at hlast
  omega

/-- The columns partition the traffic as long as no second ends that is second 0 or that finds an
inherited name among the labels: such a second gets no column. -/
theorem partitioned_iff (hsorted : h.Pairwise fun d e => d.1 ≤ e.1) :
    Partitioned h ↔ FlushesDone h := by
  constructor
  · rintro hpart before e after rfl hne hlt
    have hbefore : before.Pairwise fun d e => d.1 ≤ e.1 := (List.pairwise_append.mp hsorted).1
    have hc : Columns before := by
      obtain ⟨front, d, rfl⟩ := (List.eq_nil_or_concat' before).resolve_left hne
      exact hpart front d (e :: after) (by rw [List.append_assoc]; rfl)
    have hnext := hpart before e after rfl
    by_contra hnot
    refine not_columns_of_stale hbefore hne hlt hc ?_ hnext
    by_cases hzero : lastSec before = 0
    · apply graphsIngest_cols_of_zero
      have hnone : flushes before = [] := by
        rw [flushes_eq_nil_iff hbefore]
        refine hbefore.imp_of_mem ?_
        intro c d hc _ _ hpos
        have := le_lastSec_of_sorted hbefore c hc
        omega
      rw [lastBucketSec_of_unflushed hbefore hnone, hzero]
    · apply graphsIngest_cols_of_inherited
      obtain hin | hlabels := run_labels before
      · exact hin
      · rw [hlabels]
        simp only [not_and_or, not_forall] at hnot
        obtain hpos | ⟨p, hp, hin⟩ := hnot
        · exact absurd (Nat.pos_of_ne_zero hzero) hpos
        · exact ⟨p.1, List.mem_map_of_mem hp, not_not.mp hin⟩
  · rintro hdone before e after rfl
    have hsplit : before ++ e :: after = (before ++ [e]) ++ after := by
      rw [List.append_assoc]
      rfl
    have hprefix := (List.pairwise_append.mp (hsplit ▸ hsorted)).1
    have hdone' : FlushesDone (before ++ [e]) := by
      intro front d back heq
      apply hdone front d (back ++ after)
      rw [hsplit, heq, List.append_assoc, List.cons_append]
    exact (run_heatTracks hprefix hdone' (by simp)).columns

def frameMsg (id : String) : UpdateMsg where
  frames := [{ arbId := id }]

theorem partitioned_iff_silentSecond :
    Partitioned [(5, frameMsg "0x1"), (7, frameMsg "0x2")] ↔
      FlushesDone [(5, frameMsg "0x1"), (7, frameMsg "0x2")] :=
  partitioned_iff (by simp)

/-- The label `constructor` in second 5: there is no column for it. -/
theorem column_lost : ¬ Partitioned
    [(5, { frameMsg "0x1" with latency := some (.pairs [{ label := some "constructor" }]) }),
      (6, frameMsg "0x2")] := by
  intro hpart
  have hc := hpart [_] _ [] rfl
  apply hc.ending (by decide)
  apply List.eq_nil_of_length_eq_zero
  decide +kernel

end CanSniffer.Graphs
