import CanSniffer.Graphs
import CanSniffer.Library.Newest

namespace CanSniffer

open Library Library.RingSlots

namespace GraphRing

structure Shows (r : GraphRing) (xs : List (Option ℚ)) : Prop where
  count : r.count = min xs.length 60
  head : r.head = slot 60 xs.length
  holds : Holds r.data 0 xs

variable {r : GraphRing} {xs : List (Option ℚ)}

theorem shows_makeRing : Shows makeRing [] := ⟨rfl, rfl, holds_nil _ 0⟩

theorem Shows.push (h : Shows r xs) (x : Option ℚ) : Shows (ringPush r x) (xs ++ [x]) where
  count := by
    rw [ringPush, h.count, List.length_append, List.length_singleton]
    dsimp only
    split_ifs <;> omega
  head := by
    rw [ringPush, h.head, List.length_append, List.length_singleton]
    apply Fin.ext
    simp only [slot]
    omega
  holds := by
    have hput := holds_put h.holds x
    rw [put, Nat.zero_add, ← h.head] at hput
    exact hput

theorem Shows.values (h : Shows r xs) (nowTs : Int) :
    (ringToUplot r nowTs).2 = if xs = [] then [none] else xs.rtake 60 := by
  rw [ringToUplot]
  by_cases hnil : xs = []
  · subst hnil
    have hzero : r.count = 0 := h.count
    rw [if_pos rfl, if_pos hzero]
  · have hpos : 0 < xs.length := List.length_pos_iff.mpr hnil
    rw [if_neg hnil, if_neg (by rw [h.count]; omega)]
    have hlen : ((List.range r.count).map fun i =>
        r.data (slot 60 (r.head + 60 - r.count + i))).length = (xs.rtake 60).length := by
      rw [List.length_map, List.length_range, h.count, Newest.length_rtake, Nat.min_comm]
    apply List.ext_getElem hlen
    intro i hi hi'
    simp only [List.length_map, List.length_range, h.count] at hi
    have hslot : slot 60 (r.head + 60 - r.count + i) = slot 60 (0 + (xs.length - 60 + i)) := by
      apply Fin.ext
      rw [h.head, h.count]
      simp only [slot]
      omega
    rw [List.getElem_map, List.getElem_range, hslot, h.holds _ (by omega) (by omega)]
    simp [List.rtake]

theorem length_ringToUplot (r : GraphRing) (nowTs : Int) :
    (ringToUplot r nowTs).1.length = (ringToUplot r nowTs).2.length := by
  rw [ringToUplot]
  dsimp only
  split_ifs <;> simp

end GraphRing

namespace Graphs

open GraphRing

abbrev History := List (Nat × UpdateMsg)

def run (h : History) : Graphs := h.foldl (fun g e => (g.graphsIngest e.1 e.2).1) {}

theorem run_concat (h : History) (e : Nat × UpdateMsg) :
    run (h ++ [e]) = ((run h).graphsIngest e.1 e.2).1 := by
  rw [run, List.foldl_append]
  rfl

def lastSec (h : History) : Nat := (h.getLast?.map Prod.fst).getD 0

def LatencyPair.name (p : LatencyPair) : Option String := p.label.filter (· ≠ "")

def LatencyPair.sample (lbl : String) (p : LatencyPair) : Option ℚ :=
  if p.name = some lbl then p.meanUs <|> p.lastUs else none

def UpdateMsg.entries (msg : UpdateMsg) : List LatencyPair :=
  (msg.latency.map LatencyField.entries).getD []

def samples (h : History) (lbl : String) (sec : Nat) : List ℚ :=
  (h.filter fun e => e.1 = sec).flatMap fun e => e.2.entries.filterMap (LatencyPair.sample lbl)

def meanOf (vs : List ℚ) : Option ℚ :=
  if vs = [] then none else some (Binary64.div (vs.foldl Binary64.add 0) vs.length)

/-- List a label with the second in which it comes, unless it is listed or the list is full. -/
def note (now : Nat) (ls : List (String × Nat)) (lbl : String) : List (String × Nat) :=
  if lbl ∉ ls.map Prod.fst ∧ ls.length < maxLatencyPairs then ls ++ [(lbl, now)] else ls

/-- The first six labels, each with the second in which it first came. -/
def listed (h : History) : List (String × Nat) :=
  h.foldl (fun ls e => (e.2.entries.filterMap LatencyPair.name).foldl (note e.1) ls) []

theorem listed_concat (h : History) (e : Nat × UpdateMsg) :
    listed (h ++ [e]) = (e.2.entries.filterMap LatencyPair.name).foldl (note e.1) (listed h) := by
  rw [listed, List.foldl_append]
  rfl

theorem samples_concat (h : History) (e : Nat × UpdateMsg) (lbl : String) (sec : Nat) :
    samples (h ++ [e]) lbl sec = samples h lbl sec ++
      if e.1 = sec then e.2.entries.filterMap (LatencyPair.sample lbl) else [] := by
  rw [samples, List.filter_append, List.flatMap_append, ← samples]
  split_ifs with he <;> simp [he]

def accOf (vs : List ℚ) : Option (ℚ × Nat) :=
  if vs = [] then none else some (vs.foldl Binary64.add 0, vs.length)

theorem mean_accOf (vs : List ℚ) : mean (accOf vs) = meanOf vs := by
  rw [accOf, meanOf]
  split_ifs with h
  · rfl
  · rw [mean, if_pos (List.length_pos_iff.mpr h)]

theorem accOf_concat (vs : List ℚ) (v : ℚ) :
    accOf (vs ++ [v]) =
      some (Binary64.add ((accOf vs).getD (0, 0)).1 v, ((accOf vs).getD (0, 0)).2 + 1) := by
  rw [accOf, if_neg (by simp), accOf]
  split_ifs with h
  · subst h
    rfl
  · simp

theorem note_labels (now : Nat) (ls : List (String × Nat)) (lbl : String) :
    (note now ls lbl).map Prod.fst = listLabel (ls.map Prod.fst) lbl := by
  rw [note, listLabel, List.length_map]
  split_ifs <;> simp

theorem mem_note {now : Nat} {ls : List (String × Nat)} {lbls : List String} {p : String × Nat}
    (h : p ∈ lbls.foldl (note now) ls) : p ∈ ls ∨ (p.2 = now ∧ p.1 ∉ ls.map Prod.fst) := by
  induction lbls generalizing ls with
  | nil => exact .inl h
  | cons lbl lbls ih =>
    rw [List.foldl_cons] at h
    rw [note] at h
    split_ifs at h with hnew
    · obtain hmem | ⟨hnow, hno⟩ := ih h
      · obtain hmem | hmem := List.mem_append.mp hmem
        · exact .inl hmem
        · rw [List.mem_singleton.mp hmem]
          exact .inr ⟨rfl, hnew.1⟩
      · refine .inr ⟨hnow, fun hmem => hno ?_⟩
        rw [List.map_append]
        exact List.mem_append_left _ hmem
    · exact ih h

theorem mem_notes {now : Nat} {ls : List (String × Nat)} {p : String × Nat} (h : p ∈ ls)
    (lbls : List String) : p ∈ lbls.foldl (note now) ls := by
  refine List.foldlRecOn (motive := fun ls : List (String × Nat) => p ∈ ls) _ _ h ?_
  intro ls hls lbl _
  rw [note]
  split_ifs
  · exact List.mem_append_left _ hls
  · exact hls

theorem note_nodup {now : Nat} {ls : List (String × Nat)} (h : (ls.map Prod.fst).Nodup)
    (lbl : String) : ((note now ls lbl).map Prod.fst).Nodup := by
  rw [note]
  split_ifs with hnew
  · rw [List.map_append, List.nodup_append']
    exact ⟨h, List.nodup_singleton _, by simpa using hnew.1⟩
  · exact h

theorem listed_nodup (h : History) : ((listed h).map Prod.fst).Nodup := by
  induction h using List.reverseRecOn with
  | nil => exact List.nodup_nil
  | append_singleton h e ih =>
    rw [listed_concat]
    exact List.foldlRecOn (motive := fun ls : List (String × Nat) => (ls.map Prod.fst).Nodup)
      _ _ ih fun _ hls lbl _ => note_nodup hls lbl

theorem listed_sec {h : History} {p : String × Nat} (hp : p ∈ listed h) : ∃ e ∈ h, e.1 = p.2 := by
  induction h using List.reverseRecOn with
  | nil => cases hp
  | append_singleton h e ih =>
    rw [listed_concat] at hp
    obtain hp | ⟨hnow, -⟩ := mem_note hp
    · obtain ⟨e', he', hsec⟩ := ih hp
      exact ⟨e', List.mem_append_left _ he', hsec⟩
    · exact ⟨e, by simp, hnow.symm⟩

/-- What a pass over the entries does to the labels and the samples. -/
structure Ingested (g g' : Graphs) (ps : List LatencyPair) : Prop where
  last : g'.lastBucketSec = g.lastBucketSec
  rings : g'.latencyRings = g.latencyRings
  labels : g'.latencyPairLabels =
    (ps.filterMap LatencyPair.name).foldl listLabel g.latencyPairLabels
  acc : ∀ lbl vs, g.acc.latency lbl = accOf vs →
    g'.acc.latency lbl = accOf (vs ++ ps.filterMap (LatencyPair.sample lbl))

theorem Ingested.refl (g : Graphs) : Ingested g g [] where
  last := rfl
  rings := rfl
  labels := rfl
  acc := by simp

theorem Ingested.trans {g g' g'' : Graphs} {ps qs : List LatencyPair} (h : Ingested g g' ps)
    (h' : Ingested g' g'' qs) : Ingested g g'' (ps ++ qs) where
  last := h'.last.trans h.last
  rings := h'.rings.trans h.rings
  labels := by rw [h'.labels, h.labels, List.filterMap_append, List.foldl_append]
  acc := by
    intro lbl vs hvs
    rw [h'.acc lbl _ (h.acc lbl vs hvs), List.filterMap_append, List.append_assoc]

theorem addSample_accOf {latency : String → Option (ℚ × Nat)} {lbl : String} {vs : List ℚ}
    (h : latency lbl = accOf vs) (v : ℚ) : addSample latency lbl v lbl = accOf (vs ++ [v]) := by
  rw [addSample, h, accOf_concat]
  exact Function.update_self ..

theorem addSample_of_ne {latency : String → Option (ℚ × Nat)} {lbl lbl' : String}
    (h : lbl' ≠ lbl) (v : ℚ) : addSample latency lbl v lbl' = latency lbl' := by
  rw [addSample]
  exact Function.update_of_ne h ..

theorem ingestPair_spec (g : Graphs) (p : LatencyPair) : Ingested g (g.ingestPair p) [p] := by
  rw [ingestPair]
  split
  · rename_i hnone
    have hname : p.name = none := by rw [LatencyPair.name, hnone]; rfl
    exact ⟨rfl, rfl, by simp [hname], by simp [LatencyPair.sample, hname]⟩
  · rename_i hempty
    have hname : p.name = none := by rw [LatencyPair.name, hempty]; rfl
    exact ⟨rfl, rfl, by simp [hname], by simp [LatencyPair.sample, hname]⟩
  · rename_i lbl hempty hlabel
    have hlbl : lbl ≠ "" := hempty
    have hname : p.name = some lbl := by
      rw [LatencyPair.name, hlabel, Option.filter_some, if_pos (decide_eq_true hlbl)]
    cases hv : p.meanUs <|> p.lastUs with
    | none =>
      refine ⟨rfl, rfl, by simp [hname], ?_⟩
      intro lbl' vs hvs
      have hnone : p.sample lbl' = none := by
        rw [LatencyPair.sample, hv, ite_self]
      simpa [hnone] using hvs
    | some v =>
      refine ⟨rfl, rfl, by simp [hname], ?_⟩
      intro lbl' vs hvs
      by_cases hsame : lbl' = lbl
      · subst hsame
        have hsample : p.sample lbl' = some v := by
          rw [LatencyPair.sample, if_pos hname, hv]
        simpa [hsample] using addSample_accOf hvs v
      · have hsample : p.sample lbl' = none := by
          rw [LatencyPair.sample, hname, if_neg fun h => hsame (Option.some.inj h).symm]
        simpa [hsample, addSample_of_ne hsame] using hvs

theorem ingestPairs_spec (g : Graphs) (ps : List LatencyPair) :
    Ingested g (ps.foldl ingestPair g) ps := by
  induction ps generalizing g with
  | nil => exact Ingested.refl g
  | cons p ps ih => exact (ingestPair_spec g p).trans (ih _)

theorem ingestFrame_keeps (g : Graphs) (f : GraphFrame) : Ingested g (g.ingestFrame f) [] := by
  rw [ingestFrame]
  by_cases hid : f.arbId = ""
  · rw [if_pos hid]
    exact Ingested.refl g
  · rw [if_neg hid]
    exact ⟨rfl, rfl, rfl, by simp⟩

theorem ingestFrames_keep (g : Graphs) (fs : List GraphFrame) :
    Ingested g (fs.foldl ingestFrame g) [] := by
  induction fs generalizing g with
  | nil => exact Ingested.refl g
  | cons f fs ih => exact (ingestFrame_keeps g f).trans (ih _)

theorem ingestBusLoad_keeps (g : Graphs) (load : Option ℚ) :
    Ingested g (g.ingestBusLoad load) [] := by
  cases load with
  | none => exact Ingested.refl g
  | some load => exact ⟨rfl, rfl, rfl, by simp [ingestBusLoad]⟩

theorem ingestDiag_keeps (g : Graphs) (diag : Option DiagField) :
    Ingested g (g.ingestDiag diag) [] := by
  cases diag with
  | none => exact Ingested.refl g
  | some diag => exact ⟨rfl, rfl, rfl, by simp [ingestDiag]⟩

theorem ingestLatency_spec (g : Graphs) (msg : UpdateMsg) :
    Ingested g (g.ingestLatency msg.latency) msg.entries := by
  rw [ingestLatency.eq_def, UpdateMsg.entries]
  cases msg.latency with
  | none => exact Ingested.refl g
  | some latency => exact ingestPairs_spec g latency.entries

def ingestMsg (g : Graphs) (msg : UpdateMsg) : Graphs :=
  msg.frames.foldl ingestFrame
    (((g.ingestBusLoad msg.busLoad).ingestDiag msg.diag).ingestLatency msg.latency)

theorem ingestMsg_spec (g : Graphs) (msg : UpdateMsg) :
    Ingested g (g.ingestMsg msg) msg.entries := by
  have h := (((ingestBusLoad_keeps g msg.busLoad).trans (ingestDiag_keeps _ msg.diag)).trans
    (ingestLatency_spec _ msg)).trans (ingestFrames_keep _ msg.frames)
  rwa [List.nil_append, List.nil_append, List.append_nil] at h

/-- The ring of a label, new if there is none yet. -/
def ringOf (g : Graphs) (lbl : String) : GraphRing := (g.latencyRings lbl).getD makeRing

def pushLabel (g : Graphs) (lbl : String) : Graphs :=
  { g with latencyRings :=
    Function.update g.latencyRings lbl (some (ringPush (g.ringOf lbl) (mean (g.acc.latency lbl)))) }

theorem pushLabels_eq (g : Graphs) {lbls : List String} (h : lbls.Nodup) :
    lbls.foldl pushLabel g =
      { g with latencyRings := fun lbl =>
          if lbl ∈ lbls then some (ringPush (g.ringOf lbl) (mean (g.acc.latency lbl)))
          else g.latencyRings lbl } := by
  induction lbls generalizing g with
  | nil => simp
  | cons l lbls ih =>
    obtain ⟨hl, hrest⟩ := List.nodup_cons.mp h
    rw [List.foldl_cons, ih (g.pushLabel l) hrest]
    have hrings : (fun lbl =>
        if lbl ∈ lbls then
          some (ringPush ((g.pushLabel l).ringOf lbl) (mean ((g.pushLabel l).acc.latency lbl)))
        else (g.pushLabel l).latencyRings lbl) = fun lbl =>
        if lbl ∈ l :: lbls then some (ringPush (g.ringOf lbl) (mean (g.acc.latency lbl)))
        else g.latencyRings lbl := by
      funext lbl
      by_cases hlbl : lbl = l
      · subst hlbl
        simp [hl, pushLabel]
      · simp [hlbl, pushLabel, ringOf]
    rw [hrings]
    rfl

theorem flushLabel_eq (g : Graphs) (lbl : String) :
    g.flushLabel lbl = if decide (lbl ∉ inherited) then some (g.pushLabel lbl) else none := by
  rw [flushLabel]
  by_cases h : lbl ∈ inherited
  · rw [if_pos h, if_neg (by simpa using h)]
  · rw [if_neg h, if_pos (by simpa using h)]
    rfl

theorem flushLabels_eq (g : Graphs) (lbls : List String) :
    ForLoop.tryFold flushLabel g lbls =
      ((lbls.takeWhile fun lbl => decide (lbl ∉ inherited)).foldl pushLabel g,
        !lbls.all fun lbl => decide (lbl ∉ inherited)) :=
  ForLoop.tryFold_guarded flushLabel_eq g lbls

theorem flushBucket_keeps {β : Type} {field : Graphs → β}
    (hrings : ∀ g, field (pushRings g) = field g)
    (hlabel : ∀ g lbl, field (pushLabel g lbl) = field g)
    (hclose : ∀ g sec, field (closeBucket g sec) = field g) (g : Graphs) (sec : Nat) :
    field (g.flushBucket sec).1 = field g := by
  have hlabels : ∀ lbls : List String, field (lbls.foldl pushLabel g.pushRings) = field g :=
    fun lbls => List.foldlRecOn (motive := fun g' : Graphs => field g' = field g) _ _ (hrings g)
      fun g' ih lbl _ => (hlabel g' lbl).trans ih
  rw [flushBucket, flushLabels_eq]
  dsimp only
  split_ifs
  · exact hlabels _
  · exact (hclose _ sec).trans (hlabels _)

theorem flushBucket_labels (g : Graphs) (sec : Nat) :
    (g.flushBucket sec).1.latencyPairLabels = g.latencyPairLabels :=
  flushBucket_keeps (fun _ => rfl) (fun _ _ => rfl) (fun _ _ => rfl) g sec

theorem flushBucket_raises (g : Graphs) (sec : Nat) :
    (g.flushBucket sec).2 = true ↔ ∃ lbl ∈ g.latencyPairLabels, lbl ∈ inherited := by
  rw [flushBucket, flushLabels_eq]
  dsimp only
  split_ifs with h
  · simpa using h
  · apply iff_of_false id
    simpa using h

theorem flushBucket_quiet {g : Graphs} (hown : ∀ lbl ∈ g.latencyPairLabels, lbl ∉ inherited)
    (sec : Nat) : (g.flushBucket sec).2 = false := by
  rw [← Bool.not_eq_true, flushBucket_raises]
  rintro ⟨lbl, hlbl, hin⟩
  exact hown lbl hlbl hin

/-- What each flush keeps, with the second that it completes, the loop keeps. -/
theorem flushSeconds_induction {I : Nat → Graphs → Prop}
    (hflush : ∀ last g, I last g → (g.flushBucket g.lastBucketSec).2 = false ∧
      I (last + 1) { (g.flushBucket g.lastBucketSec).1 with
        lastBucketSec := (g.flushBucket g.lastBucketSec).1.lastBucketSec + 1 })
    (n : Nat) {last : Nat} {g : Graphs} (h : I last g) :
    (flushSeconds n g).2 = false ∧ I (last + n) (flushSeconds n g).1 := by
  induction n generalizing last g with
  | zero => exact ⟨rfl, h⟩
  | succ n ih =>
    obtain ⟨hquiet, hnext⟩ := hflush last g h
    have hsum : last + (n + 1) = last + 1 + n := by omega
    rw [flushSeconds]
    dsimp only
    rw [hquiet, if_neg Bool.false_ne_true, hsum]
    exact ih hnext

theorem flushBucket_spec {g : Graphs} (hnodup : g.latencyPairLabels.Nodup)
    (hown : ∀ lbl ∈ g.latencyPairLabels, lbl ∉ inherited) (sec : Nat) :
    (g.flushBucket sec).1.lastBucketSec = g.lastBucketSec ∧
      (g.flushBucket sec).1.acc.latency = (fun _ => none) ∧
      (g.flushBucket sec).1.latencyRings = fun lbl =>
        if lbl ∈ g.latencyPairLabels then
          some (ringPush (g.ringOf lbl) (mean (g.acc.latency lbl)))
        else g.latencyRings lbl := by
  have hall : (g.latencyPairLabels.all fun lbl => decide (lbl ∉ inherited)) = true := by
    simpa using hown
  have hwhile : (g.latencyPairLabels.takeWhile fun lbl => decide (lbl ∉ inherited)) =
      g.latencyPairLabels := List.takeWhile_eq_self_iff.mpr (by simpa using hown)
  rw [flushBucket, flushLabels_eq]
  dsimp only
  rw [hall, hwhile, pushLabels_eq _ hnodup]
  exact ⟨rfl, rfl, rfl⟩

/-- The values of a label from the second in which it was listed to the one that is filled. -/
def means (h : History) (lbl : String) (first last : Nat) : List (Option ℚ) :=
  (List.range' first (last - first)).map fun sec => meanOf (samples h lbl sec)

/-- The state after messages up to a second, with the seconds in front of it flushed. -/
structure Tracks (h : History) (last : Nat) (g : Graphs) : Prop where
  sec : g.lastBucketSec = last
  labels : g.latencyPairLabels = (listed h).map Prod.fst
  acc : ∀ lbl, g.acc.latency lbl = accOf (samples h lbl last)
  rings : ∀ p ∈ listed h, Shows (g.ringOf p.1) (means h p.1 p.2 last)
  unlisted : ∀ lbl ∉ g.latencyPairLabels, g.latencyRings lbl = none

theorem samples_of_lt {h : History} {lbl : String} {sec : Nat} (hlt : ∀ e ∈ h, e.1 < sec) :
    samples h lbl sec = [] := by
  have hnone : (h.filter fun e => e.1 = sec) = [] :=
    List.filter_eq_nil_iff.mpr fun e he => by simpa using (hlt e he).ne
  rw [samples, hnone, List.flatMap_nil]

theorem means_succ (h : History) (lbl : String) {first last : Nat} (hle : first ≤ last) :
    means h lbl first (last + 1) = means h lbl first last ++ [meanOf (samples h lbl last)] := by
  rw [means, means, Nat.succ_sub hle, List.range'_concat, List.map_append, List.map_singleton,
    Nat.one_mul, Nat.add_sub_of_le hle]

theorem Tracks.flush {h : History} {last : Nat} {g : Graphs} (ht : Tracks h last g)
    (hown : ∀ p ∈ listed h, p.1 ∉ inherited) (hle : ∀ e ∈ h, e.1 ≤ last) :
    Tracks h (last + 1)
      { (g.flushBucket g.lastBucketSec).1 with
        lastBucketSec := (g.flushBucket g.lastBucketSec).1.lastBucketSec + 1 } := by
  have hnodup : g.latencyPairLabels.Nodup := ht.labels ▸ listed_nodup h
  have hown' : ∀ lbl ∈ g.latencyPairLabels, lbl ∉ inherited := by
    rw [ht.labels]
    intro lbl hlbl
    obtain ⟨p, hp, rfl⟩ := List.mem_map.mp hlbl
    exact hown p hp
  obtain ⟨hlast, hacc, hrings⟩ := flushBucket_spec hnodup hown' g.lastBucketSec
  have hlabels := flushBucket_labels g g.lastBucketSec
  refine ⟨by rw [hlast, ht.sec], hlabels.trans ht.labels, ?_, ?_, ?_⟩
  · intro lbl
    rw [hacc, samples_of_lt fun e he => Nat.lt_succ_of_le (hle e he)]
    rfl
  · intro p hp
    have hmem : p.1 ∈ g.latencyPairLabels := ht.labels ▸ List.mem_map_of_mem hp
    obtain ⟨e, he, hsec⟩ := listed_sec hp
    have hpush := (ht.rings p hp).push (mean (g.acc.latency p.1))
    rw [ht.acc, mean_accOf, ← means_succ h p.1 (hsec ▸ hle e he), ← mean_accOf, ← ht.acc] at hpush
    rw [ringOf, hrings]
    dsimp only
    rwa [if_pos hmem, Option.getD_some]
  · intro lbl hlbl
    rw [hlabels] at hlbl
    rw [hrings]
    exact (if_neg hlbl).trans (ht.unlisted lbl hlbl)

theorem Tracks.flushSeconds {h : History} (hown : ∀ p ∈ listed h, p.1 ∉ inherited) (n : Nat)
    {last : Nat} {g : Graphs} (ht : Tracks h last g) (hle : ∀ e ∈ h, e.1 ≤ last) :
    (flushSeconds n g).2 = false ∧ Tracks h (last + n) (flushSeconds n g).1 := by
  have hrun := flushSeconds_induction
    (I := fun last g => Tracks h last g ∧ ∀ e ∈ h, e.1 ≤ last)
    (by
      rintro last g ⟨ht, hle⟩
      have hquiet : (g.flushBucket g.lastBucketSec).2 = false := by
        apply flushBucket_quiet
        rw [ht.labels]
        intro lbl hlbl
        obtain ⟨p, hp, rfl⟩ := List.mem_map.mp hlbl
        exact hown p hp
      exact ⟨hquiet, ht.flush hown hle, fun e he => Nat.le_succ_of_le (hle e he)⟩)
    n ⟨ht, hle⟩
  exact ⟨hrun.1, hrun.2.1⟩

theorem notes_labels (now : Nat) (ls : List (String × Nat)) (lbls : List String) :
    (lbls.foldl (note now) ls).map Prod.fst = lbls.foldl listLabel (ls.map Prod.fst) := by
  induction lbls generalizing ls with
  | nil => rfl
  | cons lbl lbls ih => rw [List.foldl_cons, List.foldl_cons, ih, note_labels]

theorem subset_listLabels (labels lbls : List String) :
    labels ⊆ lbls.foldl listLabel labels := by
  induction lbls generalizing labels with
  | nil => exact List.Subset.refl labels
  | cons lbl lbls ih =>
    refine List.Subset.trans ?_ (ih (listLabel labels lbl))
    rw [listLabel]
    split_ifs
    · exact List.subset_append_left ..
    · exact List.Subset.refl labels

theorem length_listLabels {labels : List String} (h : labels.length ≤ maxLatencyPairs)
    (lbls : List String) : (lbls.foldl listLabel labels).length ≤ maxLatencyPairs := by
  refine List.foldlRecOn (motive := fun ls : List String => ls.length ≤ maxLatencyPairs) _ _ h ?_
  intro ls hls lbl _
  rw [listLabel]
  split_ifs with hnew
  · rw [List.length_append, List.length_singleton]
    exact hnew.2
  · exact hls

theorem Tracks.ingestMsg {h : History} {now : Nat} {g : Graphs} (ht : Tracks h now g)
    (msg : UpdateMsg) : Tracks (h ++ [(now, msg)]) now (g.ingestMsg msg) := by
  have hin := ingestMsg_spec g msg
  have hlabels : (g.ingestMsg msg).latencyPairLabels =
      (listed (h ++ [(now, msg)])).map Prod.fst := by
    rw [hin.labels, listed_concat, notes_labels, ht.labels]
  refine ⟨hin.last.trans ht.sec, hlabels, ?_, ?_, ?_⟩
  · intro lbl
    rw [samples_concat, if_pos rfl]
    exact hin.acc lbl _ (ht.acc lbl)
  · intro p hp
    rw [listed_concat] at hp
    obtain hold | ⟨hnow, hnew⟩ := mem_note hp
    · have hmeans : means (h ++ [(now, msg)]) p.1 p.2 now = means h p.1 p.2 now := by
        apply List.map_congr_left
        intro sec hsec
        have hlt : now ≠ sec := by
          have := List.mem_range'_1.mp hsec
          omega
        rw [samples_concat, if_neg hlt, List.append_nil]
      rw [ringOf, hin.rings, hmeans]
      exact ht.rings p hold
    · rw [← ht.labels] at hnew
      rw [ringOf, hin.rings, ht.unlisted _ hnew, means, hnow, Nat.sub_self]
      exact shows_makeRing
  · intro lbl hlbl
    rw [hin.rings]
    refine ht.unlisted lbl fun hmem => hlbl ?_
    rw [hin.labels]
    exact subset_listLabels _ _ hmem

structure Clocked (h : History) : Prop where
  positive : ∀ e ∈ h, 0 < e.1
  sorted : h.Pairwise fun d e => d.1 ≤ e.1

theorem Clocked.concat {h : History} {e : Nat × UpdateMsg} (hc : Clocked (h ++ [e])) :
    Clocked h ∧ 0 < e.1 ∧ ∀ d ∈ h, d.1 ≤ e.1 := by
  obtain ⟨hsorted, -, hlast⟩ := List.pairwise_append.mp hc.sorted
  exact ⟨⟨fun d hd => hc.positive d (List.mem_append_left _ hd), hsorted⟩,
    hc.positive e (by simp), fun d hd => hlast d hd e (by simp)⟩

theorem lastSec_concat (h : History) (e : Nat × UpdateMsg) : lastSec (h ++ [e]) = e.1 := by
  simp [lastSec]

theorem lastSec_le {h : History} {now : Nat} (hle : ∀ e ∈ h, e.1 ≤ now) : lastSec h ≤ now := by
  obtain rfl | ⟨h, e, rfl⟩ := List.eq_nil_or_concat' h
  · exact Nat.zero_le now
  · rw [lastSec_concat]
    exact hle e (by simp)

theorem le_lastSec_of_sorted {h : History} (hs : h.Pairwise fun d e => d.1 ≤ e.1) :
    ∀ e ∈ h, e.1 ≤ lastSec h := by
  obtain rfl | ⟨h, e, rfl⟩ := List.eq_nil_or_concat' h
  · exact List.forall_mem_nil _
  · rw [lastSec_concat]
    intro d hd
    obtain hd | hd := List.mem_append.mp hd
    · exact (List.pairwise_append.mp hs).2.2 d hd e (List.mem_singleton_self e)
    · rw [List.mem_singleton.mp hd]

theorem le_lastSec {h : History} (hc : Clocked h) : ∀ e ∈ h, e.1 ≤ lastSec h :=
  le_lastSec_of_sorted hc.sorted

theorem flushSeconds_keeps {β : Type} {field : Graphs → β}
    (hflush : ∀ g sec, field (flushBucket g sec).1 = field g)
    (hsec : ∀ (g : Graphs) sec, field { g with lastBucketSec := sec } = field g) (n : Nat)
    (g : Graphs) : field (flushSeconds n g).1 = field g := by
  induction n generalizing g with
  | zero => rfl
  | succ n ih =>
    rw [flushSeconds]
    dsimp only
    split_ifs
    · exact hflush g _
    · exact ((ih _).trans (hsec _ _)).trans (hflush g _)

theorem flushSeconds_labels (n : Nat) (g : Graphs) :
    (flushSeconds n g).1.latencyPairLabels = g.latencyPairLabels :=
  flushSeconds_keeps flushBucket_labels (fun _ _ => rfl) n g

theorem graphsIngest_labels (g : Graphs) (nowSec : Nat) (msg : UpdateMsg) :
    ∃ lbls ⊆ msg.entries.filterMap LatencyPair.name,
      (g.graphsIngest nowSec msg).1.latencyPairLabels =
        lbls.foldl listLabel g.latencyPairLabels := by
  have hkept : (flushSeconds (nowSec - (g.startBuckets nowSec).lastBucketSec)
      (g.startBuckets nowSec)).1.latencyPairLabels = g.latencyPairLabels := flushSeconds_labels ..
  rw [graphsIngest]
  dsimp only
  split_ifs
  · exact ⟨[], List.nil_subset _, hkept⟩
  · exact ⟨msg.entries.filterMap LatencyPair.name, List.Subset.refl _,
      hkept ▸ (ingestMsg_spec _ msg).labels⟩

theorem length_labels (h : History) : (run h).latencyPairLabels.length ≤ maxLatencyPairs := by
  induction h using List.reverseRecOn with
  | nil => exact Nat.zero_le _
  | append_singleton h e ih =>
    obtain ⟨lbls, -, hlbls⟩ := graphsIngest_labels (run h) e.1 e.2
    rw [run_concat, hlbls]
    exact length_listLabels ih lbls

theorem Tracks.start {h : History} (hc : Clocked h) {g : Graphs} (ht : Tracks h (lastSec h) g)
    {now : Nat} (hle : ∀ e ∈ h, e.1 ≤ now) :
    ∃ last, last ≤ now ∧ (∀ e ∈ h, e.1 ≤ last) ∧ Tracks h last (g.startBuckets now) := by
  rw [startBuckets, ht.sec]
  cases h using List.reverseRecOn with
  | nil => exact ⟨now, le_rfl, by simp, rfl, ht.labels, ht.acc, by rintro p ⟨⟩, ht.unlisted⟩
  | append_singleton h e =>
    obtain ⟨-, hpos, -⟩ := hc.concat
    have hsec := lastSec_concat h e
    exact ⟨lastSec (h ++ [e]), lastSec_le hle, le_lastSec hc, if_neg (by omega), ht.labels, ht.acc,
      ht.rings, ht.unlisted⟩

theorem Tracks.graphsIngest {h : History} {e : Nat × UpdateMsg} (hc : Clocked (h ++ [e]))
    (hown : ∀ p ∈ listed h, p.1 ∉ inherited) {g : Graphs} (ht : Tracks h (lastSec h) g) :
    Tracks (h ++ [e]) (lastSec (h ++ [e])) (g.graphsIngest e.1 e.2).1 := by
  obtain ⟨hch, -, hle⟩ := hc.concat
  obtain ⟨last, hlast, hall, hstart⟩ := ht.start hch hle
  obtain ⟨hquiet, hflushed⟩ := hstart.flushSeconds hown (e.1 - last) hall
  rw [Nat.add_sub_of_le hlast] at hflushed
  rw [Graphs.graphsIngest]
  dsimp only
  rw [hstart.sec, hquiet, if_neg Bool.false_ne_true, lastSec_concat]
  exact hflushed.ingestMsg e.2

/-- Every run lists an inherited name, or the state follows its history. -/
theorem run_tracks {h : History} (hc : Clocked h) :
    ((∃ p ∈ listed h, p.1 ∈ inherited) ∧ ∃ lbl ∈ (run h).latencyPairLabels, lbl ∈ inherited) ∨
      ((∀ p ∈ listed h, p.1 ∉ inherited) ∧ Tracks h (lastSec h) (run h)) := by
  induction h using List.reverseRecOn with
  | nil =>
    refine .inr ⟨by rintro p ⟨⟩, rfl, rfl, fun _ => rfl, by rintro p ⟨⟩, fun _ _ => rfl⟩
  | append_singleton h e ih =>
    rw [run_concat]
    obtain ⟨⟨p, hp, hin⟩, lbl, hlbl, hin'⟩ | ⟨hown, ht⟩ := ih hc.concat.1
    · -- an inherited name stays listed
      left
      obtain ⟨lbls, -, hlbls⟩ := graphsIngest_labels (run h) e.1 e.2
      refine ⟨⟨p, ?_, hin⟩, lbl, ?_, hin'⟩
      · rw [listed_concat]
        exact mem_notes hp _
      · rw [hlbls]
        exact subset_listLabels _ _ hlbl
    · have hnew := ht.graphsIngest hc hown
      by_cases hall : ∀ p ∈ listed (h ++ [e]), p.1 ∉ inherited
      · exact .inr ⟨hall, hnew⟩
      · push Not at hall
        obtain ⟨p, hp, hin⟩ := hall
        refine .inl ⟨⟨p, hp, hin⟩, p.1, ?_, hin⟩
        rw [hnew.labels]
        exact List.mem_map_of_mem hp

end Graphs
end CanSniffer
