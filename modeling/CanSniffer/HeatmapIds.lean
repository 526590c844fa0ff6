import CanSniffer.HeatmapColumns
import CanSniffer.Library.SmallestKeys
import CanSniffer.Models

namespace CanSniffer.Graphs

open Library Library.SmallestKeys Models

/-- Every identifier has the form that `to_dict` gives it. -/
def Canonical (h : History) : Prop :=
  ∀ e ∈ h, ∀ f ∈ e.2.frames, ∃ frame : EnrichedFrame, f.arbId = frame.toDict.arbId

/-- The identifiers of the frames that the page has come to: an exception leaves a call in front of
them. -/
def seenFrom (g : Graphs) : History → List String
  | [] => []
  | e :: h =>
    (if (g.graphsIngest e.1 e.2).2 then [] else e.2.frames.map (·.arbId)) ++
      seenFrom (g.graphsIngest e.1 e.2).1 h

def seenIds (h : History) : List String := seenFrom {} h

def OwnLabels (h : History) : Prop :=
  ∀ e ∈ h, ∀ lbl ∈ e.2.entries.filterMap LatencyPair.name, lbl ∉ inherited

variable {g : Graphs} {h : History} {e : Nat × UpdateMsg} {seen : Finset String}

theorem readHexDigits_hex (n : Nat) (cs : List Char) :
    JsNumber.readHexDigits 0 ((Nat.toDigits 16 n).map Char.toUpper ++ cs) =
      JsNumber.readHexDigits n cs := by
  induction n using Nat.strong_induction_on generalizing cs with
  | _ n ih =>
    by_cases hn : n < 16
    · rw [Nat.toDigits_of_lt_base hn, List.map_singleton, List.singleton_append,
        JsNumber.readHexDigits,
        PyText.hexValue_digit hn]
      simp
    · have hdiv : n / 16 < n := Nat.div_lt_self (by omega) (by decide)
      rw [Nat.toDigits_of_base_le (by decide) (by omega), List.map_append, List.append_assoc,
        ih _ hdiv, List.map_singleton, List.singleton_append, JsNumber.readHexDigits,
        PyText.hexValue_digit (Nat.mod_lt n (by decide))]
      dsimp only
      rw [Nat.div_add_mod]

theorem readHexDigits_zeros (k : Nat) (cs : List Char) :
    JsNumber.readHexDigits 0 (List.replicate k '0' ++ cs) = JsNumber.readHexDigits 0 cs := by
  induction k with
  | zero => rfl
  | succ k ih => exact ih

theorem parseHex_toDict (frame : EnrichedFrame) : parseHex frame.toDict.arbId = frame.arbId := by
  have hread := readHexDigits_hex frame.arbId []
  have hdrop : ("0x" ++ PyText.hexUpper 3 frame.arbId).toList.drop 2 =
      (PyText.hexUpper 3 frame.arbId).toList := by
    rw [String.toList_append]
    rfl
  rw [List.append_nil] at hread
  rw [parseHex, EnrichedFrame.toDict, hdrop, PyText.toList_hexUpper, readHexDigits_zeros, hread]
  rfl

theorem arbId_ne_empty (frame : EnrichedFrame) : frame.toDict.arbId ≠ "" := by
  intro hempty
  have hlist := congrArg String.toList hempty
  rw [EnrichedFrame.toDict, String.toList_append] at hlist
  cases hlist

theorem parseHex_injOn (hseen : ∀ id ∈ seen, ∃ frame : EnrichedFrame, id = frame.toDict.arbId) :
    Set.InjOn parseHex (seen : Set String) := by
  intro a ha b hb hab
  obtain ⟨frame, rfl⟩ := hseen a ha
  obtain ⟨frame', rfl⟩ := hseen b hb
  rw [parseHex_toDict, parseHex_toDict] at hab
  dsimp only [EnrichedFrame.toDict]
  rw [hab]

theorem flushBucket_heatmapIds (g : Graphs) (sec : Nat) :
    (g.flushBucket sec).1.heatmapIds = g.heatmapIds :=
  flushBucket_keeps (fun _ => rfl) (fun _ _ => rfl) (fun _ _ => rfl) g sec

theorem flushSeconds_heatmapIds (n : Nat) (g : Graphs) :
    (flushSeconds n g).1.heatmapIds = g.heatmapIds :=
  flushSeconds_keeps flushBucket_heatmapIds (fun _ _ => rfl) n g

theorem ingestPair_heatmapIds (g : Graphs) (p : LatencyPair) :
    (g.ingestPair p).heatmapIds = g.heatmapIds := by
  rw [ingestPair]
  split
  · rfl
  · rfl
  · dsimp only
    split
    · rfl
    · rfl

theorem ingestFields_heatmapIds (g : Graphs) (msg : UpdateMsg) :
    (((g.ingestBusLoad msg.busLoad).ingestDiag msg.diag).ingestLatency msg.latency).heatmapIds =
      g.heatmapIds := by
  have hload : (g.ingestBusLoad msg.busLoad).heatmapIds = g.heatmapIds := by
    cases msg.busLoad with
    | none => rfl
    | some load => rfl
  have hdiag : ((g.ingestBusLoad msg.busLoad).ingestDiag msg.diag).heatmapIds = g.heatmapIds := by
    rw [← hload]
    cases msg.diag with
    | none => rfl
    | some diag => rfl
  rw [← hdiag]
  cases msg.latency with
  | none => rfl
  | some latency =>
    exact List.foldlRecOn (motive := fun g' : Graphs => g'.heatmapIds =
      ((g.ingestBusLoad msg.busLoad).ingestDiag msg.diag).heatmapIds) _ _ rfl
      fun g' ih p _ => (ingestPair_heatmapIds g' p).trans ih

theorem graphsIngest_heatmapIds (g : Graphs) (nowSec : Nat) (msg : UpdateMsg) :
    ((g.graphsIngest nowSec msg).2 = true ∧
        (g.graphsIngest nowSec msg).1.heatmapIds = g.heatmapIds) ∨
      ((g.graphsIngest nowSec msg).2 = false ∧ ∃ g' : Graphs, g'.heatmapIds = g.heatmapIds ∧
        (g.graphsIngest nowSec msg).1 = msg.frames.foldl ingestFrame g') := by
  have hkept : (flushSeconds (nowSec - (g.startBuckets nowSec).lastBucketSec)
      (g.startBuckets nowSec)).1.heatmapIds = g.heatmapIds := flushSeconds_heatmapIds ..
  rw [graphsIngest]
  dsimp only
  by_cases hraised : (flushSeconds (nowSec - (g.startBuckets nowSec).lastBucketSec)
      (g.startBuckets nowSec)).2 = true
  · rw [if_pos hraised]
    exact .inl ⟨rfl, hkept⟩
  · rw [if_neg hraised]
    exact .inr ⟨rfl, _, (ingestFields_heatmapIds _ msg).trans hkept, rfl⟩

theorem ingestFrame_heatmapIds (g : Graphs) {f : GraphFrame} (hid : f.arbId ≠ "") :
    (g.ingestFrame f).heatmapIds = if f.arbId ∈ g.heatmapIds then g.heatmapIds
      else insertSmallest heatmapIdsMax parseHex g.heatmapIds f.arbId := by
  rw [ingestFrame, if_neg hid]
  rfl

theorem smallest_ingestFrame (hrows : Smallest heatmapIdsMax parseHex g.heatmapIds seen)
    {f : GraphFrame} (hid : f.arbId ≠ "")
    (hkey : Set.InjOn parseHex (insert f.arbId seen : Finset String)) :
    Smallest heatmapIdsMax parseHex (g.ingestFrame f).heatmapIds (insert f.arbId seen) := by
  rw [ingestFrame_heatmapIds g hid]
  split_ifs with hlisted
  · rw [Finset.insert_eq_of_mem (hrows.mem_seen _ hlisted)]
    exact hrows
  · exact hrows.insert hlisted hkey

theorem smallest_ingestFrames {fs : List GraphFrame} {ids : List String}
    (hrows : Smallest heatmapIdsMax parseHex g.heatmapIds ids.toFinset)
    (hids : ∀ id ∈ ids ++ fs.map (·.arbId), ∃ frame : EnrichedFrame, id = frame.toDict.arbId) :
    Smallest heatmapIdsMax parseHex (fs.foldl ingestFrame g).heatmapIds
      (ids ++ fs.map (·.arbId)).toFinset := by
  induction fs generalizing g ids with
  | nil => simpa using hrows
  | cons f fs ih =>
    rw [List.map_cons, List.append_cons] at hids ⊢
    apply ih _ hids
    have hinsert : (ids ++ [f.arbId]).toFinset = insert f.arbId ids.toFinset := by
      ext id
      simp
    rw [hinsert]
    apply smallest_ingestFrame hrows
    · obtain ⟨frame, hframe⟩ := hids f.arbId (by simp)
      rw [hframe]
      exact arbId_ne_empty frame
    · apply parseHex_injOn
      intro id hid
      rw [← hinsert, List.mem_toFinset] at hid
      exact hids id (List.mem_append_left _ hid)

theorem seenFrom_concat (g : Graphs) (h : History) (e : Nat × UpdateMsg) :
    seenFrom g (h ++ [e]) = seenFrom g h ++
      if ((h.foldl (fun g e => (g.graphsIngest e.1 e.2).1) g).graphsIngest e.1 e.2).2 then []
      else e.2.frames.map (·.arbId) := by
  induction h generalizing g with
  | nil => exact List.append_nil _
  | cons d h ih => rw [List.cons_append, seenFrom, seenFrom, ih, List.append_assoc, List.foldl_cons]

theorem seenIds_concat (h : History) (e : Nat × UpdateMsg) :
    seenIds (h ++ [e]) = seenIds h ++
      if ((run h).graphsIngest e.1 e.2).2 then [] else e.2.frames.map (·.arbId) :=
  seenFrom_concat {} h e

theorem mem_seenIds {id : String} (hid : id ∈ seenIds h) :
    ∃ e ∈ h, id ∈ e.2.frames.map (·.arbId) := by
  induction h using List.reverseRecOn with
  | nil => cases hid
  | append_singleton h e ih =>
    rw [seenIds_concat] at hid
    obtain hold | hnew := List.mem_append.mp hid
    · obtain ⟨d, hd, hmem⟩ := ih hold
      exact ⟨d, List.mem_append_left _ hd, hmem⟩
    · split_ifs at hnew
      · cases hnew
      · exact ⟨e, by simp, hnew⟩

theorem canonical_seenIds (hcanonical : Canonical h) :
    ∀ id ∈ seenIds h, ∃ frame : EnrichedFrame, id = frame.toDict.arbId := by
  intro id hid
  obtain ⟨e, he, hmem⟩ := mem_seenIds hid
  obtain ⟨f, hf, rfl⟩ := List.mem_map.mp hmem
  exact hcanonical e he f hf

theorem smallest_graphsIngest {ids : List String} {nowSec : Nat} {msg : UpdateMsg}
    (hrows : Smallest heatmapIdsMax parseHex g.heatmapIds ids.toFinset)
    (hids : ∀ id ∈ ids ++ if (g.graphsIngest nowSec msg).2 then [] else msg.frames.map (·.arbId),
      ∃ frame : EnrichedFrame, id = frame.toDict.arbId) :
    Smallest heatmapIdsMax parseHex (g.graphsIngest nowSec msg).1.heatmapIds
      (ids ++ if (g.graphsIngest nowSec msg).2 then []
        else msg.frames.map (·.arbId)).toFinset := by
  obtain ⟨hraised, hkept⟩ | ⟨hquiet, g', hkept, heq⟩ := graphsIngest_heatmapIds g nowSec msg
  · rw [hraised, hkept, if_pos rfl, List.append_nil]
    exact hrows
  · rw [hquiet, if_neg Bool.false_ne_true] at hids ⊢
    rw [heq]
    apply smallest_ingestFrames _ hids
    rw [hkept]
    exact hrows

theorem smallest_run (hcanonical : Canonical h) :
    Smallest heatmapIdsMax parseHex (run h).heatmapIds (seenIds h).toFinset := by
  induction h using List.reverseRecOn with
  | nil => exact smallest_nil _ _
  | append_singleton h e ih =>
    have hids := canonical_seenIds hcanonical
    have hrows := ih fun d hd => hcanonical d (List.mem_append_left _ hd)
    rw [seenIds_concat] at hids ⊢
    rw [run_concat]
    exact smallest_graphsIngest hrows hids

theorem labels_own (hown : OwnLabels h) : ∀ lbl ∈ (run h).latencyPairLabels, lbl ∉ inherited := by
  induction h using List.reverseRecOn with
  | nil => exact fun lbl hlbl => nomatch hlbl
  | append_singleton h e ih =>
    obtain ⟨lbls, hsub, hlbls⟩ := graphsIngest_labels (run h) e.1 e.2
    have hbefore := ih fun d hd => hown d (List.mem_append_left _ hd)
    have hnew : ∀ lbl ∈ lbls, lbl ∉ inherited := fun lbl hlbl => hown e (by simp) lbl (hsub hlbl)
    rw [run_concat, hlbls]
    refine List.foldlRecOn
      (motive := fun labels : List String => ∀ lbl ∈ labels, lbl ∉ inherited) _ _ hbefore ?_
    intro labels hlabels lbl hlbl
    rw [listLabel]
    split_ifs
    · rw [List.forall_mem_append]
      exact ⟨hlabels, by simpa using hnew lbl hlbl⟩
    · exact hlabels

theorem seenIds_eq (hown : OwnLabels h) :
    seenIds h = h.flatMap fun e => e.2.frames.map (·.arbId) := by
  induction h using List.reverseRecOn with
  | nil => rfl
  | append_singleton h e ih =>
    have hbefore : OwnLabels h := fun d hd => hown d (List.mem_append_left _ hd)
    have hquiet : ((run h).graphsIngest e.1 e.2).2 = false := by
      rw [graphsIngest]
      dsimp only
      split_ifs with hraised
      · obtain ⟨lbl, hlbl, hin⟩ := flushSeconds_raises _ _ hraised
        exact absurd hin (labels_own hbefore lbl hlbl)
      · rfl
    rw [seenIds_concat, hquiet, ih hbefore]
    simp

/-- After each call the rows of the heatmap are strictly increasing, and those of the
`heatmapIdsMax` smallest identifiers of the ones that were seen, in whatever order they came; these
are the identifiers of all frames, unless a label that every object inherits makes a call raise. -/
theorem heatmapIds_smallest (hcanonical : Canonical h) :
    Smallest heatmapIdsMax parseHex (run h).heatmapIds (seenIds h).toFinset ∧
      (∀ h', Canonical h' → (seenIds h').toFinset = (seenIds h).toFinset →
        (run h').heatmapIds = (run h).heatmapIds) ∧
      (OwnLabels h → seenIds h = h.flatMap fun e => e.2.frames.map (·.arbId)) := by
  have hrows := smallest_run hcanonical
  refine ⟨hrows, ?_, seenIds_eq⟩
  intro h' hcanonical' heq
  exact (heq ▸ smallest_run hcanonical').unique hrows

def frameOf (arbId : Nat) : EnrichedFrame where
  arbId := arbId
  dlc := 0
  data := []
  isExtended := false
  pruTsNs := none
  kernelTs := 0

def twoFrames : History :=
  [(5, frameMsg (frameOf 0x123).toDict.arbId), (6, frameMsg (frameOf 0x1).toDict.arbId)]

theorem heatmapIds_smallest_twoFrames :
    Smallest heatmapIdsMax parseHex (run twoFrames).heatmapIds (seenIds twoFrames).toFinset ∧
      (∀ h', Canonical h' → (seenIds h').toFinset = (seenIds twoFrames).toFinset →
        (run h').heatmapIds = (run twoFrames).heatmapIds) ∧
      (OwnLabels twoFrames →
        seenIds twoFrames = twoFrames.flatMap fun e => e.2.frames.map (·.arbId)) := by
  apply heatmapIds_smallest
  intro e he f hf
  obtain rfl | he := List.mem_cons.mp he
  · exact ⟨frameOf 0x123, congrArg GraphFrame.arbId (List.mem_singleton.mp hf)⟩
  · rw [List.mem_singleton.mp he] at hf
    exact ⟨frameOf 0x1, congrArg GraphFrame.arbId (List.mem_singleton.mp hf)⟩

end CanSniffer.Graphs
