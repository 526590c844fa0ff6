import CanSniffer.HeatmapIds
import CanSniffer.Histogram
import CanSniffer.Library.Trimmed
import CanSniffer.PageView

namespace CanSniffer

open Library Models

structure Dashboard where
  view : PageView := {}
  graphs : Graphs := {}

namespace Dashboard

open DashboardPage Graphs

/-- The frames that the loop over those of a message pushes. -/
def markAll : DashboardPage → List FrameDict → List PageFrame
  | _, [] => []
  | page, f :: more => mark (page.lastIdTs f.arbId) f :: markAll (page.ingestFrame f) more

def graphFrame (f : PageFrame) : GraphFrame where
  arbId := f.dict.arbId
  deltaUs := f.deltaUs.map (↑)
  pruTsNs := f.dict.pruTsNs.map parseNumber
  kernelTs := some f.dict.kernelTs

inductive Act
  | message (nowSec : Nat) (frames : List FrameDict) (msg : UpdateMsg)
  | control (c : PageView.Control)

def step (d : Dashboard) : Act → Dashboard
  | .message nowSec frames msg =>
    { view := d.view.update frames
      graphs := (d.graphs.graphsIngest nowSec
        { msg with frames := (markAll d.view.page frames).map graphFrame }).1 }
  | .control c => { d with view := d.view.control c }

def run (acts : List Act) : Dashboard := acts.foldl step {}

def histBins : Nat := 40

def idSamples (d : Dashboard) (id : String) : List ℚ := (d.graphs.idDeltaHistory.get? id).getD []

theorem markAll_eq {page : DashboardPage} {frames : List FrameDict} (h : PageView.Has page frames)
    (more : List FrameDict) :
    PageView.pageFrames (frames ++ more) = PageView.pageFrames frames ++ markAll page more := by
  induction more generalizing page frames with
  | nil => rw [markAll, List.append_nil, List.append_nil]
  | cons f more ih =>
    have hrest := ih (PageView.has_ingestFrame h f)
    have hmarked : PageView.pageFrame frames f = mark (page.lastIdTs f.arbId) f := by
      rw [PageView.pageFrame, h.lastIdTs]
    rw [List.append_assoc, PageView.pageFrames_concat, hmarked, List.append_assoc] at hrest
    exact hrest

theorem length_pageFrames (frames : List FrameDict) :
    (PageView.pageFrames frames).length = frames.length := List.length_mapIdx

/-- The frames of the messages, each with its distance from the one before it on the page, which has
`frames` at the beginning. -/
def marksFrom (frames : List FrameDict) : List Act → List PageFrame
  | [] => []
  | .message _ more _ :: acts =>
    (PageView.pageFrames (frames ++ more)).drop frames.length ++ marksFrom (frames ++ more) acts
  | .control c :: acts => marksFrom (PageView.kept frames c) acts

def marks (acts : List Act) : List PageFrame := marksFrom [] acts

def offsetOf (f : GraphFrame) : Option ℚ :=
  match f.pruTsNs, f.kernelTs with
  | some pru, some kernel =>
    some (Binary64.div (Binary64.sub pru (Binary64.mul kernel (10 ^ 9))) 1000)
  | _, _ => none

structure Sampled (g : Graphs) (fs : List GraphFrame) : Prop where
  deltas : ∀ id ≠ "", Trimmed.Keeps 2000 500 ((g.idDeltaHistory.get? id).getD [])
    ((fs.filter (·.arbId = id)).filterMap (·.deltaUs))
  offsets : Trimmed.Keeps 2000 500 g.pruKernelDeltas
    ((fs.filter (·.arbId ≠ "")).filterMap offsetOf)

variable {g g' : Graphs} {fs : List GraphFrame}

theorem sampled_congr (h : Sampled g fs) (hdeltas : g'.idDeltaHistory = g.idDeltaHistory)
    (hoffsets : g'.pruKernelDeltas = g.pruKernelDeltas) : Sampled g' fs := by
  constructor
  · rw [hdeltas]
    exact h.deltas
  · rw [hoffsets]
    exact h.offsets

theorem idDeltaHistory_ingestFrame {f : GraphFrame} (hid : f.arbId ≠ "") :
    (g.ingestFrame f).idDeltaHistory = match f.deltaUs with
      | none => g.idDeltaHistory
      | some delta => g.idDeltaHistory.set f.arbId
          (Trimmed.push 2000 500 ((g.idDeltaHistory.get? f.arbId).getD []) delta) :=
  congrArg Graphs.idDeltaHistory (if_neg hid)

theorem pruKernelDeltas_ingestFrame {f : GraphFrame} (hid : f.arbId ≠ "") :
    (g.ingestFrame f).pruKernelDeltas = match offsetOf f with
      | none => g.pruKernelDeltas
      | some offset => Trimmed.push 2000 500 g.pruKernelDeltas offset := by
  rw [Graphs.ingestFrame, if_neg hid, offsetOf]
  dsimp only
  cases f.pruTsNs with
  | none => rfl
  | some pru => cases f.kernelTs <;> rfl

theorem deltas_ingestFrame (h : Sampled g fs) {f : GraphFrame} (hempty : f.arbId ≠ "") {id : String}
    (hid : id ≠ "") :
    Trimmed.Keeps 2000 500 (((g.ingestFrame f).idDeltaHistory.get? id).getD [])
      (((fs ++ [f]).filter (·.arbId = id)).filterMap (·.deltaUs)) := by
  have hbefore := h.deltas id hid
  rw [idDeltaHistory_ingestFrame hempty, List.filter_append, List.filterMap_append]
  cases hdelta : f.deltaUs with
  | none =>
    have hnone : ([f].filter (·.arbId = id)).filterMap (·.deltaUs) = [] := by
      rw [List.filterMap_eq_nil_iff]
      intro x hx
      rw [List.mem_singleton.mp (List.mem_of_mem_filter hx), hdelta]
    rwa [hnone, List.append_nil]
  | some delta =>
    dsimp only
    rw [PyDict.get?_set]
    by_cases hsame : f.arbId = id
    · subst hsame
      rw [Function.update_self]
      simpa [hdelta] using hbefore.push (by decide) delta
    · rw [Function.update_of_ne (Ne.symm hsame)]
      simpa [hsame] using hbefore

theorem sampled_ingestFrame (h : Sampled g fs) (f : GraphFrame) :
    Sampled (g.ingestFrame f) (fs ++ [f]) := by
  by_cases hempty : f.arbId = ""
  · have hsame : g.ingestFrame f = g := by rw [Graphs.ingestFrame, if_pos hempty]
    rw [hsame]
    constructor
    · intro id hid
      simpa [hempty, Ne.symm hid] using h.deltas id hid
    · simpa [hempty] using h.offsets
  · constructor
    · exact fun id hid => deltas_ingestFrame h hempty hid
    · rw [pruKernelDeltas_ingestFrame hempty]
      cases hoffset : offsetOf f with
      | none => simpa [hempty, hoffset] using h.offsets
      | some offset => simpa [hempty, hoffset] using h.offsets.push (by decide) offset

theorem sampled_ingestFrames (h : Sampled g fs) (more : List GraphFrame) :
    Sampled (more.foldl Graphs.ingestFrame g) (fs ++ more) := by
  induction more generalizing g fs with
  | nil => rwa [List.append_nil]
  | cons f more ih =>
    have hrest := ih (sampled_ingestFrame h f)
    rwa [List.append_assoc] at hrest

theorem sampled_ingestFields (h : Sampled g fs) (msg : UpdateMsg) :
    Sampled (((g.ingestBusLoad msg.busLoad).ingestDiag msg.diag).ingestLatency msg.latency) fs := by
  have hload : Sampled (g.ingestBusLoad msg.busLoad) fs := by
    cases msg.busLoad with
    | none => exact h
    | some load => exact sampled_congr h rfl rfl
  have hdiag : Sampled ((g.ingestBusLoad msg.busLoad).ingestDiag msg.diag) fs := by
    cases msg.diag with
    | none => exact hload
    | some diag => exact sampled_congr hload rfl rfl
  cases msg.latency with
  | none => exact hdiag
  | some latency =>
    refine List.foldlRecOn (motive := fun g' : Graphs => Sampled g' fs) _ _ hdiag fun g' ih p _ => ?_
    rw [ingestPair]
    split
    · exact ih
    · exact ih
    · dsimp only
      split
      · exact sampled_congr ih rfl rfl
      · exact sampled_congr ih rfl rfl

def Own (g : Graphs) : Prop := ∀ lbl ∈ g.latencyPairLabels, lbl ∉ inherited

theorem own_graphsIngest (hown : Own g) (nowSec : Nat) (msg : UpdateMsg)
    (hmsg : ∀ lbl ∈ msg.entries.filterMap LatencyPair.name, lbl ∉ inherited) :
    Own (g.graphsIngest nowSec msg).1 := by
  obtain ⟨lbls, hsub, hlbls⟩ := graphsIngest_labels g nowSec msg
  rw [Own, hlbls]
  refine List.foldlRecOn
    (motive := fun labels : List String => ∀ lbl ∈ labels, lbl ∉ inherited) _ _ hown ?_
  intro labels hlabels lbl hlbl
  rw [listLabel]
  split_ifs
  · rw [List.forall_mem_append]
    exact ⟨hlabels, by simpa using hmsg lbl (hsub hlbl)⟩
  · exact hlabels

theorem sampled_graphsIngest (h : Sampled g fs) (hown : Own g) (nowSec : Nat) (msg : UpdateMsg) :
    Sampled (g.graphsIngest nowSec msg).1 (fs ++ msg.frames) := by
  have hkept : Sampled (flushSeconds (nowSec - (g.startBuckets nowSec).lastBucketSec)
      (g.startBuckets nowSec)).1 fs := by
    apply sampled_congr h
    · exact flushSeconds_keeps (flushBucket_keeps (fun _ => rfl) (fun _ _ => rfl) fun _ _ => rfl)
        (fun _ _ => rfl) _ (g.startBuckets nowSec)
    · exact flushSeconds_keeps (flushBucket_keeps (fun _ => rfl) (fun _ _ => rfl) fun _ _ => rfl)
        (fun _ _ => rfl) _ (g.startBuckets nowSec)
  rw [graphsIngest]
  dsimp only
  split_ifs with hraised
  · obtain ⟨lbl, hlbl, hin⟩ := flushSeconds_raises _ _ hraised
    exact absurd hin (hown lbl hlbl)
  · exact sampled_ingestFrames (sampled_ingestFields hkept msg) msg.frames

/-- No entry on a latency pair has a label that every object inherits. -/
def OwnLabels (acts : List Act) : Prop :=
  ∀ nowSec more msg, .message nowSec more msg ∈ acts →
    ∀ lbl ∈ msg.entries.filterMap LatencyPair.name, lbl ∉ inherited

theorem sampled_foldl {d : Dashboard} {frames : List FrameDict} (hview : d.view.Shows frames)
    (h : Sampled d.graphs fs) (hown : Own d.graphs) (acts : List Act)
    (hlabels : OwnLabels acts) :
    Sampled (acts.foldl step d).graphs (fs ++ (marksFrom frames acts).map graphFrame) := by
  induction acts generalizing d frames fs with
  | nil =>
    rw [marksFrom, List.map_nil, List.append_nil]
    exact h
  | cons a acts ih =>
    have hrest : OwnLabels acts :=
      fun nowSec more msg hmem => hlabels nowSec more msg (List.mem_cons_of_mem a hmem)
    cases a with
    | control c => exact ih (PageView.shows_control hview c) h hown hrest
    | message nowSec more msg =>
      have hmarks : (PageView.pageFrames (frames ++ more)).drop frames.length =
          markAll d.view.page more := by
        rw [markAll_eq hview.has more, ← length_pageFrames frames, List.drop_left]
      have hnext := sampled_graphsIngest h hown nowSec
        { msg with frames := (markAll d.view.page more).map graphFrame }
      have hown' := own_graphsIngest hown nowSec
        { msg with frames := (markAll d.view.page more).map graphFrame }
        (hlabels nowSec more msg List.mem_cons_self)
      have hfold := @ih _ (step d (.message nowSec more msg)) _
        (PageView.shows_update hview more) hnext hown' hrest
      rw [marksFrom, hmarks, List.map_append, ← List.append_assoc]
      exact hfold

def intervals (acts : List Act) (id : String) : List ℚ :=
  ((marks acts).filter (·.dict.arbId = id)).filterMap fun f => f.deltaUs.map (↑)

def offsets (acts : List Act) : List ℚ :=
  ((marks acts).filter (·.dict.arbId ≠ "")).filterMap fun f => offsetOf (graphFrame f)

theorem sum_histogram (samples : List ℚ) :
    ∃ hist, buildHistogram samples histBins = some hist ∧ hist.ys.sum = samples.length := by
  by_cases hne : samples = []
  · subst hne
    exact ⟨⟨[], []⟩, rfl, rfl⟩
  · obtain ⟨lo, top, -, hlo, htop⟩ := extremes_spec hne
    exact ⟨_, buildHistogram_eq (by decide) hlo htop, sum_countSamples (by decide) hlo htop⟩

/-- Whatever messages come and whatever the user does, the chart of an identifier counts the newest
of its intervals since the page was opened, and the other chart the newest offsets of the PRU: all
of them up to 2000, and then between 1501 and 2000. -/
theorem histograms_count_newest (acts : List Act) (hlabels : OwnLabels acts) {id : String}
    (hid : id ≠ "") :
    let d := run acts
    (Trimmed.Keeps 2000 500 (d.idSamples id) (intervals acts id) ∧
      ∃ hist, buildHistogram (d.idSamples id) histBins = some hist ∧
        hist.ys.sum = (d.idSamples id).length) ∧
    Trimmed.Keeps 2000 500 d.graphs.pruKernelDeltas (offsets acts) ∧
      ∃ hist, buildHistogram d.graphs.pruKernelDeltas histBins = some hist ∧
        hist.ys.sum = d.graphs.pruKernelDeltas.length := by
  intro d
  have hview : ({} : PageView).Shows [] :=
    ⟨PageView.has_clear {}, fun _ => (PageView.tableOf_nil _).symm⟩
  have hempty : Sampled {} [] := ⟨fun _ _ => Trimmed.keeps_nil _ _, Trimmed.keeps_nil _ _⟩
  have hown : Own {} := fun lbl hlbl => nomatch hlbl
  have h : Sampled d.graphs ([] ++ (marksFrom [] acts).map graphFrame) :=
    sampled_foldl hview hempty hown acts hlabels
  rw [List.nil_append] at h
  have hdeltas := h.deltas id hid
  have hoffsets := h.offsets
  rw [List.filter_map, List.filterMap_map] at hdeltas hoffsets
  exact ⟨⟨hdeltas, sum_histogram _⟩, hoffsets, sum_histogram _⟩

def threeFrames : List Act :=
  [.message 5 [⟨"0x123", 0, "", false, some 1000, 1, 1⟩] {}, .control .clear,
    .message 6 [⟨"0x123", 0, "", false, some 4000, 2, 1⟩, ⟨"0x123", 0, "", false, some 9000, 2, 1⟩] {}]

theorem ownLabels_threeFrames : OwnLabels threeFrames := by
  intro nowSec more msg hmem lbl hlbl
  simp only [threeFrames, List.mem_cons, Act.message.injEq, reduceCtorEq, List.not_mem_nil,
    or_false, false_or] at hmem
  obtain ⟨-, -, rfl⟩ | ⟨-, -, rfl⟩ := hmem
  · cases hlbl
  · cases hlbl

theorem histograms_count_newest_threeFrames :
    let d := run threeFrames
    (Trimmed.Keeps 2000 500 (d.idSamples "0x123") (intervals threeFrames "0x123") ∧
      ∃ hist, buildHistogram (d.idSamples "0x123") histBins = some hist ∧
        hist.ys.sum = (d.idSamples "0x123").length) ∧
    Trimmed.Keeps 2000 500 d.graphs.pruKernelDeltas (offsets threeFrames) ∧
      ∃ hist, buildHistogram d.graphs.pruKernelDeltas histBins = some hist ∧
        hist.ys.sum = d.graphs.pruKernelDeltas.length :=
  histograms_count_newest threeFrames ownLabels_threeFrames (by decide)

end Dashboard
end CanSniffer
