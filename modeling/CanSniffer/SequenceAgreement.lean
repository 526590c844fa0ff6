import CanSniffer.PairIndependence
import CanSniffer.SequenceExport

namespace CanSniffer

open Library Library.PyText Library.PyJson Library.Exchange Models LatencyMonitor LatencySoundness
open SequenceExport

variable {format : String → Nat → Option String} {pairs : List Pair} {p : Pair}

/-- The test of `export_svg` for a response to a frame of id `a`. -/
def Pair.answers : Pair → Nat → Int → Bool
  | .explicit ep, _ => fun gid => gid = ep.responseId
  | .pattern pp, a => fun gid => idBase gid = pp.responseBase ∧ idNode gid = idNode a

/-- A request base of zero is the one that `export_svg` does not look for. -/
def Pair.hasBase : Pair → Bool
  | .explicit _ => true
  | .pattern pp => pp.requestBase ≠ 0

namespace SequenceAgreement

/-- Frame `i` is a request of the pair and `j` the first response of its node after it. -/
def FirstResponse (p : Pair) (frames : List EnrichedFrame) (i j : Nat) : Prop :=
  ∃ r s, frames[i]? = some r ∧ frames[j]? = some s ∧ i < j ∧ p.isRequest r.arbId ∧
    p.isResponse s.arbId ∧ p.SameNode s.arbId r.arbId ∧
    ∀ t f, i < t → t < j → frames[t]? = some f →
      ¬ (p.isResponse f.arbId ∧ p.SameNode f.arbId r.arbId)

/-- No later frame up to `j` is a request of the same node. -/
def Latest (p : Pair) (frames : List EnrichedFrame) (i j : Nat) : Prop :=
  ∀ r t f, frames[i]? = some r → i < t → t ≤ j → frames[t]? = some f →
    ¬ p.RequestFor f.arbId r.arbId

/-- Frame `i` is not too old when the frame before `j` comes. -/
def Fresh (frames : List EnrichedFrame) (i j : Nat) : Prop :=
  ∀ r f, frames[i]? = some r → frames[j - 1]? = some f →
    Binary64.sub f.kernelTs 1 ≤ r.kernelTs

/-- A monitor takes a sample for the pair from request `i` and response `j`. -/
def Measured (format : String → Nat → Option String) (m : LatencyMonitor)
    (frames : List EnrichedFrame) (p : Pair) (i j : Nat) : Prop :=
  ∃ x ∈ (LatencyRecord.run format m frames).samples, x.pair = p ∧ x.request = i ∧ x.response = j

theorem answers_natCast (p : Pair) (a b : Nat) :
    p.answers a b = true ↔ p.isResponse b = true ∧ p.SameNode b a := by
  cases p with
  | explicit ep => simp [Pair.answers, Pair.isResponse, Pair.SameNode]
  | pattern pp =>
    simp [Pair.answers, Pair.isResponse, Pair.SameNode, idNode_natCast, idBase_natCast]

theorem nodeLabel_isSome {pp : PatternPair} {node : Nat} (h : (pp.labelFor format node).isSome) :
    (nodeLabel format pp.labelTemplate node).isSome := by
  cases pp with
  | mk requestBase responseBase tmpl =>
    cases tmpl with
    | str template =>
      have hsome : (format template node).isSome := by simpa [PatternPair.labelFor] using h
      by_cases htruthy : (Json.str template).truthy
      · simpa [nodeLabel, htruthy] using hsome
      · simp [nodeLabel, htruthy]
    | _ => cases h

theorem rowArrows_raw (h : LabelsDistinct format pairs) (hp : p ∈ pairs) (ids : List Int)
    (i a : Nat) : ∃ label,
    rowArrows format ids p.raw i a = some (if p.hasBase ∧ p.isRequest a then
      ((partner ids i (p.answers a)).map fun j => ⟨i, j, label⟩).toList else []) := by
  cases p with
  | explicit ep =>
    refine ⟨ep.label, ?_⟩
    by_cases hreq : (a : Int) = ep.requestId
    · simp [rowArrows, Pair.raw, Pair.isRequest, Pair.answers, Pair.hasBase, hreq]
    · simp [rowArrows, Pair.raw, Pair.isRequest, hreq, Ne.symm hreq]
  | pattern pp =>
    have hsome := h.keys _ (List.mem_flatMap.mpr ⟨_, hp, Pair.label_mem_labels (.pattern pp) a⟩)
    obtain ⟨label, hlabel⟩ := Option.isSome_iff_exists.mp (nodeLabel_isSome hsome)
    refine ⟨label, ?_⟩
    by_cases hreq : baseOf a = pp.requestBase
    · simp only [rowArrows, Pair.raw, Pair.isRequest, Pair.answers, Pair.hasBase, idBase_natCast,
        idNode_natCast, Option.getD_some, hreq, Int.toNat_natCast]
      by_cases hbase : pp.requestBase = 0
      · simp [hbase]
      · cases partner ids i _ <;> simp [hbase, hlabel]
    · simp [rowArrows, Pair.raw, Pair.isRequest, idBase_natCast, hreq]

def frameIds (frames : List EnrichedFrame) : List Int := frames.map fun f => (f.arbId : Int)

theorem getElem?_frameIds {frames : List EnrichedFrame} {t : Nat} {gid : Int} :
    (frameIds frames)[t]? = some gid ↔ ∃ f, frames[t]? = some f ∧ (f.arbId : Int) = gid := by
  rw [frameIds, List.getElem?_map, Option.map_eq_some_iff]

theorem partner_iff {frames : List EnrichedFrame} {i j : Nat} {r : EnrichedFrame}
    (hr : frames[i]? = some r) (hreq : p.isRequest r.arbId) :
    partner (frameIds frames) i (p.answers r.arbId) = some j ↔
      FirstResponse p frames i j ∧ j < i + 50 := by
  rw [partner_eq_some_iff]
  constructor
  · intro ⟨hij, hwindow, ⟨gid, hgid, hresp⟩, hfirst⟩
    obtain ⟨s, hs, rfl⟩ := getElem?_frameIds.mp hgid
    obtain ⟨hresp, hnode⟩ := (answers_natCast p _ _).mp hresp
    refine ⟨⟨r, s, hr, hs, hij, hreq, hresp, hnode, fun t f hit htj hf hanswer => ?_⟩, hwindow⟩
    have hno := hfirst t f.arbId hit htj (getElem?_frameIds.mpr ⟨f, hf, rfl⟩)
    rw [(answers_natCast p _ _).mpr hanswer] at hno
    cases hno
  · rintro ⟨⟨r', s, hr', hs, hij, -, hresp, hnode, hfirst⟩, hwindow⟩
    rw [hr] at hr'
    cases hr'
    refine ⟨hij, hwindow, ⟨s.arbId, getElem?_frameIds.mpr ⟨s, hs, rfl⟩,
      (answers_natCast p _ _).mpr ⟨hresp, hnode⟩⟩, fun t gid hit htj hgid => ?_⟩
    obtain ⟨f, hf, rfl⟩ := getElem?_frameIds.mp hgid
    rw [Bool.eq_false_iff]
    intro hanswer
    exact hfirst t f hit htj hf ((answers_natCast p _ _).mp hanswer)

theorem pairArrows_raw (h : LabelsDistinct format pairs) (hp : p ∈ pairs)
    (frames : List EnrichedFrame) : ∃ arrows,
    pairArrows format (frameIds frames) p.raw = some arrows ∧
      ∀ i j, (∃ x ∈ arrows, x.request = i ∧ x.response = j) ↔
        p.hasBase ∧ FirstResponse p frames i j ∧ j < i + 50 := by
  choose label hrow using rowArrows_raw h hp (frameIds frames)
  let row (x : Int × Nat) : List Arrow := if p.hasBase ∧ p.isRequest x.1.toNat then
    ((partner (frameIds frames) x.2 (p.answers x.1.toNat)).map fun j =>
      ⟨x.2, j, label x.2 x.1.toNat⟩).toList else []
  have hrows : ∀ x ∈ (frameIds frames).zipIdx,
      rowArrows format (frameIds frames) p.raw x.2 x.1 = some (row x) := by
    intro x hx
    obtain ⟨f, -, hf⟩ := getElem?_frameIds.mp (List.mk_mem_zipIdx_iff_getElem?.mp hx)
    rw [← hf, hrow]
    simp [row, ← hf]
  refine ⟨((frameIds frames).zipIdx.map row).flatten, ?_, fun i j => ?_⟩
  · rw [pairArrows, ForLoop.mapM_eq_some_map hrows]
    rfl
  · constructor
    · intro ⟨a, ha, hi, hj⟩
      obtain ⟨⟨fid, k⟩, hx, hax⟩ := List.mem_flatMap.mp (List.flatMap_def ▸ ha)
      obtain ⟨r, hr, rfl⟩ := getElem?_frameIds.mp (List.mk_mem_zipIdx_iff_getElem?.mp hx)
      by_cases hreq : p.hasBase ∧ p.isRequest r.arbId
      · simp only [row, Int.toNat_natCast, if_pos hreq, Option.mem_toList,
          Option.map_eq_some_iff] at hax
        obtain ⟨j', hpartner, rfl⟩ := hax
        subst hi hj
        exact ⟨hreq.1, (partner_iff hr hreq.2).mp hpartner⟩
      · simp [row, hreq] at hax
    · intro ⟨hbase, hdrawn⟩
      obtain ⟨r, s, hr, -, -, hreq, -⟩ := hdrawn.1
      refine ⟨⟨i, j, label i r.arbId⟩, ?_, rfl, rfl⟩
      rw [← List.flatMap_def]
      refine List.mem_flatMap.mpr ⟨(r.arbId, i), List.mk_mem_zipIdx_iff_getElem?.mpr
        (getElem?_frameIds.mpr ⟨r, hr, rfl⟩), ?_⟩
      simp [row, hbase, hreq, (partner_iff hr hreq).mpr hdrawn]

theorem label_eq_iff (h : LabelsDistinct format pairs) (hp : p ∈ pairs) (a b : Nat) :
    p.label format a = p.label format b ↔ p.SameNode a b :=
  ⟨h.node_unique hp, label_of_sameNode⟩

theorem kindOf_iff (h : LabelsDistinct format pairs) (hp : p ∈ pairs) {key : DictKey} {a : Nat}
    (hkey : p.label format a = some key) (f : EnrichedFrame) :
    (kindOf format pairs key f = .request ↔ p.RequestFor f.arbId a) ∧
    (kindOf format pairs key f = .reply ↔
      ¬ p.RequestFor f.arbId a ∧ p.isResponse f.arbId ∧ p.SameNode f.arbId a) := by
  have hmem : some key ∈ p.labels format := hkey ▸ p.label_mem_labels a
  have hreq : Requested format pairs key f.arbId ↔ p.RequestFor f.arbId a := by
    rw [h.requested_iff hp hmem, Pair.reaction_request_iff, ← hkey, label_eq_iff h hp]
    rfl
  have hresp : (responder format pairs key f.arbId).isSome ↔
      p.isRequest f.arbId = false ∧ p.isResponse f.arbId ∧ p.SameNode f.arbId a := by
    simp only [Option.isSome_iff_exists, h.responder_iff hp hmem, exists_eq_left,
      Pair.reaction_response_iff, ← hkey, label_eq_iff h hp]
  rw [kindOf, ← hreq]
  by_cases hr : Requested format pairs key f.arbId
  · simp [hr]
  · have hnot : p.SameNode f.arbId a → p.isRequest f.arbId = false := fun hnode => by
      rw [Bool.eq_false_iff]
      exact fun hq => hr (hreq.mpr ⟨hq, hnode⟩)
    by_cases hs : (responder format pairs key f.arbId).isSome
    · simp [hr, hs, (hresp.mp hs).2]
    · have hs' : ¬ (p.isResponse f.arbId ∧ p.SameNode f.arbId a) := fun hn =>
        hs (hresp.mpr ⟨hnot hn.2, hn⟩)
      simp [hr, hs, hs']

theorem kindOf_other_iff (h : LabelsDistinct format pairs) (hp : p ∈ pairs) {key : DictKey} {a : Nat}
    (hkey : p.label format a = some key) (f : EnrichedFrame) :
    kindOf format pairs key f = .other ↔
      ¬ p.RequestFor f.arbId a ∧ ¬ (p.isResponse f.arbId ∧ p.SameNode f.arbId a) := by
  obtain ⟨hreq, hreply⟩ := kindOf_iff h hp hkey f
  cases hk : kindOf format pairs key f <;> simp_all

/-- A sample of the pair, as an answer in the exchange over its label. -/
theorem measured_iff_answers {m : LatencyMonitor} (h : LabelsDistinct format m.pairs)
    (hp : p ∈ m.pairs) (hpending : ∀ key, m.pending key = none) (frames : List EnrichedFrame)
    (i j : Nat) :
    Measured format m frames p i j ↔ ∃ r s key, p.label format r.arbId = some key ∧
      Answers (kindOf format m.pairs key) (keeps format m.pairs) frames i r j s := by
  constructor
  · rintro ⟨x, hx, rfl, rfl, rfl⟩
    obtain ⟨r, s, hanswers, hresp, hfor, -⟩ := answers_of_sample h.noCrossTalk hpending hx
    refine ⟨r, s, x.key, ?_, hanswers⟩
    rw [label_of_sameNode hfor.2]
    exact (Pair.reaction_response_iff.mp (responder_reaction hresp)).2.2
  · rintro ⟨r, s, key, hkey, hanswers⟩
    have hmem : some key ∈ p.labels format := hkey ▸ p.label_mem_labels r.arbId
    obtain ⟨hnot, hresp, hnode⟩ := (kindOf_iff h hp hkey s).2.mp hanswers.is_reply
    have hnotReq : p.isRequest s.arbId = false := by
      rw [Bool.eq_false_iff]
      exact fun hq => hnot ⟨hq, hnode⟩
    have hreaction : p.reaction format s.arbId = .response key :=
      Pair.reaction_response_iff.mpr ⟨hnotReq, hresp, (label_of_sameNode hnode).trans hkey⟩
    have hsample : (⟨p, key, i, j, latencyUs s.kernelTs r.kernelTs⟩ : Sample) ∈
        (LatencyRecord.run format m frames).samplesOf key := by
      rw [(LatencyRecord.run_refines (h.noCrossTalk.separate key) (hpending key) frames).samples]
      refine List.mem_filterMap.mpr ⟨_, (mem_matched_iff frames i j r s).mpr hanswers, ?_⟩
      rw [sampleOf, (h.responder_iff hp hmem s.arbId).mpr ⟨rfl, hreaction⟩]
      rfl
    exact ⟨_, (List.mem_filter.mp hsample).1, rfl, rfl, rfl⟩

theorem keeps_iff (h : LabelsDistinct format pairs) (r f : EnrichedFrame) :
    keeps format pairs r f ↔ Binary64.sub f.kernelTs 1 ≤ r.kernelTs := by
  rw [keeps, h.not_raises]
  simp

theorem fresh_keeps (h : LabelsDistinct format pairs) {frames : List EnrichedFrame}
    (hsorted : frames.Pairwise fun a b => a.kernelTs ≤ b.kernelTs) {i j : Nat} {r : EnrichedFrame}
    (hr : frames[i]? = some r) (hj : j < frames.length) (hfresh : Fresh frames i j) {t : Nat}
    {f : EnrichedFrame} (htj : t < j) (hf : frames[t]? = some f) : keeps format pairs r f := by
  have hprev : j - 1 < frames.length := by omega
  have hle : f.kernelTs ≤ frames[j - 1].kernelTs := by
    obtain ⟨ht, rfl⟩ := List.getElem?_eq_some_iff.mp hf
    obtain rfl | hlt := (show t = j - 1 ∨ t < j - 1 by omega)
    · exact le_rfl
    · exact List.pairwise_iff_getElem.mp hsorted t (j - 1) ht hprev hlt
  rw [keeps_iff h]
  exact (Binary64.round_mono (sub_le_sub_right hle 1)).trans
    (hfresh r _ hr (List.getElem?_eq_getElem hprev))

theorem measured_iff {m : LatencyMonitor} (h : LabelsDistinct format m.pairs) (hp : p ∈ m.pairs)
    (hpending : ∀ key, m.pending key = none) {frames : List EnrichedFrame}
    (hsorted : frames.Pairwise fun a b => a.kernelTs ≤ b.kernelTs) (i j : Nat) :
    Measured format m frames p i j ↔
      FirstResponse p frames i j ∧ Latest p frames i j ∧ Fresh frames i j := by
  rw [measured_iff_answers h hp hpending]
  constructor
  · rintro ⟨r, s, key, hkey, hanswers⟩
    obtain ⟨hr, hs, hij, hreq, hreply, hquiet, hkept⟩ := hanswers
    obtain ⟨hnot, hresp, hnode⟩ := (kindOf_iff h hp hkey s).2.mp hreply
    have hother {t : Nat} {f : EnrichedFrame} (hit : i < t) (htj : t < j)
        (hf : frames[t]? = some f) :=
      (kindOf_other_iff h hp hkey f).mp (hquiet t f hit htj hf)
    refine ⟨⟨r, s, hr, hs, hij, ((kindOf_iff h hp hkey r).1.mp hreq).1, hresp, hnode,
      fun t f hit htj hf => (hother hit htj hf).2⟩, fun r' t f hr' hit htj hf => ?_,
      fun r' f hr' hf => ?_⟩
    · rw [hr] at hr'
      cases hr'
      obtain hlt | rfl := htj.lt_or_eq
      · exact (hother hit hlt hf).1
      · rw [hs] at hf
        cases hf
        exact hnot
    · rw [hr] at hr'
      cases hr'
      exact (keeps_iff h r f).mp (hkept (j - 1) f (by omega) (by omega) hf)
  · rintro ⟨⟨r, s, hr, hs, hij, hreq, hresp, hnode, hfirst⟩, hlatest, hfresh⟩
    have hsome := h.keys _ (List.mem_flatMap.mpr ⟨p, hp, p.label_mem_labels r.arbId⟩)
    obtain ⟨key, hkey⟩ := Option.isSome_iff_exists.mp hsome
    have hself : p.SameNode r.arbId r.arbId := h.node_unique hp rfl
    refine ⟨r, s, key, hkey, hr, hs, hij, (kindOf_iff h hp hkey r).1.mpr ⟨hreq, hself⟩, ?_, ?_, ?_⟩
    · exact (kindOf_iff h hp hkey s).2.mpr ⟨hlatest r j s hr hij le_rfl hs, hresp, hnode⟩
    · intro t f hit htj hf
      exact (kindOf_other_iff h hp hkey f).mpr
        ⟨hlatest r t f hr hit htj.le hf, hfirst t f hit htj hf⟩
    · intro t f _ htj hf
      exact fresh_keeps h hsorted hr (List.getElem?_eq_some_iff.mp hs).1 hfresh htj hf

theorem getCaptureSvg_eq {session : CaptureSession} {frames : List EnrichedFrame}
    (hframes : session.preFrames ++ session.postFrames = frames.map EnrichedFrame.toDict)
    {m : LatencyMonitor} (h : LabelsDistinct format m.pairs) :
    getCaptureSvg format session m.explicit m.patterns =
      some (m.pairs.map fun p => (pairArrows format (frameIds frames) p.raw).getD []) := by
  have hraw : pairsRaw m.explicit m.patterns = m.pairs.map Pair.raw := by
    rw [pairsRaw, LatencyMonitor.pairs, List.map_append, List.map_map, List.map_map]
    rfl
  rw [getCaptureSvg, exportSvg, hframes, frameIds_toDict, hraw]
  have harrows : ∀ pp ∈ m.pairs.map Pair.raw, pairArrows format (frameIds frames) pp =
      some ((pairArrows format (frameIds frames) pp).getD []) := by
    intro pp hpp
    obtain ⟨p, hp, rfl⟩ := List.mem_map.mp hpp
    obtain ⟨arrows, harrows, -⟩ := pairArrows_raw h hp frames
    rw [harrows]
    rfl
  have hmap := ForLoop.mapM_eq_some_map harrows
  rw [List.map_map] at hmap
  exact hmap

theorem drawn_iff {session : CaptureSession} {frames : List EnrichedFrame}
    (hframes : session.preFrames ++ session.postFrames = frames.map EnrichedFrame.toDict)
    {m : LatencyMonitor} (h : LabelsDistinct format m.pairs) {arrows : List (List Arrow)}
    (hsvg : getCaptureSvg format session m.explicit m.patterns = some arrows) {k : Nat}
    (hp : m.pairs[k]? = some p) {row : List Arrow} (hrow : arrows[k]? = some row) (i j : Nat) :
    (∃ x ∈ row, x.request = i ∧ x.response = j) ↔
      p.hasBase ∧ FirstResponse p frames i j ∧ j < i + 50 := by
  rw [getCaptureSvg_eq hframes h] at hsvg
  cases hsvg
  rw [List.getElem?_map, hp] at hrow
  cases hrow
  obtain ⟨arrows, harrows, hiff⟩ := pairArrows_raw h (List.mem_of_getElem? hp) frames
  simp only [harrows]
  exact hiff i j

/-- Apart from what lies outside the window of the diagram and from what the monitor gives up,
the diagram shows what a new monitor measures. -/
theorem diagram_shows_measured (explicit : List ExplicitPair) (patterns : List PatternPair)
    (h : LabelsDistinct format (LatencyMonitor.mk explicit patterns (fun _ => none)
      fun _ => .empty).pairs) (session : CaptureSession) (frames : List EnrichedFrame)
    (hframes : session.preFrames ++ session.postFrames = frames.map EnrichedFrame.toDict)
    (hsorted : frames.Pairwise fun a b => a.kernelTs ≤ b.kernelTs) :
    let m : LatencyMonitor := { explicit, patterns }
    ∃ arrows, getCaptureSvg format session explicit patterns = some arrows ∧
      arrows.length = m.pairs.length ∧
      ∀ (k : Nat) (p : Pair) (row : List Arrow), m.pairs[k]? = some p → arrows[k]? = some row →
        p.hasBase → ∀ i j,
          ((∃ x ∈ row, x.request = i ∧ x.response = j) ∧ Latest p frames i j ∧ Fresh frames i j ↔
            Measured format m frames p i j ∧ j < i + 50) := by
  intro m
  have hsvg := getCaptureSvg_eq (m := m) hframes h
  refine ⟨_, hsvg, List.length_map _, fun k p row hp hrow hbase i j => ?_⟩
  rw [drawn_iff hframes (m := m) h hsvg hp hrow,
    measured_iff (m := m) h (List.mem_of_getElem? hp) (fun _ => rfl) hsorted]
  constructor
  · rintro ⟨⟨-, hfirst, hwindow⟩, hlatest, hfresh⟩
    exact ⟨⟨hfirst, hlatest, hfresh⟩, hwindow⟩
  · rintro ⟨⟨hfirst, hlatest, hfresh⟩, hwindow⟩
    exact ⟨⟨hbase, hfirst, hwindow⟩, hlatest, hfresh⟩

theorem diagram_shows_measured_default :
    let m : LatencyMonitor := ⟨[⟨0x601, 0x581, .str "SDO"⟩],
      [⟨0x100, 0, .str LatencyPairs.defaultTemplate⟩], fun _ => none, fun _ => .empty⟩
    let session : CaptureSession :=
      ⟨"", 0, .manual, [(probe 0x601).toDict], [(probe 0x581).toDict]⟩
    ∃ arrows, getCaptureSvg LatencyPairs.formatDefault session m.explicit m.patterns = some arrows ∧
      arrows.length = m.pairs.length ∧
      ∀ (k : Nat) (p : Pair) (row : List Arrow), m.pairs[k]? = some p → arrows[k]? = some row →
        p.hasBase → ∀ i j,
          ((∃ x ∈ row, x.request = i ∧ x.response = j) ∧
              Latest p [probe 0x601, probe 0x581] i j ∧ Fresh [probe 0x601, probe 0x581] i j ↔
            Measured LatencyPairs.formatDefault m [probe 0x601, probe 0x581] p i j ∧ j < i + 50) :=
  diagram_shows_measured _ _ PairIndependence.labelsDistinct_default _ _ rfl (by decide)

/-- A repeated request has an arrow of its own, but the monitor forgets the first request. -/
theorem repeated_request_drawn_twice : ¬ ∀ (format : String → Nat → Option String)
    (explicit : List ExplicitPair) (patterns : List PatternPair) (session : CaptureSession)
    (frames : List EnrichedFrame) (m : LatencyMonitor) (arrows : List (List Arrow)),
    m = { explicit, patterns } → LabelsDistinct format m.pairs →
    session.preFrames ++ session.postFrames = frames.map EnrichedFrame.toDict →
    frames.Pairwise (fun a b => a.kernelTs ≤ b.kernelTs) →
    getCaptureSvg format session explicit patterns = some arrows →
    ∀ (k : Nat) (p : Pair) (row : List Arrow), m.pairs[k]? = some p → arrows[k]? = some row →
      ∀ i j, (∃ x ∈ row, x.request = i ∧ x.response = j) ↔ Measured format m frames p i j := by
  intro h
  let m : LatencyMonitor := { explicit := [⟨0x601, 0x581, .str "SDO"⟩], patterns := [] }
  let frames : List EnrichedFrame := [probe 0x601, probe 0x601, probe 0x581]
  have hlabels : LabelsDistinct LatencyPairs.formatDefault m.pairs :=
    PairIndependence.labelsDistinct_default.alone List.mem_cons_self
  have hsorted : frames.Pairwise fun a b => a.kernelTs ≤ b.kernelTs := by decide
  let session : CaptureSession := ⟨"", 0, .manual, [], frames.map EnrichedFrame.toDict⟩
  have hframes : session.preFrames ++ session.postFrames = frames.map EnrichedFrame.toDict := rfl
  have hsvg := getCaptureSvg_eq hframes hlabels
  have hiff := h LatencyPairs.formatDefault m.explicit m.patterns session frames m _ rfl hlabels
    hframes hsorted hsvg 0 (.explicit ⟨0x601, 0x581, .str "SDO"⟩) _ rfl rfl 0 2
  have hdrawn : ∃ x ∈ ((pairArrows LatencyPairs.formatDefault (frameIds frames)
      (Pair.explicit ⟨0x601, 0x581, .str "SDO"⟩).raw).getD []), x.request = 0 ∧ x.response = 2 :=
    ⟨⟨0, 2, .str "SDO"⟩, List.mem_cons_self, rfl, rfl⟩
  have hmeasured := (measured_iff hlabels List.mem_cons_self (fun _ => rfl) hsorted 0 2).mp
    (hiff.mp hdrawn)
  exact hmeasured.2.1 (probe 0x601) 1 (probe 0x601) rfl (by decide) (by decide) rfl ⟨rfl, trivial⟩

end SequenceAgreement
end CanSniffer
