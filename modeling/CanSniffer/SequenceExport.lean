import CanSniffer.LatencyMonitor
import CanSniffer.Library.ForLoop
import CanSniffer.TriggerCapture

namespace CanSniffer

open Library Library.PyText Library.PyJson Models

/-- A dictionary of `pairs_raw`; `none` stands for a missing key. -/
structure RawPair where
  requestId : Option Int := none
  responseId : Option Int := none
  label : Option Json := none
  requestBase : Option Int := none
  responseBase : Option Int := none
  labelTemplate : Option Json := none

/-- An entry of `pair_arrows`. -/
structure Arrow where
  request : Nat
  response : Nat
  label : Json

def Pair.raw : Pair → RawPair
  | .explicit p =>
    { requestId := some p.requestId, responseId := some p.responseId, label := some p.label }
  | .pattern p =>
    { requestBase := some p.requestBase, responseBase := some p.responseBase,
      labelTemplate := some p.labelTemplate }

namespace SequenceExport

def idNode (id : Int) : Int := id % 256

def idBase (id : Int) : Int := id - id % 256

/-- The loop `for j in range(i + 1, min(i + 50, n_rows))` up to its `break`. -/
def partner (ids : List Int) (i : Nat) (isResponse : Int → Bool) : Option Nat :=
  (List.range' (i + 1) (min (i + 50) ids.length - (i + 1))).find? fun j => ids[j]?.any isResponse

/-- `tmpl.format(node_id=node) if tmpl else f"0x{node:02X}"`. -/
def nodeLabel (format : String → Nat → Option String) (tmpl : Json) (node : Nat) : Option Json :=
  if tmpl.truthy then
    match tmpl with
    | .str template => (format template node).map .str
    | _ => none
  else some (.str ("0x" ++ hexUpper 2 node))

/-- One pass of the loop over the frames for one pair; `none` is an exception. -/
def rowArrows (format : String → Nat → Option String) (ids : List Int) (pp : RawPair) (i : Nat)
    (fid : Int) : Option (List Arrow) :=
  let reqBase := pp.requestBase.getD 0
  let respBase := pp.responseBase.getD 0
  if pp.requestId = some fid then
    match pp.responseId with
    | some respId =>
      some ((partner ids i fun gid => gid = respId).map fun j =>
        ⟨i, j, pp.label.getD (.str "")⟩).toList
    -- `int(None)` raises as soon as the inner loop has a pass
    | none => if i + 1 < min (i + 50) ids.length then none else some []
  else if reqBase ≠ 0 ∧ idBase fid = reqBase then
    match partner ids i fun gid => idBase gid = respBase ∧ idNode gid = idNode fid with
    | some j =>
      (nodeLabel format (pp.labelTemplate.getD (.str "")) (idNode fid).toNat).map fun label =>
        [⟨i, j, label⟩]
    | none => some []
  else some []

def pairArrows (format : String → Nat → Option String) (ids : List Int) (pp : RawPair) :
    Option (List Arrow) :=
  (ids.zipIdx.mapM fun x => rowArrows format ids pp x.2 x.1).map List.flatten

/-- The arrows of `export_svg`, one list for each pair. -/
def exportSvg (format : String → Nat → Option String) (frames : List FrameDict)
    (latencyPairs : List RawPair) : Option (List (List Arrow)) := do
  let ids ← frames.mapM fun f => intBase16 f.arbId
  latencyPairs.mapM (pairArrows format ids)

def pairsRaw (explicit : List ExplicitPair) (patterns : List PatternPair) : List RawPair :=
  explicit.map (fun p => (Pair.explicit p).raw) ++ patterns.map fun p => (Pair.pattern p).raw

/-- `get_capture_svg` for a session that was found and the pairs of the file. -/
def getCaptureSvg (format : String → Nat → Option String) (session : CaptureSession)
    (explicit : List ExplicitPair) (patterns : List PatternPair) : Option (List (List Arrow)) :=
  exportSvg format (session.preFrames ++ session.postFrames) (pairsRaw explicit patterns)

variable {format : String → Nat → Option String}

theorem idNode_natCast (arbId : Nat) : idNode arbId = nodeOf arbId := by
  rw [idNode, nodeOf_eq]
  omega

theorem idBase_natCast (arbId : Nat) : idBase arbId = baseOf arbId := by
  rw [idBase, baseOf, nodeOf_eq]
  omega

theorem partner_eq_some_iff {ids : List Int} {i j : Nat} {isResponse : Int → Bool} :
    partner ids i isResponse = some j ↔ i < j ∧ j < i + 50 ∧
      (∃ gid, ids[j]? = some gid ∧ isResponse gid) ∧
      ∀ t gid, i < t → t < j → ids[t]? = some gid → isResponse gid = false := by
  rw [partner, List.find?_range'_eq_some, List.mem_range'_1, Option.any_eq_true]
  constructor
  · intro ⟨hj, hrange, hfirst⟩
    refine ⟨by omega, by omega, hj, fun t gid hit htj hgid => ?_⟩
    simpa [hgid] using hfirst t hit htj
  · intro ⟨hij, hwindow, hj, hfirst⟩
    obtain ⟨gid, hgid, hresp⟩ := hj
    have hlt := (List.getElem?_eq_some_iff.mp hgid).1
    refine ⟨⟨gid, hgid, hresp⟩, by omega, fun t hit htj => ?_⟩
    have ht : t < ids.length := by omega
    simpa [List.getElem?_eq_getElem ht] using
      hfirst t ids[t] hit htj (List.getElem?_eq_getElem ht)

theorem frameIds_toDict (frames : List EnrichedFrame) :
    ((frames.map EnrichedFrame.toDict).mapM fun f => intBase16 f.arbId) =
      some (frames.map fun f => (f.arbId : Int)) := by
  rw [List.mapM_map]
  apply ForLoop.mapM_eq_some_map
  intro f _
  simp [EnrichedFrame.toDict, intBase16_hexUpper]

end SequenceExport
end CanSniffer
