import Mathlib
import CanSniffer.CaptureContiguity
import CanSniffer.Captures
import CanSniffer.LabelMarkup
import CanSniffer.Library.XmlReader

namespace CanSniffer.CaptureDiagram

open Library Library.PyText Library.PyJson Library.XmlTags Library.XmlReader Models LatencyPairs
open CaptureRecord SequenceExport SequenceSvg LabelMarkup

/-- `trigger_index` -/
def triggerIndex (session : CaptureSession) : Option Int :=
  if session.preFrames = [] then none else some session.preFrames.length

section

variable (str : Json → String) (format : String → Nat → Option String)

def exportSvgFromSession (session : CaptureSession) (latencyPairs : List RawPair) :
    Option String :=
  exportSvgText str format (session.preFrames ++ session.postFrames) latencyPairs
    (triggerIndex session)

/-- What `GET /api/captures/{capture_id}/svg` answers: that there is no such capture, an error of
the server, or a diagram. -/
inductive SvgResponse
  | notFound
  | serverError
  | svg (content : String)
  deriving DecidableEq, Repr

variable {preSize postSize : Nat}

def getCaptureSvg (s : TriggerCapture preSize postSize) (file : Option PairsFile)
    (captureId : String) : SvgResponse :=
  match s.getCapture captureId with
  | none => .notFound
  | some cap =>
    match (loadPairs file).bind fun (explicit, patterns) =>
      exportSvgFromSession str format cap (pairsRaw explicit patterns) with
    | some content => .svg content
    | none => .serverError

end

def number (attrs : List (String × String)) (key : String) : Option Int :=
  (attrs.lookup key).bind String.toInt?

variable {str : Json → String} {format : String → Nat → Option String} {ids : List Int}
  {kernelTs : List ℚ} {trigger : Option Int} {arrows : List Arrow} {α : Type}

/-- A reader that gets nothing from the lines that are the same for all captures of a size. -/
structure Overlooks (g : List Item → List α) : Prop where
  head : g arrowHead = []
  row : ∀ width i, g (backgroundRow width i) = []
  header : ∀ width, g (header width) = []
  time : g timeHeader = []
  guide : ∀ seen height aid, g (laneGuide seen height aid) = []
  stop : g [.stop "svg"] = []

theorem Overlooks.read {g : List Item → List α} (h : Overlooks g) :
    (svgLines str ids kernelTs trigger arrows).flatMap g =
      g (svgStart (marginLeft + (seenIds ids).length * colWidth + 20)
        (marginTop + ids.length * rowHeight + 20)) ++
      (trigger.filter fun ti : Int => 0 < ti ∧ ti ≤ ids.length).toList.flatMap (fun ti =>
        g (triggerLine (marginLeft + (seenIds ids).length * colWidth + 20) ti)) ++
      (seenIds ids).flatMap (fun aid => g (idHeader (seenIds ids) aid)) ++
      (ids.zip kernelTs).zipIdx.flatMap (fun x =>
        (frameDot (seenIds ids) (kernelTs.headD 0) x.2 x.1.1 x.1.2).flatMap g) ++
      arrows.flatMap (fun a => g (arrowLine str (seenIds ids) ids kernelTs a)) := by
  have hrows (width : Int) :
      (List.range ids.length).flatMap (fun i => g (backgroundRow width i)) = [] :=
    List.flatMap_eq_nil_iff.mpr fun i _ => h.row width i
  have hguides (height : Int) :
      (seenIds ids).flatMap (fun aid => g (laneGuide (seenIds ids) height aid)) = [] :=
    List.flatMap_eq_nil_iff.mpr fun aid _ => h.guide _ height aid
  simp only [svgLines, List.flatMap_append, List.flatMap_cons, List.flatMap_nil, List.flatMap_map,
    List.flatMap_assoc, Option.toList_map, h.head, h.header, h.time, h.stop, hrows, hguides,
    List.append_nil]

def inLine (f : Event → Option α) (line : List Item) : List α := (line.flatMap events).filterMap f

section

variable {f : Event → Option α}

@[simp] theorem inLine_nil : inLine f [] = [] := rfl

@[simp] theorem inLine_start (name : String) (attrs : List (String × String)) (line : List Item) :
    inLine f (.start name attrs :: line) = (f (.start name attrs)).toList ++ inLine f line := by
  simp [inLine, events, List.filterMap_cons]
  cases f (.start name attrs) <;> rfl

@[simp] theorem inLine_empty (name : String) (attrs : List (String × String)) (line : List Item) :
    inLine f (.empty name attrs :: line) = (f (.empty name attrs)).toList ++ inLine f line := by
  simp [inLine, events, List.filterMap_cons]
  cases f (.empty name attrs) <;> rfl

@[simp] theorem inLine_stop (name : String) (line : List Item) :
    inLine f (.stop name :: line) = (f (.stop name)).toList ++ inLine f line := by
  simp [inLine, events, List.filterMap_cons]
  cases f (.stop name) <;> rfl

end

theorem mem_seenIds {aid : Int} : aid ∈ seenIds ids ↔ aid ∈ ids := by
  rw [seenIds, List.mem_insertionSort, List.mem_dedup]

variable {preSize postSize : Nat}

def exchange : List TriggerCapture.Op :=
  [.arm ⟨.manual, none, none⟩, .ingest (emptyFrame 0x601 1) 0 "a" 1, .fire,
    .ingest (emptyFrame 0x581 2) 0 "a" 2]

end CanSniffer.CaptureDiagram
