import CanSniffer.Library.XmlTags
import CanSniffer.SequenceExport

namespace CanSniffer.SequenceSvg

open Library Library.PyText Library.PyJson Library.XmlTags Models SequenceExport

def marginLeft : Int := 90
def marginTop : Int := 50
def colWidth : Int := 100
def rowHeight : Int := 18
def circleR : Int := 4

namespace Colors

def bgOdd : String := "#1a1a1e"
def bgEven : String := "#222228"
def headerBg : String := "#26262c"
def headerBorder : String := "#3a3a42"
def dim : String := "#888890"
def arrow : String := "#5b9bd5"
def trigger : String := "#e05555"

end Colors

def idColor (arbId : Int) : String := "hsl(" ++ toString (arbId * 137 % 360) ++ ",45%,58%)"

def tsLabel (t t0 : ℚ) : String := fixed 1 (Binary64.mul (Binary64.sub t t0) 1000)

def seenIds (ids : List Int) : List Int := ids.dedup.insertionSort (· ≤ ·)

/-- `col_x.get(aid, _MARGIN_LEFT)`. -/
def colX (seen : List Int) (aid : Int) : Int :=
  (seen.idxOf? aid).elim marginLeft fun i => marginLeft + i * colWidth + colWidth / 2

def rowY (i : Nat) : Int := marginTop + i * rowHeight + rowHeight / 2

/-- A label in an f-string; `str` is what it calls for a value that is not a text. -/
def labelText (str : Json → String) : Json → String
  | .str s => s
  | label => str label

def svgStart (width height : Int) : List Item :=
  [.start "svg" [("xmlns", "http://www.w3.org/2000/svg"), ("width", toString width),
    ("height", toString height), ("style", "font-family:monospace;font-size:11px;")]]

def arrowHead : List Item :=
  [.start "defs" [],
    .start "marker" [("id", "arrow"), ("markerWidth", "8"), ("markerHeight", "6"), ("refX", "8"),
      ("refY", "3"), ("orient", "auto")],
    .empty "polygon" [("points", "0 0, 8 3, 0 6"), ("fill", Colors.arrow)],
    .stop "marker", .stop "defs"]

def backgroundRow (width : Int) (i : Nat) : List Item :=
  [.empty "rect" [("x", "0"), ("y", toString (marginTop + i * rowHeight)),
    ("width", toString width), ("height", toString rowHeight),
    ("fill", if i % 2 = 0 then Colors.bgEven else Colors.bgOdd)]]

def triggerLine (width triggerIndex : Int) : List Item :=
  let ty := marginTop + triggerIndex * rowHeight
  [.empty "line" [("x1", "0"), ("y1", toString ty), ("x2", toString width), ("y2", toString ty),
      ("stroke", Colors.trigger), ("stroke-width", "1.5"), ("stroke-dasharray", "6 3")],
    .start "text" [("x", "4"), ("y", toString (ty - 3)), ("fill", Colors.trigger),
      ("font-size", "9px")],
    .text "▲ trigger", .stop "text"]

def header (width : Int) : List Item :=
  [.empty "rect" [("x", "0"), ("y", "0"), ("width", toString width),
      ("height", toString marginTop), ("fill", Colors.headerBg)],
    .empty "line" [("x1", "0"), ("y1", toString marginTop), ("x2", toString width),
      ("y2", toString marginTop), ("stroke", Colors.headerBorder)]]

def timeHeader : List Item :=
  [.start "text" [("x", "4"), ("y", "30"), ("fill", Colors.dim), ("font-size", "10px")],
    .text "Time (ms)", .stop "text"]

def idHeader (seen : List Int) (aid : Int) : List Item :=
  [.start "text" [("x", toString (colX seen aid)), ("y", "30"), ("fill", idColor aid),
      ("text-anchor", "middle"), ("font-size", "10px")],
    .text ("0x" ++ hexInt aid), .stop "text"]

def laneGuide (seen : List Int) (height aid : Int) : List Item :=
  [.empty "line" [("x1", toString (colX seen aid)), ("y1", toString marginTop),
    ("x2", toString (colX seen aid)), ("y2", toString height), ("stroke", Colors.headerBorder),
    ("stroke-width", "0.5"), ("stroke-dasharray", "2 4")]]

def frameDot (seen : List Int) (t0 : ℚ) (i : Nat) (aid : Int) (ts : ℚ) : List (List Item) :=
  [[.start "text" [("x", "4"), ("y", toString (rowY i + 4)), ("fill", Colors.dim),
        ("font-size", "9px")],
      .text (tsLabel ts t0), .stop "text"],
    [.empty "circle" [("cx", toString (colX seen aid)), ("cy", toString (rowY i)),
      ("r", toString circleR), ("fill", idColor aid)]]]

def arrowLine (str : Json → String) (seen ids : List Int) (kernelTs : List ℚ) (a : Arrow) :
    List Item :=
  let x1 := colX seen (ids.getD a.request 0)
  let y1 := rowY a.request
  let x2 := colX seen (ids.getD a.response 0)
  let y2 := rowY a.response
  let latUs := Binary64.mul
    (Binary64.sub (kernelTs.getD a.response 0) (kernelTs.getD a.request 0)) 1000000
  [.empty "line" [("x1", toString x1), ("y1", toString y1), ("x2", toString x2),
      ("y2", toString y2), ("stroke", Colors.arrow), ("stroke-width", "1.5"),
      ("marker-end", "url(#arrow)"), ("opacity", "0.8")],
    .start "text" [("x", toString ((x1 + x2) / 2 + 4)), ("y", toString ((y1 + y2) / 2 - 2)),
      ("fill", Colors.arrow), ("font-size", "9px")],
    .text (labelText str a.label), .text (" " ++ fixed 0 latUs ++ "µs"), .stop "text"]

/-- `lines`, for the ids and the times of the frames. -/
def svgLines (str : Json → String) (ids : List Int) (kernelTs : List ℚ)
    (triggerIndex : Option Int) (arrows : List Arrow) : List (List Item) :=
  let seen := seenIds ids
  let width := marginLeft + seen.length * colWidth + 20
  let height := marginTop + ids.length * rowHeight + 20
  [svgStart width height, arrowHead] ++
    (List.range ids.length).map (backgroundRow width) ++
    ((triggerIndex.filter fun ti : Int => 0 < ti ∧ ti ≤ ids.length).map
      (triggerLine width)).toList ++
    [header width, timeHeader] ++
    seen.map (idHeader seen) ++
    seen.map (laneGuide seen height) ++
    ((ids.zip kernelTs).zipIdx.flatMap fun x =>
      frameDot seen (kernelTs.headD 0) x.2 x.1.1 x.1.2) ++
    arrows.map (arrowLine str seen ids kernelTs) ++
    [[.stop "svg"]]

def noFrames : String :=
  "<svg xmlns='http://www.w3.org/2000/svg' width='400' height='60'>" ++
    "<text x='10' y='30' fill='#888'>No frames</text></svg>"

section

variable (str : Json → String) (format : String → Nat → Option String) (frames : List FrameDict)
  (latencyPairs : List RawPair)

/-- The lines for frames that there are; `none` is an exception. -/
def framesLines (triggerIndex : Option Int) : Option (List (List Item)) := do
  let ids ← frames.mapM fun f => intBase16 f.arbId
  let arrows ← exportSvg format frames latencyPairs
  return svgLines str ids (frames.map FrameDict.kernelTs) triggerIndex arrows.flatten

/-- The text that `export_svg` returns. -/
def exportSvgText (triggerIndex : Option Int) : Option String :=
  if frames = [] then some noFrames
  else (framesLines str format frames latencyPairs triggerIndex).map fun lines =>
    "\n".intercalate (lines.map renderAll)

/-- What stands between the tags of the text, as it is meant. -/
def captions (triggerIndex : Option Int) : Option (List Char) :=
  if frames = [] then some "No frames".toList
  else (framesLines str format frames latencyPairs triggerIndex).map fun lines =>
    ([Item.text "\n"].intercalate lines).flatMap Item.chars

def drawnLabels : List String :=
  ((exportSvg format frames latencyPairs).getD []).flatten.map fun a => labelText str a.label

end

def unlabelled (pp : RawPair) : RawPair := { pp with label := none, labelTemplate := none }

theorem cleanAttr_intText (key : String) (n : Int) :
    Item.cleanAttr (key, toString n) = isName key.toList := by
  have hall : ((toString n).toList.all fun c => c ≠ quotationMark ∧ c ≠ '<') = true := by
    rw [List.all_eq_true]
    intro c hc
    obtain rfl | hdigit := mem_intText hc
    · decide
    · simp only [decide_eq_true_eq]
      constructor
      all_goals
        rintro rfl
        exact absurd hdigit (by decide)
  rw [Item.cleanAttr, hall, Bool.and_true]

theorem cleanAttr_idColor (key : String) (n : Int) :
    Item.cleanAttr (key, idColor n) = isName key.toList := by
  have hint := cleanAttr_intText "x" (n * 137 % 360)
  rw [Item.cleanAttr, show isName "x".toList = true by decide, Bool.true_and] at hint
  have hall : ((idColor n).toList.all fun c => c ≠ quotationMark ∧ c ≠ '<') = true := by
    rw [idColor, String.toList_append, String.toList_append, List.all_append, List.all_append, hint]
    decide
  rw [Item.cleanAttr, hall, Bool.and_true]

end CanSniffer.SequenceSvg
