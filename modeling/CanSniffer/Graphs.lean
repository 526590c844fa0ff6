import CanSniffer.Library.ForLoop
import CanSniffer.Library.JsNumber
import CanSniffer.Library.PyDict
import CanSniffer.Library.PyText
import CanSniffer.Library.RingSlots
import CanSniffer.Library.Trimmed

namespace CanSniffer

open Library Library.RingSlots

/-- Numbers of the page are doubles; `none` is null. -/
structure GraphRing where
  data : Fin 60 → Option ℚ
  head : Fin 60
  count : Nat

namespace GraphRing

def makeRing : GraphRing := ⟨fun _ => none, 0, 0⟩

def ringPush (ring : GraphRing) (value : Option ℚ) : GraphRing where
  data := Function.update ring.data ring.head value
  head := slot 60 (ring.head + 1)
  count := if ring.count < 60 then ring.count + 1 else ring.count

/-- Timestamps and values, in parallel. -/
def ringToUplot (ring : GraphRing) (nowTs : Int) : List Int × List (Option ℚ) :=
  let n := ring.count
  if n = 0 then ([nowTs], [none])
  else
    let oldest := nowTs - (n - 1)
    ((List.range n).map fun (i : Nat) => oldest + i,
      (List.range n).map fun i => ring.data (slot 60 (ring.head + 60 - n + i)))

end GraphRing

namespace Graphs

def windowS : Nat := 60

def heatmapIdsMax : Nat := 32

def maxLatencyPairs : Nat := 6

structure LatencyPair where
  label : Option String := none
  meanUs : Option ℚ := none
  lastUs : Option ℚ := none

inductive LatencyField
  | pairs (ps : List LatencyPair)
  | array (ps : List LatencyPair)
  | map (entries : List (String × LatencyPair))

/-- In a map, the key is the label of an entry that has none of its own. -/
def LatencyField.entries : LatencyField → List LatencyPair
  | .pairs ps | .array ps => ps
  | .map entries => entries.map fun (label, s) => { s with label := s.label <|> some label }

structure BusHealthField where
  tec : Option ℚ := none
  recCount : Option ℚ := none
  errorFramesPerSec : Option ℚ := none
  errorFrames1s : Option ℚ := none

structure DiagField where
  busHealth : Option BusHealthField := none
  flat : BusHealthField := {}

/-- A frame as the page has it. Its identifier is that of `to_dict`, or empty. -/
structure GraphFrame where
  arbId : String
  deltaUs : Option ℚ := none
  pruTsNs : Option ℚ := none
  kernelTs : Option ℚ := none

structure UpdateMsg where
  busLoad : Option ℚ := none
  diag : Option DiagField := none
  latency : Option LatencyField := none
  frames : List GraphFrame := []

/-- What is accumulated over a second; for a label the sum and the count of its samples. -/
structure Acc where
  busLoadSum : ℚ := 0
  busLoadCount : Nat := 0
  tec : Option ℚ := none
  recCount : Option ℚ := none
  errorFrames : ℚ := 0
  latency : String → Option (ℚ × Nat) := fun _ => none

structure HeatmapCol where
  tsS : Nat
  counts : PyDict String Nat

end Graphs

open Graphs in
structure Graphs where
  lastBucketSec : Nat := 0
  acc : Acc := {}
  busLoad : GraphRing := GraphRing.makeRing
  tec : GraphRing := GraphRing.makeRing
  recCount : GraphRing := GraphRing.makeRing
  errRate : GraphRing := GraphRing.makeRing
  latencyRings : String → Option GraphRing := fun _ => none
  latencyPairLabels : List String := []
  heatmapCurrentBucket : PyDict String Nat := PyDict.empty
  heatmapCols : List HeatmapCol := []
  heatmapIds : List String := []
  idDeltaHistory : PyDict String (List ℚ) := PyDict.empty
  pruKernelDeltas : List ℚ := []

namespace Graphs

open GraphRing

/-- The names under which every object has something already. -/
def inherited : List String :=
  ["constructor", "__defineGetter__", "__defineSetter__", "hasOwnProperty", "__lookupGetter__",
    "__lookupSetter__", "isPrototypeOf", "propertyIsEnumerable", "toString", "valueOf",
    "__proto__", "toLocaleString"]

/-- `s && s.count > 0 ? s.sum / s.count : null` -/
def mean : Option (ℚ × Nat) → Option ℚ
  | some (sum, count) => if 0 < count then some (Binary64.div sum count) else none
  | none => none

/-- One pass of the loop over the labels. What is found under an inherited name has no `data`:
`none` is the TypeError. -/
def flushLabel (g : Graphs) (lbl : String) : Option Graphs :=
  if lbl ∈ inherited then none
  else
    let ring := (g.latencyRings lbl).getD makeRing
    some { g with latencyRings :=
      Function.update g.latencyRings lbl (some (ringPush ring (mean (g.acc.latency lbl)))) }

/-- The part of `flushBucket` in front of the loop over the labels. -/
def pushRings (g : Graphs) : Graphs :=
  { g with
    busLoad := ringPush g.busLoad
      (if 0 < g.acc.busLoadCount then some (Binary64.div g.acc.busLoadSum g.acc.busLoadCount)
      else none)
    tec := ringPush g.tec g.acc.tec
    recCount := ringPush g.recCount g.acc.recCount
    errRate := ringPush g.errRate (some g.acc.errorFrames) }

/-- The part of `flushBucket` behind the loop. -/
def closeBucket (g : Graphs) (bucketSec : Nat) : Graphs :=
  let cols := g.heatmapCols ++ [⟨bucketSec, g.heatmapCurrentBucket⟩]
  { g with
    heatmapCols := if windowS < cols.length then cols.tail else cols
    acc := {}
    heatmapCurrentBucket := PyDict.empty }

/-- The flag says that an exception left the call. -/
def flushBucket (g : Graphs) (bucketSec : Nat) : Graphs × Bool :=
  let (g, raised) := ForLoop.tryFold flushLabel g.pushRings g.latencyPairLabels
  if raised then (g, true) else (g.closeBucket bucketSec, false)

def flushSeconds : Nat → Graphs → Graphs × Bool
  | 0, g => (g, false)
  | n + 1, g =>
    let (g, raised) := g.flushBucket g.lastBucketSec
    if raised then (g, true)
    else flushSeconds n { g with lastBucketSec := g.lastBucketSec + 1 }

def ingestBusLoad (g : Graphs) : Option ℚ → Graphs
  | none => g
  | some load => { g with
      acc := { g.acc with
        busLoadSum := Binary64.add g.acc.busLoadSum load
        busLoadCount := g.acc.busLoadCount + 1 } }

def ingestDiag (g : Graphs) : Option DiagField → Graphs
  | none => g
  | some diag =>
    let bh := diag.busHealth.getD diag.flat
    { g with
      acc := { g.acc with
        tec := bh.tec <|> g.acc.tec
        recCount := bh.recCount <|> g.acc.recCount
        errorFrames :=
          match bh.errorFramesPerSec <|> bh.errorFrames1s with
          | none => g.acc.errorFrames
          | some errFs => max g.acc.errorFrames errFs } }

def listLabel (labels : List String) (lbl : String) : List String :=
  if lbl ∉ labels ∧ labels.length < maxLatencyPairs then labels ++ [lbl] else labels

def addSample (latency : String → Option (ℚ × Nat)) (lbl : String) (v : ℚ) :
    String → Option (ℚ × Nat) :=
  let (sum, count) := (latency lbl).getD (0, 0)
  Function.update latency lbl (some (Binary64.add sum v, count + 1))

def ingestPair (g : Graphs) (p : LatencyPair) : Graphs :=
  match p.label with
  | none | some "" => g
  | some lbl =>
    let g := { g with latencyPairLabels := listLabel g.latencyPairLabels lbl }
    match p.meanUs <|> p.lastUs with
    | none => g
    | some v => { g with acc := { g.acc with latency := addSample g.acc.latency lbl v } }

def ingestLatency (g : Graphs) : Option LatencyField → Graphs
  | none => g
  | some latency => latency.entries.foldl ingestPair g

/-- `parseInt(id, 16)` of an identifier that starts with `0x`. -/
def parseHex (id : String) : Nat := JsNumber.readHexDigits 0 (id.toList.drop 2)

def ingestFrame (g : Graphs) (f : GraphFrame) : Graphs :=
  if f.arbId = "" then g
  else
    let count := (g.heatmapCurrentBucket.get? f.arbId).getD 0
    { g with
      heatmapCurrentBucket := g.heatmapCurrentBucket.set f.arbId (count + 1)
      heatmapIds :=
        if f.arbId ∈ g.heatmapIds then g.heatmapIds
        else ((g.heatmapIds ++ [f.arbId]).mergeSort fun a b => parseHex a ≤ parseHex b).take
          heatmapIdsMax
      idDeltaHistory :=
        match f.deltaUs with
        | none => g.idDeltaHistory
        | some delta => g.idDeltaHistory.set f.arbId
            (Trimmed.push 2000 500 ((g.idDeltaHistory.get? f.arbId).getD []) delta)
      pruKernelDeltas :=
        match f.pruTsNs, f.kernelTs with
        | some pru, some kernel => Trimmed.push 2000 500 g.pruKernelDeltas
            (Binary64.div (Binary64.sub pru (Binary64.mul kernel (10 ^ 9))) 1000)
        | _, _ => g.pruKernelDeltas }

/-- The first second is that of the first message. -/
def startBuckets (g : Graphs) (nowSec : Nat) : Graphs :=
  { g with lastBucketSec := if g.lastBucketSec = 0 then nowSec else g.lastBucketSec }

/-- `nowSec` is the second of `Date.now()`. The flag says that an exception left the call. -/
def graphsIngest (g : Graphs) (nowSec : Nat) (msg : UpdateMsg) : Graphs × Bool :=
  let g := g.startBuckets nowSec
  let (g, raised) := flushSeconds (nowSec - g.lastBucketSec) g
  if raised then (g, true)
  else
    let g := ((g.ingestBusLoad msg.busLoad).ingestDiag msg.diag).ingestLatency msg.latency
    (msg.frames.foldl ingestFrame g, false)

/-- The arrays of one label. -/
def latencySeries (g : Graphs) (nowTs : Int) (lbl : String) : List Int × List (Option ℚ) :=
  match g.latencyRings lbl with
  | some ring => ringToUplot ring nowTs
  | none => ([nowTs], [none])

/-- What `updateCharts` and `buildLatencyChart` make for the latency chart: the time axis of the
first label, and the values of each. What is found under an inherited name is no ring, and gives
an exception or an array of undefined values: `none`. -/
def latencyData (g : Graphs) (nowTs : Int) : Option (List Int × List (List (Option ℚ))) :=
  let labels := g.latencyPairLabels.take maxLatencyPairs
  if ∃ lbl ∈ labels, lbl ∈ inherited then none
  else
    let series := labels.map (g.latencySeries nowTs)
    some ((series.head?.map Prod.fst).getD [nowTs], series.map Prod.snd)

end Graphs
end CanSniffer
