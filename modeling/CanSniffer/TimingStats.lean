import CanSniffer.Library.Deque
import CanSniffer.Library.PyDict
import CanSniffer.Models

namespace CanSniffer

open Library Library.PyText Models

/-- `_IdStats`. -/
structure IdStats where
  count : Nat := 0
  lastTs : Option ℚ := none
  intervals : Deque ℚ 100 := Deque.empty

structure IdTiming where
  count : Nat
  intervalMinMs : Option ℚ
  intervalMaxMs : Option ℚ
  intervalMeanMs : Option ℚ
  intervalStdMs : Option ℚ
  intervalP95Ms : Option ℚ
  intervalP99Ms : Option ℚ
  jitterRmsMs : Option ℚ
  framesPerSec : ℚ
  deriving DecidableEq, Repr

namespace IdStats

variable (ops : FloatOps)

def record (s : IdStats) (ts : ℚ) : IdStats where
  count := s.count + 1
  lastTs := some ts
  intervals :=
    match s.lastTs with
    | none => s.intervals
    | some last => s.intervals.append (ops.mul (ops.sub ts last) 1000)

def quantile (sorted : List ℚ) (q : ℚ) : ℚ :=
  sorted.getD (min (Binary64.trunc (ops.mul sorted.length (ops.literal q))).toNat
    (sorted.length - 1)) 0

def toDict (s : IdStats) : IdTiming :=
  let ivs := s.intervals.items
  if ivs.length < 2 then
    { count := s.count
      intervalMinMs := none
      intervalMaxMs := none
      intervalMeanMs := none
      intervalStdMs := none
      intervalP95Ms := none
      intervalP99Ms := none
      jitterRmsMs := none
      framesPerSec :=
        if s.count = 1 then
          ops.roundDigits 2 (ops.div 1 (ops.add (s.lastTs.getD 0) (ops.literal (1 / 10 ^ 9))))
        else 0 }
  else
    let sorted := ivs.mergeSort
    let mean := ops.mean ivs
    let std := ops.sqrt (ops.variance ivs)
    { count := s.count
      intervalMinMs := some (ops.roundDigits 3 (sorted.headD 0))
      intervalMaxMs := some (ops.roundDigits 3 (sorted.getLastD 0))
      intervalMeanMs := some (ops.roundDigits 3 mean)
      intervalStdMs := some (ops.roundDigits 3 std)
      intervalP95Ms := some (ops.roundDigits 3 (quantile ops sorted (95 / 100)))
      intervalP99Ms := some (ops.roundDigits 3 (quantile ops sorted (99 / 100)))
      jitterRmsMs := some (ops.roundDigits 3 std)
      framesPerSec := if 0 < mean then ops.roundDigits 2 (ops.div 1000 mean) else 0 }

end IdStats

/-- `_stats` is a defaultdict. -/
structure TimingStatsCollector where
  stats : PyDict Nat IdStats := PyDict.empty

namespace TimingStatsCollector

variable (ops : FloatOps)

def ingest (c : TimingStatsCollector) (frame : EnrichedFrame) : TimingStatsCollector :=
  ⟨c.stats.set frame.arbId (((c.stats.get? frame.arbId).getD {}).record ops frame.kernelTs)⟩

def run (c : TimingStatsCollector) (frames : List EnrichedFrame) : TimingStatsCollector :=
  frames.foldl (ingest ops) c

def reset (_ : TimingStatsCollector) : TimingStatsCollector := ⟨PyDict.empty⟩

def idKey (arbId : Nat) : String := "0x" ++ hexUpper 0 arbId

def snapshot (c : TimingStatsCollector) : PyDict String IdTiming :=
  PyDict.ofList ((c.stats.items.mergeSort fun p q => p.1 ≤ q.1).map fun p =>
    (idKey p.1, p.2.toDict ops))

theorem idKey_injective : Function.Injective idKey := by
  intro a b h
  have hread := congrArg intBase16 h
  rw [idKey, idKey, intBase16_hexUpper, intBase16_hexUpper] at hread
  exact Int.ofNat_inj.mp (Option.some.inj hread)

theorem get?_snapshot (c : TimingStatsCollector) (arbId : Nat) :
    (c.snapshot ops).get? (idKey arbId) = (c.stats.get? arbId).map (IdStats.toDict ops) := by
  have hperm := List.mergeSort_perm c.stats.items fun p q => p.1 ≤ q.1
  have hnodup : (((c.stats.items.mergeSort fun p q => p.1 ≤ q.1).map fun p =>
      (idKey p.1, p.2.toDict ops)).map Prod.fst).Nodup := by
    rw [List.map_map]
    have hkeys : ((c.stats.items.mergeSort fun p q => p.1 ≤ q.1).map Prod.fst).Nodup :=
      (hperm.map Prod.fst).nodup_iff.mpr c.stats.distinct
    have hmap := hkeys.map idKey_injective
    rwa [List.map_map] at hmap
  apply Option.ext
  intro d
  rw [snapshot, PyDict.get?_ofList hnodup, Option.map_eq_some_iff, List.mem_map]
  constructor
  · rintro ⟨⟨id, s⟩, hmem, heq⟩
    obtain ⟨hid, rfl⟩ := Prod.mk.inj heq
    cases idKey_injective hid
    exact ⟨s, PyDict.get?_eq_some_iff.mpr (hperm.mem_iff.mp hmem), rfl⟩
  · rintro ⟨s, hs, rfl⟩
    exact ⟨(arbId, s), hperm.mem_iff.mpr (PyDict.get?_eq_some_iff.mp hs), rfl⟩

end TimingStatsCollector
end CanSniffer
