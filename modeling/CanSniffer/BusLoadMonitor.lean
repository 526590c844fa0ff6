import CanSniffer.Library.SlidingWindow
import CanSniffer.Library.WhileLoop
import CanSniffer.Models

namespace CanSniffer

open Library Library.WhileLoop Library.SlidingWindow Models

/-- Approximate worst-case size of a CAN frame in bits, with the stuff bits. -/
def frameBitLength (dlc : Nat) : Nat :=
  let payloadBits := dlc * 8
  let overhead := 47
  let total := payloadBits + overhead
  total + (total - 1) / 4

/-- Each entry of the window is the time of a frame with its bit length. -/
structure BusLoadMonitor where
  bitrate : Int := 1000000
  windowS : ℚ := 1
  window : List (ℚ × Nat) := []
  sumBits : Int := 0
  deriving DecidableEq, Repr

namespace BusLoadMonitor

def evictBody (cutoff : ℚ) (m : BusLoadMonitor) : Option BusLoadMonitor :=
  match m.window with
  | (ts, bits) :: window =>
    if ts < cutoff then some { m with window, sumBits := m.sumBits - bits } else none
  | [] => none

def record (m : BusLoadMonitor) (frame : EnrichedFrame) : BusLoadMonitor :=
  let ts := frame.kernelTs
  let bits := frameBitLength frame.dlc
  let m := { m with window := m.window ++ [(ts, bits)], sumBits := m.sumBits + bits }
  loop (evictBody (Binary64.sub ts m.windowS)) m.window.length m

/-- `bits / (bitrate * windowS)` with its conversions to doubles; `none` is an OverflowError or
a ZeroDivisionError. A product beyond the doubles is an infinity. -/
def quotient? (m : BusLoadMonitor) (bits : Int) : Option ℚ := do
  let rate ← Binary64.ofInt? m.bitrate
  let capacity := Binary64.mul rate m.windowS
  let bits ← Binary64.ofInt? bits
  if 2 ^ 1024 ≤ |capacity| then some 0 else Binary64.div? bits capacity

def current (m : BusLoadMonitor) : Option ℚ :=
  if m.window = [] then some 0 else (m.quotient? m.sumBits).map (min · 1)

def run (bitrate : Int) (windowS : ℚ) (frames : List EnrichedFrame) : BusLoadMonitor :=
  frames.foldl record { bitrate, windowS }

def entry (frame : EnrichedFrame) : ℚ × Nat := (frame.kernelTs, frameBitLength frame.dlc)

def bitsOf (entries : List (ℚ × Nat)) : Nat := (entries.map Prod.snd).sum

variable {m : BusLoadMonitor}

theorem bitsOf_append (entries more : List (ℚ × Nat)) :
    bitsOf (entries ++ more) = bitsOf entries + bitsOf more := by
  simp [bitsOf]

theorem loop_evict (cutoff : ℚ) (fuel : Nat) (hfuel : m.window.length ≤ fuel) :
    loop (evictBody cutoff) fuel m =
      { m with
        window := m.window.dropWhile fun e => e.1 < cutoff
        sumBits := m.sumBits - bitsOf (m.window.takeWhile fun e => e.1 < cutoff) } := by
  induction fuel generalizing m with
  | zero =>
    have hnil : m.window = [] := List.length_eq_zero_iff.mp (Nat.le_zero.mp hfuel)
    cases m
    simp_all [loop, bitsOf]
  | succ fuel ih =>
    obtain ⟨bitrate, windowS, window, sumBits⟩ := m
    cases window with
    | nil => simp [loop, evictBody, bitsOf]
    | cons e window =>
      obtain ⟨ts, bits⟩ := e
      by_cases hold : ts < cutoff
      · have hbody : evictBody cutoff ⟨bitrate, windowS, (ts, bits) :: window, sumBits⟩ =
            some ⟨bitrate, windowS, window, sumBits - bits⟩ := by simp [evictBody, hold]
        rw [loop_succ hbody, ih (by simpa using hfuel)]
        simp [bitsOf, hold]
        ring
      · have hbody : evictBody cutoff ⟨bitrate, windowS, (ts, bits) :: window, sumBits⟩ = none := by
          simp [evictBody, hold]
        rw [loop_of_exit hbody]
        simp [bitsOf, hold]

end BusLoadMonitor
end CanSniffer
