import CanSniffer.Library.JsNumber
import CanSniffer.Models

namespace CanSniffer

open Library Models

structure PageFrame where
  dict : FrameDict
  deltaUs : Option Int
  hue : Option Int
  deriving DecidableEq, Repr

def ringSize : Nat := 10000

structure DashboardPage where
  ringBuffer : List PageFrame := []
  ringHead : Nat := 0
  ringCount : Nat := 0
  lastIdTs : String → Option ℚ := fun _ => none
  seenIds : List String := []
  totalFrames : Nat := 0

namespace DashboardPage

/-- A JSON number is read as a double. -/
def parseNumber (n : Int) : ℚ := Binary64.round n

/-- `Math.round`. -/
def mathRound (x : ℚ) : Int := ⌊x + 1 / 2⌋

/-- A frame with these fields, after a frame of its identifier with the PRU time `prev`. -/
def mark (prev : Option ℚ) (f : FrameDict) : PageFrame where
  dict := f
  deltaUs := do
    let prev ← prev
    let ts ← f.pruTsNs.map parseNumber
    pure (mathRound (Binary64.div (Binary64.sub ts prev) 1000))
  hue := (JsNumber.parseIntHex f.arbId.toList).map fun idNum => idNum.num.tmod 360

def push (page : DashboardPage) (f : PageFrame) : DashboardPage :=
  if page.ringCount < ringSize then
    { page with ringBuffer := page.ringBuffer ++ [f], ringCount := page.ringCount + 1 }
  else
    { page with
      ringBuffer := page.ringBuffer.set page.ringHead f
      ringHead := (page.ringHead + 1) % ringSize }

def ingestFrame (page : DashboardPage) (f : FrameDict) : DashboardPage :=
  let lastIdTs := match f.pruTsNs.map parseNumber with
    | some ts => Function.update page.lastIdTs f.arbId (some ts)
    | none => page.lastIdTs
  let page := { page with lastIdTs }.push (mark (page.lastIdTs f.arbId) f)
  { page with
    seenIds := if f.arbId ∈ page.seenIds then page.seenIds else page.seenIds ++ [f.arbId]
    totalFrames := page.totalFrames + 1 }

@[simp] theorem totalFrames_push (page : DashboardPage) (f : PageFrame) :
    (page.push f).totalFrames = page.totalFrames := by
  rw [push]
  split_ifs <;> rfl

theorem totalFrames_ingestFrame (page : DashboardPage) (f : FrameDict) :
    (page.ingestFrame f).totalFrames = page.totalFrames + 1 := by
  simp [ingestFrame]

theorem totalFrames_ingestFrames (page : DashboardPage) (fs : List FrameDict) :
    (fs.foldl ingestFrame page).totalFrames = page.totalFrames + fs.length := by
  induction fs generalizing page with
  | nil => rfl
  | cons f fs ih =>
    rw [List.foldl_cons, ih, totalFrames_ingestFrame, List.length_cons]
    omega

end DashboardPage
end CanSniffer
