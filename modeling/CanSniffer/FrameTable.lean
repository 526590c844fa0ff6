import CanSniffer.Annotations
import CanSniffer.Library.CircularArray
import CanSniffer.Library.ForLoop

namespace CanSniffer.DashboardPage

open Library Models

def maxDomRows : Nat := 200

def clear (page : DashboardPage) : DashboardPage :=
  { page with ringBuffer := [], ringHead := 0, ringCount := 0, lastIdTs := fun _ => none }

inductive Action
  | ingestFrame (f : FrameDict)
  | clear
  deriving DecidableEq, Repr

def act (page : DashboardPage) : Action → DashboardPage
  | .ingestFrame f => page.ingestFrame f
  | .clear => page.clear

def run (actions : List Action) : DashboardPage := actions.foldl act {}

def matchesFilter (filterText : String) (f : PageFrame) : Bool :=
  filterText.isEmpty || filterText.toList.isPrefixOf (f.dict.arbId.toList.map Char.toLower)

/-- `none` is an access outside of the array. -/
def visibleFrames (page : DashboardPage) (filterText : String) : Option (List PageFrame) := do
  let frames ← (List.range page.ringCount).mapM fun i =>
    page.ringBuffer[(page.ringHead + i) % ringSize]?
  pure (frames.filter (matchesFilter filterText))

/-- A row of the table; a hue that is not a number is `none`. -/
structure TableRow where
  background : String
  cells : List String
  deriving DecidableEq, Repr

def tableRow (f : PageFrame) : TableRow where
  background :=
    let hue := match f.hue with
      | some hue => String.ofList (JsNumber.intText hue)
      | none => "NaN"
    "hsla(" ++ hue ++ ",30%,18%,0.5)"
  cells := Annotations.renderRow f

def renderTable (page : DashboardPage) (filterText : String) : Option (List TableRow) := do
  let frames ← page.visibleFrames filterText
  pure ((frames.rtake maxDomRows).map tableRow)

def sinceClear (actions : List Action) : List FrameDict :=
  actions.foldl (fun frames action => match action with
    | .ingestFrame f => frames ++ [f]
    | .clear => []) []

variable {page : DashboardPage} {frames : List PageFrame}

/-- The ring holds the newest of these frames. -/
def Ring (page : DashboardPage) (frames : List PageFrame) : Prop :=
  CircularArray.Holds ringSize page.ringBuffer page.ringHead page.ringCount frames

theorem ring_clear (page : DashboardPage) : Ring page.clear [] :=
  CircularArray.holds_nil (by decide)

theorem Ring.push (h : Ring page frames) (f : PageFrame) : Ring (page.push f) (frames ++ [f]) := by
  rw [DashboardPage.push]
  split_ifs with hroom
  · exact CircularArray.Holds.push h hroom f
  · exact CircularArray.Holds.overwrite h hroom f

theorem ingestFrame_push (page : DashboardPage) (f : FrameDict) :
    ∃ pushed lastIdTs seenIds totalFrames, page.ingestFrame f =
        { { page with lastIdTs }.push pushed with seenIds, totalFrames } ∧ pushed.dict = f := by
  refine ⟨_, _, _, _, rfl, ?_⟩
  rfl

theorem Ring.ingestFrame (h : Ring page frames) (f : FrameDict) :
    ∃ pushed : PageFrame, pushed.dict = f ∧ Ring (page.ingestFrame f) (frames ++ [pushed]) := by
  obtain ⟨pushed, lastIdTs, seenIds, totalFrames, heq, hdict⟩ := ingestFrame_push page f
  have hpage : Ring { page with lastIdTs } frames := h
  refine ⟨pushed, hdict, ?_⟩
  rw [heq]
  exact hpage.push pushed

/-- The ring keeps pace with the frames since the last Clear. -/
theorem ring_run (actions : List Action) :
    ∃ frames : List PageFrame, frames.map (·.dict) = sinceClear actions ∧
      Ring (run actions) frames := by
  induction actions using List.reverseRecOn with
  | nil => exact ⟨[], rfl, ring_clear {}⟩
  | append_singleton actions action ih =>
    obtain ⟨frames, hdicts, hring⟩ := ih
    rw [run, sinceClear, List.foldl_append, List.foldl_append]
    cases action with
    | ingestFrame f =>
      obtain ⟨pushed, hpushed, hnext⟩ := hring.ingestFrame f
      refine ⟨frames ++ [pushed], ?_, hnext⟩
      rw [List.map_append, hdicts, List.map_singleton, hpushed]
      rfl
    | clear => exact ⟨[], rfl, ring_clear _⟩

theorem visibleFrames_of_ring (h : Ring page frames) :
    page.visibleFrames "" = some (frames.rtake ringSize) := by
  have hall : (frames.rtake ringSize).filter (matchesFilter "") = frames.rtake ringSize :=
    List.filter_eq_self.mpr fun f _ => rfl
  rw [visibleFrames, ForLoop.mapM_eq_some h.read]
  exact congrArg some hall

/-- In every sequence of frames and Clears, with an empty filter, the page yields the last
`ringSize` frames since the last Clear in order, and shows the last `maxDomRows` of them; all of
them while there are fewer. -/
theorem table_shows_newest (actions : List Action) :
    ∃ frames : List PageFrame, frames.map (·.dict) = sinceClear actions ∧
      (run actions).visibleFrames "" = some (frames.rtake ringSize) ∧
      (run actions).renderTable "" = some ((frames.rtake maxDomRows).map tableRow) := by
  obtain ⟨frames, hdicts, hring⟩ := ring_run actions
  have hvisible := visibleFrames_of_ring hring
  refine ⟨frames, hdicts, hvisible, ?_⟩
  rw [renderTable, hvisible, Option.bind_eq_bind, Option.bind_some,
    Newest.rtake_rtake _ (by decide)]
  rfl

end CanSniffer.DashboardPage
