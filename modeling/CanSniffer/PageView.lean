import CanSniffer.FrameTable

namespace CanSniffer

open Library Models DashboardPage

structure PageView where
  page : DashboardPage := {}
  paused : Bool := false
  filterText : String := ""
  table : List TableRow := []

namespace PageView

/-- What a user does; the text of a filter comes trimmed and in lower case. -/
inductive Control
  | pause
  | clear
  | filter (text : String)

inductive Act
  | update (frames : List FrameDict)
  | control (c : Control)

/-- An access outside of the array is an exception that leaves the table as it is. -/
def renderTable (v : PageView) : PageView :=
  match v.page.renderTable v.filterText with
  | some table => { v with table }
  | none => v

def update (v : PageView) (frames : List FrameDict) : PageView :=
  if frames.isEmpty then v
  else
    let v := { v with page := frames.foldl DashboardPage.ingestFrame v.page }
    if v.paused then v else v.renderTable

def control (v : PageView) : Control → PageView
  | .pause =>
    let v := { v with paused := !v.paused }
    if v.paused then v else v.renderTable
  | .clear => { v with page := v.page.clear, table := [] }
  | .filter text => { v with filterText := text }.renderTable

def step (v : PageView) : Act → PageView
  | .update frames => v.update frames
  | .control c => v.control c

def run (acts : List Act) : PageView := acts.foldl step {}

def lastTime (frames : List FrameDict) (id : String) : Option ℚ :=
  (((frames.filter (·.arbId = id)).filterMap (·.pruTsNs)).getLast?).map parseNumber

def pageFrame (before : List FrameDict) (f : FrameDict) : PageFrame :=
  mark (lastTime before f.arbId) f

def pageFrames (frames : List FrameDict) : List PageFrame :=
  frames.mapIdx fun i f => pageFrame (frames.take i) f

def tableOf (frames : List FrameDict) (filterText : String) : List TableRow :=
  ((((pageFrames frames).rtake ringSize).filter (matchesFilter filterText)).rtake maxDomRows).map
    tableRow

variable {page : DashboardPage} {v : PageView} {frames : List FrameDict}

theorem pageFrames_concat (frames : List FrameDict) (f : FrameDict) :
    pageFrames (frames ++ [f]) = pageFrames frames ++ [pageFrame frames f] := by
  rw [pageFrames, List.mapIdx_concat, List.take_left, pageFrames]
  congr 1
  apply List.ext_getElem
  · rw [List.length_mapIdx, List.length_mapIdx]
  · intro i hi hi'
    rw [List.length_mapIdx] at hi'
    rw [List.getElem_mapIdx, List.getElem_mapIdx, List.take_append_of_le_length hi'.le]

theorem lastTime_concat (frames : List FrameDict) (f : FrameDict) (id : String) :
    lastTime (frames ++ [f]) id = match f.pruTsNs with
      | some ts => if f.arbId = id then some (parseNumber ts) else lastTime frames id
      | none => lastTime frames id := by
  rw [lastTime, lastTime, List.filter_append, List.filterMap_append]
  by_cases hid : f.arbId = id
  · cases hts : f.pruTsNs with
    | none => simp [hid, hts]
    | some ts => simp [hid, hts]
  · cases hts : f.pruTsNs with
    | none => simp [hid]
    | some ts => simp [hid]

structure Has (page : DashboardPage) (frames : List FrameDict) : Prop where
  ring : Ring page (pageFrames frames)
  lastIdTs : ∀ id, page.lastIdTs id = lastTime frames id

theorem has_clear (page : DashboardPage) : Has page.clear [] :=
  ⟨ring_clear page, fun _ => rfl⟩

theorem lastIdTs_push (page : DashboardPage) (f : PageFrame) :
    (page.push f).lastIdTs = page.lastIdTs := by
  rw [DashboardPage.push]
  split_ifs <;> rfl

theorem has_ingestFrame (h : Has page frames) (f : FrameDict) :
    Has (page.ingestFrame f) (frames ++ [f]) where
  ring := by
    have hpage (times : String → Option ℚ) :
        Ring { page with lastIdTs := times } (pageFrames frames) := h.ring
    have hring (times : String → Option ℚ) := (hpage times).push (pageFrame frames f)
    simp only [pageFrame, ← h.lastIdTs] at hring
    rw [pageFrames_concat, pageFrame, ← h.lastIdTs]
    exact hring _
  lastIdTs id := by
    rw [lastTime_concat, ← h.lastIdTs]
    rw [DashboardPage.ingestFrame]
    dsimp only
    rw [lastIdTs_push]
    cases hts : f.pruTsNs with
    | none => rfl
    | some ts => simp [Function.update_apply, eq_comm]

theorem has_ingestFrames (h : Has page frames) (more : List FrameDict) :
    Has (more.foldl DashboardPage.ingestFrame page) (frames ++ more) := by
  induction more generalizing page frames with
  | nil => rwa [List.append_nil]
  | cons f more ih =>
    have hrest := ih (has_ingestFrame h f)
    rwa [List.append_assoc] at hrest

theorem tableOf_nil (filterText : String) : tableOf [] filterText = [] := by
  simp [tableOf, pageFrames]

theorem renderTable_eq (h : Has v.page frames) :
    v.renderTable = { v with table := tableOf frames v.filterText } := by
  have hvisible : v.page.visibleFrames v.filterText =
      some (((pageFrames frames).rtake ringSize).filter (matchesFilter v.filterText)) := by
    rw [visibleFrames, ForLoop.mapM_eq_some h.ring.read]
    rfl
  rw [renderTable, DashboardPage.renderTable, hvisible]
  rfl

theorem paused_renderTable (v : PageView) : v.renderTable.paused = v.paused := by
  rw [renderTable]
  split <;> rfl

structure Shows (v : PageView) (frames : List FrameDict) : Prop where
  has : Has v.page frames
  table : v.paused = false → v.table = tableOf frames v.filterText

theorem shows_render (h : Has v.page frames) : Shows v.renderTable frames := by
  have heq := renderTable_eq h
  constructor
  · rw [heq]
    exact h
  · intro _
    rw [heq]

theorem shows_update (h : Shows v frames) (more : List FrameDict) :
    Shows (v.update more) (frames ++ more) := by
  rw [update]
  split_ifs with hempty
  · rw [List.isEmpty_iff.mp hempty, List.append_nil]
    exact h
  · have hhas := has_ingestFrames h.has more
    dsimp only
    split_ifs with hpaused
    · exact ⟨hhas, fun hp => absurd (hpaused.symm.trans hp) (by decide)⟩
    · exact shows_render hhas

def kept (frames : List FrameDict) : Control → List FrameDict
  | .clear => []
  | .pause | .filter _ => frames

theorem shows_control (h : Shows v frames) (c : Control) : Shows (v.control c) (kept frames c) := by
  cases c with
  | pause =>
    rw [control]
    dsimp only
    split_ifs with hpaused
    · exact ⟨h.has, fun hp => absurd (hpaused.symm.trans hp) (by decide)⟩
    · exact shows_render h.has
  | clear => exact ⟨has_clear _, fun _ => (tableOf_nil _).symm⟩
  | filter text => exact shows_render h.has

def since (acts : List Act) : List FrameDict :=
  acts.foldl (fun frames a => match a with
    | .update more => frames ++ more
    | .control c => kept frames c) []

theorem shows_run (acts : List Act) : Shows (run acts) (since acts) := by
  induction acts using List.reverseRecOn with
  | nil => exact ⟨has_clear {}, fun _ => (tableOf_nil _).symm⟩
  | append_singleton acts a ih =>
    rw [run, since, List.foldl_append, List.foldl_append]
    cases a with
    | update more => exact shows_update ih more
    | control c => exact shows_control ih c

theorem run_concat (acts : List Act) (a : Act) : run (acts ++ [a]) = (run acts).step a := by
  rw [run, List.foldl_append]
  rfl

theorem table_control (h : Shows v frames) (c : Control) :
    (v.control c).table = tableOf (kept frames c) (v.control c).filterText := by
  have hafter := shows_control h c
  cases c with
  | pause =>
    cases hpaused : v.paused with
    | true => exact hafter.table (by simp [control, hpaused, paused_renderTable])
    | false =>
      have hsame : v.control .pause = { v with paused := true } := by simp [control, hpaused]
      rw [hsame]
      exact h.table hpaused
  | clear => exact (tableOf_nil _).symm
  | filter text =>
    have hhas : Has { v with filterText := text }.page frames := h.has
    have heq := renderTable_eq hhas
    rw [control, heq, kept]

/-- Whatever the user does and whatever comes in, the table is that of the frames which came in
since it was cleared, each with its distance from the last PRU time of its identifier, up to a
message from which on the page is paused; the filter applies at once. -/
theorem table_shows (acts : List Act) :
    ∃ pre post, acts = pre ++ post ∧ (post ≠ [] → (run pre).paused = true) ∧
      (∀ a ∈ post, ∃ more, a = .update more) ∧
      (run acts).table = tableOf (since pre) (run acts).filterText := by
  induction acts using List.reverseRecOn with
  | nil => exact ⟨[], [], rfl, nofun, nofun, (tableOf_nil _).symm⟩
  | append_singleton acts a ih =>
    have hbefore := shows_run acts
    have hsince : since (acts ++ [a]) = match a with
        | .update more => since acts ++ more
        | .control c => kept (since acts) c := by
      rw [since, List.foldl_append]
      rfl
    cases a with
    | control c =>
      refine ⟨acts ++ [.control c], [], (List.append_nil _).symm, nofun, nofun, ?_⟩
      rw [run_concat, hsince]
      exact table_control hbefore c
    | update more =>
      cases hpaused : (run acts).paused with
      | false =>
        refine ⟨acts ++ [.update more], [], (List.append_nil _).symm, nofun, nofun, ?_⟩
        have hafter := shows_update hbefore more
        rw [run_concat, hsince]
        apply hafter.table
        rw [update]
        split_ifs
        · exact hpaused
        · simp [hpaused, paused_renderTable]
      | true =>
        obtain ⟨pre, post, hsplit, hpre, hpost, htable⟩ := ih
        have hsame : ((run acts).update more).table = (run acts).table ∧
            ((run acts).update more).filterText = (run acts).filterText := by
          rw [update]
          split_ifs
          · exact ⟨rfl, rfl⟩
          · simp [hpaused]
        refine ⟨pre, post ++ [.update more], ?_, fun _ => ?_, ?_, ?_⟩
        · rw [hsplit, List.append_assoc]
        · by_cases hnil : post = []
          · rwa [hsplit, hnil, List.append_nil] at hpaused
          · exact hpre hnil
        · intro a ha
          obtain hold | hnew := List.mem_append.mp ha
          · exact hpost a hold
          · exact ⟨more, List.mem_singleton.mp hnew⟩
        · rw [run_concat, step, hsame.1, hsame.2, htable]

end PageView
end CanSniffer
