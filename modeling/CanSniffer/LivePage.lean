import CanSniffer.PageView
import CanSniffer.Reconnect
import CanSniffer.ServerRuns

namespace CanSniffer

open Library Models

/-- The server with a page, and the `last_total` of the page's connection, if there is one. -/
structure LivePage where
  server : Server
  lastTotal : Option Nat := none
  view : PageView := {}

namespace LivePage

inductive Act
  | server (a : Server.Act)
  | connect
  | tick (now monotonic : ℚ)
  | disconnect
  | control (c : PageView.Control)

/-- The frames of one update of `ws_endpoint`, and its new `last_total`. -/
def newFrames (store : FrameStore EnrichedFrame Reconnect.storeMaxlen) (lastTotal : Nat) :
    List EnrichedFrame × Nat :=
  let (newObjs, lastTotal) := store.since lastTotal
  (if newObjs.length > Reconnect.maxWsFramesPerTick then newObjs.rtake Reconnect.maxWsFramesPerTick
    else newObjs, lastTotal)

section

variable (ops : FloatOps) (format : String → Nat → Option String) (dumps : FrameDict → String)

/-- One update, which the page gets at once. An exception of the load ends the connection. -/
def tick (s : LivePage) (lastTotal : Nat) (now monotonic : ℚ) : LivePage :=
  match s.server.busLoad.current with
  | none => { s with lastTotal := none }
  | some _ =>
    let (frames, lastTotal) := newFrames s.server.frameStore lastTotal
    { server := s.server.step ops format dumps (.update now monotonic)
      lastTotal := some lastTotal
      view := s.view.update (frames.map EnrichedFrame.toDict) }

def step (s : LivePage) : Act → LivePage
  | .server a => { s with server := s.server.step ops format dumps a }
  | .connect => { s with lastTotal := some 0 }
  | .tick now monotonic =>
    match s.lastTotal with
    | some lastTotal => s.tick ops format dumps lastTotal now monotonic
    | none => s
  | .disconnect => { s with lastTotal := none }
  | .control c => { s with view := s.view.control c }

def run (s : LivePage) (acts : List Act) : LivePage := acts.foldl (step ops format dumps) s

end

/-- A connection is made by a page that has not shown a frame yet, and between two updates of it no
more frames are handed on than an update has room for. -/
def Steady (s : LivePage) : Act → Prop
  | .connect => s.view.page.totalFrames = 0
  | .tick _ _ => ∀ lastTotal ∈ s.lastTotal, 0 < lastTotal →
      s.server.frameStore.total ≤ lastTotal + Reconnect.maxWsFramesPerTick
  | .server _ | .disconnect | .control _ => True

instance (s : LivePage) : (a : Act) → Decidable (Steady s a)
  | .connect => Nat.decEq _ _
  | .tick _ _ =>
    match h : s.lastTotal with
    | none => isTrue (by simp [Steady, h])
    | some lastTotal => decidable_of_iff (0 < lastTotal →
        s.server.frameStore.total ≤ lastTotal + Reconnect.maxWsFramesPerTick) (by simp [Steady, h])
  | .server _ | .disconnect | .control _ => instDecidableTrue

theorem store_of_appends (frames : List EnrichedFrame) :
    let store : FrameStore EnrichedFrame Reconnect.storeMaxlen :=
      frames.foldl FrameStore.append .init
    store.frames.items = frames.rtake Reconnect.storeMaxlen ∧ store.total = frames.length := by
  induction frames using List.reverseRecOn with
  | nil => exact ⟨rfl, rfl⟩
  | append_singleton frames f ih =>
    rw [List.foldl_append]
    refine ⟨Deque.items_append_rtake ih.1 f, ?_⟩
    rw [List.length_append, ← ih.2]
    rfl

theorem newFrames_eq (frames : List EnrichedFrame) {lastTotal : Nat}
    (h : lastTotal ≤ frames.length) :
    newFrames (frames.foldl FrameStore.append .init) lastTotal =
      ((frames.drop lastTotal).rtake Reconnect.maxWsFramesPerTick, frames.length) := by
  obtain ⟨hitems, htotal⟩ := store_of_appends frames
  have hsince : (FrameStore.since (frames.foldl FrameStore.append
      (.init : FrameStore EnrichedFrame Reconnect.storeMaxlen)) lastTotal) =
        ((frames.drop lastTotal).rtake Reconnect.storeMaxlen, frames.length) := by
    rw [FrameStore.since_eq, hitems, htotal, Int.toNat_sub, Newest.rtake_rtake_drop h]
  rw [newFrames, hsince]
  dsimp only
  split_ifs with hlong
  · rw [Newest.rtake_rtake _ (by decide)]
  · rw [not_lt, Newest.length_rtake] at hlong
    have hcap : Reconnect.maxWsFramesPerTick < Reconnect.storeMaxlen := by decide
    rw [Newest.rtake_of_le (by omega), Newest.rtake_of_le (by omega)]

variable {ops : FloatOps} {format : String → Nat → Option String} {dumps : FrameDict → String}
  {s : LivePage} {first last : Nat}

/-- The frames handed on from `first` to `last`. -/
def handedOn (s : LivePage) (first last : Nat) : List EnrichedFrame :=
  (s.server.loop.emitted.take last).drop first

/-- The page shows the frames handed on from `first` to `last`, the number of those handed on at the
last update. -/
structure Follows (dumps : FrameDict → String) (s : LivePage) (first last : Nat) : Prop where
  fed : Server.Fed dumps s.server
  first_le : first ≤ last
  last_le : last ≤ s.server.loop.emitted.length
  shows : s.view.Shows ((s.handedOn first last).map EnrichedFrame.toDict)
  counted : last - first ≤ s.view.page.totalFrames
  conn : ∀ lastTotal ∈ s.lastTotal,
    (0 < lastTotal ∧ lastTotal = last) ∨ (lastTotal = 0 ∧ s.view.page.totalFrames = 0)

theorem Follows.store (h : Follows dumps s first last) :
    s.server.frameStore.total = s.server.loop.emitted.length := by
  rw [h.fed.frameStore]
  exact (store_of_appends s.server.loop.emitted).2

theorem page_renderTable (v : PageView) : v.renderTable.page = v.page := by
  rw [PageView.renderTable]
  split <;> rfl

theorem totalFrames_update (v : PageView) (frames : List FrameDict) :
    (v.update frames).page.totalFrames = v.page.totalFrames + frames.length := by
  rw [PageView.update]
  split_ifs with hempty
  · rw [List.isEmpty_iff.mp hempty, List.length_nil, Nat.add_zero]
  · dsimp only
    split_ifs
    · exact DashboardPage.totalFrames_ingestFrames _ _
    · rw [page_renderTable]
      exact DashboardPage.totalFrames_ingestFrames _ _

theorem totalFrames_control (v : PageView) (c : PageView.Control) :
    (v.control c).page.totalFrames = v.page.totalFrames := by
  cases c with
  | pause =>
    rw [PageView.control]
    dsimp only
    split_ifs
    · rfl
    · rw [page_renderTable]
  | clear => rfl
  | filter text =>
    rw [PageView.control, page_renderTable]

theorem follows_server (h : Follows dumps s first last) (a : Server.Act) :
    Follows dumps { s with server := s.server.step ops format dumps a } first last := by
  obtain ⟨new, hsince⟩ := Server.since_run ops format dumps h.fed.behav [a]
  have hemitted : (s.server.step ops format dumps a).loop.emitted =
      s.server.loop.emitted ++ new := hsince.emitted
  refine ⟨Server.fed_step ops format h.fed a, h.first_le, ?_, ?_, h.counted, h.conn⟩
  · dsimp only
    rw [hemitted, List.length_append]
    exact h.last_le.trans (Nat.le_add_right _ _)
  · rw [handedOn]
    dsimp only
    rw [hemitted, List.take_append_of_le_length h.last_le]
    exact h.shows

theorem follows_control (h : Follows dumps s first last) (c : PageView.Control) :
    ∃ first', Follows dumps { s with view := s.view.control c } first' last := by
  have hshows := PageView.shows_control h.shows c
  have hcount := totalFrames_control s.view c
  have hconn : ∀ lastTotal ∈ s.lastTotal, (0 < lastTotal ∧ lastTotal = last) ∨
      (lastTotal = 0 ∧ (s.view.control c).page.totalFrames = 0) := by
    rw [hcount]
    exact h.conn
  cases c with
  | clear =>
    refine ⟨last, h.fed, le_rfl, h.last_le, ?_, by rw [Nat.sub_self]; exact Nat.zero_le _, hconn⟩
    have hnil : { s with view := s.view.control .clear }.handedOn last last = [] := by
      rw [handedOn, List.drop_eq_nil_iff, List.length_take]
      exact Nat.min_le_left _ _
    rw [hnil]
    exact hshows
  | pause => exact ⟨first, h.fed, h.first_le, h.last_le, hshows, hcount ▸ h.counted, hconn⟩
  | filter text => exact ⟨first, h.fed, h.first_le, h.last_le, hshows, hcount ▸ h.counted, hconn⟩

theorem handedOn_update (h : Follows dumps s first last) {lastTotal : Nat}
    (hconn : s.lastTotal = some lastTotal)
    (hroom : 0 < lastTotal →
      s.server.frameStore.total ≤ lastTotal + Reconnect.maxWsFramesPerTick) :
    ∃ first' ≤ s.server.loop.emitted.length,
      s.handedOn first last ++
          (s.server.loop.emitted.drop lastTotal).rtake Reconnect.maxWsFramesPerTick =
        s.handedOn first' s.server.loop.emitted.length := by
  have hfirst := h.first_le
  have hlast := h.last_le
  rw [h.store] at hroom
  obtain ⟨hpos, rfl⟩ | ⟨rfl, hfresh⟩ := h.conn lastTotal hconn
  · refine ⟨first, hfirst.trans hlast, ?_⟩
    rw [Newest.rtake_of_le (by rw [List.length_drop]; have := hroom hpos; omega), handedOn,
      handedOn, List.take_length, ← List.drop_append_of_le_length
        (by rw [List.length_take]; omega), List.take_append_drop]
  · have hcounted := h.counted
    refine ⟨s.server.loop.emitted.length - Reconnect.maxWsFramesPerTick, Nat.sub_le _ _, ?_⟩
    have hnil : s.handedOn first last = [] := by
      rw [handedOn, List.drop_eq_nil_iff, List.length_take]
      omega
    rw [hnil, handedOn, List.take_length, List.drop_zero]
    rfl

theorem follows_tick (h : Follows dumps s first last) {lastTotal : Nat}
    (hconn : s.lastTotal = some lastTotal)
    (hroom : 0 < lastTotal →
      s.server.frameStore.total ≤ lastTotal + Reconnect.maxWsFramesPerTick) (now monotonic : ℚ) :
    ∃ first' last', Follows dumps (s.tick ops format dumps lastTotal now monotonic) first' last' := by
  rw [tick]
  cases hload : s.server.busLoad.current with
  | none => exact ⟨first, last, h.fed, h.first_le, h.last_le, h.shows, h.counted, nofun⟩
  | some load =>
    have hle : lastTotal ≤ s.server.loop.emitted.length := by
      obtain ⟨-, rfl⟩ | ⟨rfl, -⟩ := h.conn lastTotal hconn
      · exact h.last_le
      · exact Nat.zero_le _
    have hnew : newFrames s.server.frameStore lastTotal =
        ((s.server.loop.emitted.drop lastTotal).rtake Reconnect.maxWsFramesPerTick,
          s.server.loop.emitted.length) := by
      rw [h.fed.frameStore]
      exact newFrames_eq s.server.loop.emitted hle
    obtain ⟨first', hfirst', hadds⟩ := handedOn_update h hconn hroom
    have hsame : (s.server.step ops format dumps (.update now monotonic)).loop = s.server.loop := by
      rw [Server.step, Server.update, hload]
    have hshows := PageView.shows_update h.shows
      (((s.server.loop.emitted.drop lastTotal).rtake Reconnect.maxWsFramesPerTick).map
        EnrichedFrame.toDict)
    rw [← List.map_append, hadds] at hshows
    dsimp only
    rw [hnew]
    refine ⟨first', s.server.loop.emitted.length,
      Server.fed_step ops format h.fed (.update now monotonic), hfirst', ?_, ?_, ?_, ?_⟩
    · dsimp only
      rw [hsame]
    · rw [handedOn]
      dsimp only
      rw [hsame]
      exact hshows
    · have hlen := congrArg List.length hadds
      have hbefore := h.counted
      simp only [handedOn, List.length_append, List.length_drop, List.length_take] at hlen
      dsimp only
      rw [totalFrames_update, List.length_map]
      omega
    · intro lastTotal' hsome
      cases hsome
      by_cases hempty : s.server.loop.emitted.length = 0
      · obtain ⟨hpos, rfl⟩ | ⟨-, hfresh⟩ := h.conn lastTotal hconn
        · omega
        · refine .inr ⟨hempty, ?_⟩
          dsimp only
          rw [totalFrames_update, hfresh, List.length_eq_zero_iff.mp hempty, List.drop_nil]
          rfl
      · exact .inl ⟨by dsimp only; omega, rfl⟩

theorem follows_step (h : Follows dumps s first last) {a : Act} (hsteady : Steady s a) :
    ∃ first' last', Follows dumps (s.step ops format dumps a) first' last' := by
  cases a with
  | server a => exact ⟨first, last, follows_server h a⟩
  | connect =>
    refine ⟨first, last, h.fed, h.first_le, h.last_le, h.shows, h.counted, ?_⟩
    intro lastTotal hsome
    cases hsome
    exact .inr ⟨rfl, hsteady⟩
  | disconnect => exact ⟨first, last, h.fed, h.first_le, h.last_le, h.shows, h.counted, nofun⟩
  | control c =>
    obtain ⟨first', hnext⟩ := follows_control h c
    exact ⟨first', last, hnext⟩
  | tick now monotonic =>
    rw [step]
    cases hconn : s.lastTotal with
    | none => exact ⟨first, last, h⟩
    | some lastTotal => exact follows_tick h hconn (hsteady lastTotal hconn) now monotonic

theorem follows_run (h : Follows dumps s first last) {acts : List Act}
    (hsteady : Trace.AllSteps (step ops format dumps) Steady s acts) :
    ∃ first' last', Follows dumps (s.run ops format dumps acts) first' last' := by
  induction acts generalizing s first last with
  | nil => exact ⟨first, last, h⟩
  | cons a acts ih =>
    obtain ⟨first', last', hnext⟩ := follows_step h hsteady.1
    exact ih hnext hsteady.2

end LivePage
end CanSniffer
