import CanSniffer.DashboardPage
import CanSniffer.FrameStore
import CanSniffer.Library.Trace

namespace CanSniffer.Reconnect

open Library Library.Newest Library.Trace Models

/-- A frame object of the store, by the number of frames appended before it. -/
structure Numbered where
  number : Nat
  frame : EnrichedFrame
  deriving DecidableEq

def storeMaxlen : Nat := 1000

def maxWsFramesPerTick : Nat := 100

/-- The frames of one update of `ws_endpoint`, and its new `last_total`. -/
def wsUpdate (store : FrameStore Numbered storeMaxlen) (lastTotal : Nat) : List Numbered × Nat :=
  let (newObjs, lastTotal) := store.since lastTotal
  (if newObjs.length > maxWsFramesPerTick then newObjs.rtake maxWsFramesPerTick else newObjs,
    lastTotal)

/-- The server, the one page, the `last_total` of its connection, if there is one, the numbers of
the frames passed to `ingestFrame`, and the total of the store at the last update. -/
structure System where
  store : FrameStore Numbered storeMaxlen := FrameStore.init
  conn : Option Nat := none
  page : DashboardPage := {}
  passed : List Nat := []
  shown : Nat := 0

/-- An update that is lost with its connection changes nothing on the page, and the `last_total`
that it sets is lost too, so it is not a step. -/
inductive Act
  | append (frame : EnrichedFrame)
  | connect
  | tick
  | disconnect
  deriving DecidableEq

def step (s : System) : Act → System
  | .append frame => { s with store := s.store.append ⟨s.store.total, frame⟩ }
  | .connect => { s with conn := some 0 }
  | .tick =>
    match s.conn with
    | some lastTotal =>
      let (newFrames, lastTotal) := wsUpdate s.store lastTotal
      { s with
        conn := some lastTotal
        page := (newFrames.map (·.frame.toDict)).foldl DashboardPage.ingestFrame s.page
        passed := s.passed ++ newFrames.map (·.number)
        shown := lastTotal }
    | none => s
  | .disconnect => { s with conn := none }

def run (acts : List Act) : System := acts.foldl step {}

/-- No frame was passed twice, and the page counts each frame passed once. -/
def CountedOnce (s : System) : Prop :=
  s.passed.Nodup ∧ s.page.totalFrames = s.passed.toFinset.card

instance (s : System) : Decidable (CountedOnce s) := inferInstanceAs (Decidable (_ ∧ _))

/-- The first update of a connection finds the page empty, or a full update of frames newer than
what the page has. -/
def Fresh (s : System) : Act → Prop
  | .tick => s.conn = some 0 → s.shown = 0 ∨ s.shown + maxWsFramesPerTick ≤ s.store.total
  | .append _ | .connect | .disconnect => True

theorem run_snoc (acts : List Act) (a : Act) : run (acts ++ [a]) = step (run acts) a := by
  rw [run, List.foldl_append]
  rfl

def firstNew (total lastTotal : Nat) : Nat := max lastTotal (total - maxWsFramesPerTick)

/-- The numbers in the store are those of the newest frames, and what the page has ends with the
newest frame of the last update. -/
structure Tracks (s : System) : Prop where
  newest : ∃ log : List Numbered, log.map (·.number) = List.range s.store.total ∧
    s.store.frames.items = log.rtake storeMaxlen
  shown_le : s.shown ≤ s.store.total
  passed_lt : ∀ n ∈ s.passed, n < s.shown
  last : 0 < s.shown → s.shown - 1 ∈ s.passed
  conn : ∀ lastTotal ∈ s.conn, lastTotal = 0 ∨ lastTotal = s.shown
  counted : s.page.totalFrames = s.passed.length

theorem range_rtake (total pos n : Nat) :
    ((List.range total).drop pos).rtake n =
      List.range' (max pos (total - n)) (total - max pos (total - n)) := by
  rw [List.rtake, List.drop_drop, List.length_drop, List.length_range, List.range_eq_range',
    List.drop_range', show pos + (total - pos - n) = max pos (total - n) by omega]
  simp

theorem wsUpdate_eq (store : FrameStore Numbered storeMaxlen) (lastTotal : Nat) :
    wsUpdate store lastTotal =
      ((store.frames.items.rtake (store.total - lastTotal)).rtake maxWsFramesPerTick,
        store.total) := by
  rw [wsUpdate, FrameStore.since_eq, Int.toNat_sub]
  dsimp only
  split_ifs with hlong
  · rfl
  · rw [rtake_of_le (not_lt.mp hlong)]

theorem wsUpdate_numbers {s : System} (h : Tracks s) {lastTotal : Nat}
    (hle : lastTotal ≤ s.store.total) :
    (wsUpdate s.store lastTotal).1.map (·.number) =
      List.range' (firstNew s.store.total lastTotal)
        (s.store.total - firstNew s.store.total lastTotal) := by
  obtain ⟨log, hnumbers, hitems⟩ := h.newest
  have htotal : s.store.total = log.length := by
    simpa using (congrArg List.length hnumbers).symm
  have hunread : s.store.frames.items.rtake (s.store.total - lastTotal) =
      (log.drop lastTotal).rtake storeMaxlen := by
    rw [hitems, htotal]
    exact rtake_rtake_drop (htotal ▸ hle) storeMaxlen
  rw [wsUpdate_eq, hunread, rtake_rtake _ (by decide), firstNew, ← range_rtake, ← hnumbers]
  simp [List.rtake, List.map_drop]

theorem newest_append {s : System} (h : Tracks s) (frame : EnrichedFrame) :
    ∃ log : List Numbered,
      log.map (·.number) = List.range (step s (.append frame)).store.total ∧
      (step s (.append frame)).store.frames.items = log.rtake storeMaxlen := by
  obtain ⟨log, hnumbers, hitems⟩ := h.newest
  have happend := Deque.items_append_rtake hitems (⟨s.store.total, frame⟩ : Numbered)
  refine ⟨_, ?_, happend⟩
  rw [List.map_append, hnumbers, List.map_singleton]
  exact List.range_succ.symm

theorem Tracks.conn_le {s : System} (h : Tracks s) {lastTotal : Nat}
    (hconn : s.conn = some lastTotal) : lastTotal ≤ s.store.total := by
  have hshown := h.shown_le
  obtain h0 | h1 := h.conn lastTotal hconn
  · omega
  · omega

theorem step_tick {s : System} (h : Tracks s) {lastTotal : Nat} (hconn : s.conn = some lastTotal) :
    let first := firstNew s.store.total lastTotal
    (step s .tick).passed = s.passed ++ List.range' first (s.store.total - first) ∧
      (step s .tick).store = s.store ∧ (step s .tick).shown = s.store.total ∧
      (step s .tick).conn = some s.store.total ∧
      (step s .tick).page.totalFrames = s.page.totalFrames + (s.store.total - first) := by
  have hnumbers := wsUpdate_numbers h (h.conn_le hconn)
  have hlen := congrArg List.length hnumbers
  rw [List.length_map, List.length_range'] at hlen
  intro first
  refine ⟨?_, ?_, ?_, ?_, ?_⟩
  · simp only [step, hconn, hnumbers, first]
  · simp only [step, hconn]
  · simp only [step, hconn, wsUpdate_eq]
  · simp only [step, hconn, wsUpdate_eq]
  · simp only [step, hconn, DashboardPage.totalFrames_ingestFrames, List.length_map, hlen, first]

theorem tracks_step {s : System} (h : Tracks s) (a : Act) : Tracks (step s a) := by
  have hle := h.shown_le
  cases a with
  | append frame =>
    have hnewest := newest_append h frame
    have hshown : s.shown ≤ (step s (.append frame)).store.total := Nat.le_succ_of_le hle
    rw [step] at hnewest hshown ⊢
    exact ⟨hnewest, hshown, h.passed_lt, h.last, h.conn, h.counted⟩
  | connect => exact ⟨h.newest, hle, h.passed_lt, h.last, by simp [step], h.counted⟩
  | disconnect => exact ⟨h.newest, hle, h.passed_lt, h.last, by simp [step], h.counted⟩
  | tick =>
    cases hconn : s.conn with
    | none => simpa only [step, hconn] using h
    | some lastTotal =>
      obtain ⟨hpassed, hstore, hshown, hconn', hcount⟩ := step_tick h hconn
      have hconn_le := h.conn_le hconn
      have hfirst : firstNew s.store.total lastTotal ≤ s.store.total := by
        rw [firstNew]
        omega
      refine ⟨?_, ?_, ?_, ?_, ?_, ?_⟩
      · rw [hstore]
        exact h.newest
      · rw [hstore, hshown]
      · intro n hn
        rw [hpassed, List.mem_append, List.mem_range'_1] at hn
        rw [hshown]
        obtain hold | hnew := hn
        · exact (h.passed_lt n hold).trans_le hle
        · omega
      · intro hpos
        rw [hshown] at hpos ⊢
        rw [hpassed, List.mem_append, List.mem_range'_1]
        by_cases hnew : firstNew s.store.total lastTotal = s.store.total
        · -- nothing new: the newest frame came with an earlier update
          have hsame : s.shown = s.store.total := by
            rw [firstNew, maxWsFramesPerTick] at hnew
            obtain h0 | h1 := h.conn lastTotal hconn <;> omega
          exact .inl (hsame ▸ h.last (by omega))
        · exact .inr (by omega)
      · rw [hconn', hshown]
        simp
      · rw [hcount, hpassed, h.counted, List.length_append, List.length_range']

theorem tracks_run (acts : List Act) : Tracks (run acts) := by
  induction acts using List.reverseRecOn with
  | nil => exact ⟨⟨[], rfl, rfl⟩, le_rfl, by simp [run], by simp [run], by simp [run], rfl⟩
  | append_singleton acts a ih =>
    rw [run_snoc]
    exact tracks_step ih a

theorem nodup_step_iff {s : System} (h : Tracks s) (hnodup : s.passed.Nodup) (a : Act) :
    (step s a).passed.Nodup ↔ Fresh s a := by
  cases a with
  | append frame => simpa [step, Fresh] using hnodup
  | connect => simpa [step, Fresh] using hnodup
  | disconnect => simpa [step, Fresh] using hnodup
  | tick =>
    cases hconn : s.conn with
    | none => simp [step, Fresh, hconn, hnodup]
    | some lastTotal =>
      have hle := h.shown_le
      have hlast := h.conn lastTotal hconn
      rw [(step_tick h hconn).1, List.nodup_append', Fresh, hconn, firstNew]
      have hrange : ∀ a n : Nat, (List.range' a n).Nodup := fun a n => List.nodup_range'
      simp only [hnodup, hrange, true_and]
      constructor
      · intro hdisj h0
        cases h0
        by_contra hnot
        rw [not_or, not_le] at hnot
        apply hdisj (h.last (by omega))
        rw [List.mem_range'_1]
        omega
      · intro hfresh n hold hnew
        have hlt := h.passed_lt n hold
        rw [List.mem_range'_1] at hnew
        obtain h0 | h1 := hlast
        · obtain hz | hfull := hfresh (by rw [h0])
          · omega
          · omega
        · omega

theorem passed_keeps (s : System) (a : Act) : s.passed <+: (step s a).passed := by
  cases a with
  | tick =>
    rw [step]
    split
    · exact List.prefix_append _ _
    · exact List.prefix_rfl
  | append frame => simp [step]
  | connect => simp [step]
  | disconnect => simp [step]

/-- The page counts each frame once exactly in the runs in which the first update of every
connection is fresh. -/
theorem counted_once_iff (acts : List Act) :
    CountedOnce (run acts) ↔ AllSteps step Fresh ({} : System) acts := by
  have hcard : ∀ acts, CountedOnce (run acts) ↔ (run acts).passed.Nodup := by
    intro acts
    rw [CountedOnce, (tracks_run acts).counted]
    exact and_iff_left_of_imp fun h => (List.toFinset_card_of_nodup h).symm
  rw [hcard]
  induction acts using List.reverseRecOn with
  | nil => simp [run, AllSteps]
  | append_singleton acts a ih =>
    rw [allSteps_snoc, run_snoc]
    constructor
    · intro h
      have hbefore := h.sublist (passed_keeps (run acts) a).sublist
      exact ⟨ih.mp hbefore, (nodup_step_iff (tracks_run acts) hbefore a).mp h⟩
    · rintro ⟨hbefore, hfresh⟩
      exact (nodup_step_iff (tracks_run acts) (ih.mpr hbefore) a).mpr hfresh

/-- One frame, shown before and after the page reconnects. -/
theorem reconnect_counts_twice :
    ¬ CountedOnce (run [.append ⟨0x123, 0, [], false, none, 1, 0⟩, .connect, .tick, .disconnect,
      .connect, .tick]) := by
  decide +kernel

end CanSniffer.Reconnect
