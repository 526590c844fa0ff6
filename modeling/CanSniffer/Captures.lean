import CanSniffer.CaptureRuns
import CanSniffer.DiagLogger

namespace CanSniffer

open Library Models

namespace ConditionType

def value : ConditionType → String
  | arbId => "arb_id"
  | errorFrame => "error_frame"
  | busLoad => "bus_load"
  | manual => "manual"
  | other text => text

end ConditionType

def CaptureState.value : CaptureState → String
  | .idle => "idle"
  | .armed => "armed"
  | .collecting => "collecting"

structure CaptureSummary where
  id : String
  triggerTs : ℚ
  conditionType : String
  frameCount : Nat
  deriving DecidableEq, Repr

/-- The condition is its dictionary, in which a field that is `none` is missing. -/
structure TriggerSnapshot where
  state : String
  condition : Option TriggerCondition
  captures : List CaptureSummary
  deriving DecidableEq, Repr

namespace CaptureSession

def frameCount (cap : CaptureSession) : Nat := cap.preFrames.length + cap.postFrames.length

def summary (cap : CaptureSession) : CaptureSummary :=
  ⟨cap.id, cap.triggerTs, cap.conditionType.value, cap.frameCount⟩

/-- `dumps` is `json.dumps` of the dictionary of a frame. -/
def toDict (dumps : FrameDict → String) (cap : CaptureSession) : DiagLogger.CaptureDict where
  id := cap.id
  triggerTs := cap.triggerTs
  conditionType := cap.conditionType.value
  frameCount := cap.frameCount
  preFrames := cap.preFrames.map dumps
  postFrames := cap.postFrames.map dumps

end CaptureSession

namespace TriggerCapture

variable {preSize postSize : Nat}

def getCapture (s : TriggerCapture preSize postSize) (captureId : String) : Option CaptureSession :=
  s.captures.items.find? (·.id = captureId)

def listCaptures (s : TriggerCapture preSize postSize) : List CaptureSummary :=
  s.captures.items.reverse.map CaptureSession.summary

def snapshot (s : TriggerCapture preSize postSize) : TriggerSnapshot where
  state := s.state.value
  condition := s.cond
  captures := (s.captures.items.reverse.map CaptureSession.summary).take 5

end TriggerCapture

namespace CaptureRecord

open TriggerCapture

variable {preSize postSize : Nat} {r : CaptureRecord preSize postSize}

/-- Every session that was ever saved, the newest last. -/
def sessions (r : CaptureRecord preSize postSize) : List CaptureSession := r.saves.map Prod.snd

theorem captures_apply {op : Op} {t : TriggerCapture preSize postSize} (hcond : r.trig.Conditioned)
    (hop : r.trig.apply op = some t) :
    t.captures = ((r.savedBy op).map Prod.snd).foldl Deque.append r.trig.captures := by
  cases op with
  | arm condition => cases hop; rfl
  | disarm => cases hop; rfl
  | fire =>
    cases hop
    rw [fire]
    split_ifs <;> rfl
  | popCompleted => cases hop; rfl
  | ingest frame busLoad id now =>
    rw [apply] at hop
    cases hstate : r.trig.state with
    | idle =>
      rw [ingest_idle hstate] at hop
      cases hop
      simp [savedBy, Completes, hstate]
    | armed =>
      obtain ⟨cond, hc⟩ := Option.isSome_iff_exists.mp (hcond (by simp [hstate]))
      rw [ingest_armed hstate hc] at hop
      rw [← Option.some.inj hop]
      split_ifs <;> simp [savedBy, Completes, hstate, addPre, trigger]
    | collecting =>
      rw [ingest_collecting hstate] at hop
      rw [← Option.some.inj hop, savedBy]
      split_ifs <;> rfl

theorem captures_run (ops : List Op) :
    ∀ r ∈ run preSize postSize ops, r.trig.captures.items = r.sessions.rtake 20 := by
  refine run_invariant (I := fun r => r.trig.captures.items = r.sessions.rtake 20) rfl ?_ ops
  intro r op t hcond h hop
  have hone : (r.savedBy op).map Prod.snd = [] ∨ ∃ cap, (r.savedBy op).map Prod.snd = [cap] := by
    cases op with
    | ingest frame busLoad id now =>
      rw [savedBy]
      split_ifs
      · exact .inr ⟨_, rfl⟩
      · exact .inl rfl
    | _ => exact .inl rfl
  have hsessions : (r.after op t).sessions = r.sessions ++ (r.savedBy op).map Prod.snd := by
    rw [sessions, after, List.map_append]
    rfl
  change t.captures.items = _
  rw [captures_apply hcond hop, hsessions]
  obtain hnone | ⟨cap, hcap⟩ := hone
  · rw [hnone, List.append_nil]
    exact h
  · rw [hcap]
    exact Deque.items_append_rtake h cap

theorem find_id {caps : List CaptureSession} {cap : CaptureSession} (hmem : cap ∈ caps) :
    ∃ found, caps.find? (·.id = cap.id) = some found ∧ found.id = cap.id ∧
      ((caps.map CaptureSession.id).Nodup → found = cap) := by
  have hsome : (caps.find? fun c => c.id = cap.id).isSome :=
    List.find?_isSome.mpr ⟨cap, hmem, decide_eq_true rfl⟩
  obtain ⟨found, hfound⟩ := Option.isSome_iff_exists.mp hsome
  have hid : found.id = cap.id := by simpa using List.find?_some hfound
  refine ⟨found, hfound, hid, ?_⟩
  intro hnodup
  exact List.inj_on_of_nodup_map hnodup (List.mem_of_find?_eq_some hfound) hmem hid

/-- In every run the captures are listed from the newest on, twenty of them at the endpoint and
five in an update, and every link to one of them finds a session of its id, its own if the ids
of the last twenty are distinct. -/
theorem listed_captures_resolve (preSize postSize : Nat) (ops : List Op) :
    ∀ r ∈ run preSize postSize ops,
      r.trig.listCaptures = (r.sessions.rtake 20).reverse.map CaptureSession.summary ∧
      r.trig.snapshot.captures = (r.sessions.rtake 5).reverse.map CaptureSession.summary ∧
      ∀ cap ∈ r.sessions.rtake 20, ∃ found, r.trig.getCapture cap.id = some found ∧
        found.id = cap.id ∧
        (((r.sessions.rtake 20).map CaptureSession.id).Nodup → found = cap) := by
  intro r hr
  have hcaps := captures_run ops r hr
  refine ⟨?_, ?_, ?_⟩
  · rw [listCaptures, hcaps]
  · have hnewest : (r.sessions.rtake 20).rtake 5 = r.sessions.rtake 5 :=
      Newest.rtake_rtake _ (by norm_num)
    calc r.trig.snapshot.captures
        = ((r.sessions.rtake 20).reverse.map CaptureSession.summary).take 5 := by
          rw [snapshot, hcaps]
      _ = ((r.sessions.rtake 20).rtake 5).reverse.map CaptureSession.summary := by
          rw [← List.map_take, List.take_reverse]
          rfl
      _ = (r.sessions.rtake 5).reverse.map CaptureSession.summary := by rw [hnewest]
  · intro cap hmem
    rw [getCapture, hcaps]
    exact find_id hmem

def oneSession : List Op :=
  [.arm ⟨.manual, none, none⟩, .ingest ⟨0x601, 0, [], false, none, 1, 0⟩ 0 "a" 1, .fire,
    .ingest ⟨0x581, 0, [], false, none, 2, 0⟩ 0 "a" 2]

theorem listed_captures_resolve_oneSession : ∃ r ∈ run 1 1 oneSession,
    r.trig.listCaptures = (r.sessions.rtake 20).reverse.map CaptureSession.summary ∧
    r.trig.snapshot.captures = (r.sessions.rtake 5).reverse.map CaptureSession.summary ∧
    ∀ cap ∈ r.sessions.rtake 20, ∃ found, r.trig.getCapture cap.id = some found ∧
      found.id = cap.id ∧
      (((r.sessions.rtake 20).map CaptureSession.id).Nodup → found = cap) := by
  obtain ⟨r, hr, -⟩ := run_total 1 1 oneSession
  exact ⟨r, hr, listed_captures_resolve 1 1 oneSession r hr⟩

end CaptureRecord
end CanSniffer
