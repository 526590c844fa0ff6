import CanSniffer.Library.Deque
import CanSniffer.Models

namespace CanSniffer

open Library Models

inductive ConditionType
  | arbId | errorFrame | busLoad | manual | other (text : String)
  deriving DecidableEq, Repr

structure TriggerCondition where
  type : ConditionType
  arbId : Option Int := none
  busLoadThreshold : Option ℚ := none
  deriving DecidableEq, Repr

structure CaptureSession where
  id : String
  triggerTs : ℚ
  conditionType : ConditionType
  preFrames : List FrameDict
  postFrames : List FrameDict
  deriving DecidableEq, Repr

inductive CaptureState
  | idle | armed | collecting
  deriving DecidableEq, Repr

structure TriggerCapture (preSize postSize : Nat) where
  preBuf : Deque FrameDict preSize := Deque.empty
  postBuf : List FrameDict := []
  state : CaptureState := .idle
  cond : Option TriggerCondition := none
  captures : Deque CaptureSession 20 := Deque.empty
  pending : Option CaptureSession := none

namespace TriggerCapture

variable {preSize postSize : Nat}

def arm (s : TriggerCapture preSize postSize) (condition : TriggerCondition) :
    TriggerCapture preSize postSize :=
  { s with cond := some condition, postBuf := [], state := .armed }

def disarm (s : TriggerCapture preSize postSize) : TriggerCapture preSize postSize :=
  { s with state := .idle, cond := none, postBuf := [] }

def trigger (s : TriggerCapture preSize postSize) : TriggerCapture preSize postSize :=
  { s with state := .collecting, postBuf := [] }

def fire (s : TriggerCapture preSize postSize) : TriggerCapture preSize postSize :=
  if s.state = .armed then s.trigger else s

/-- `getattr(frame, "is_error_frame", False)`: an enriched frame has no such attribute. -/
def isErrorFrame (_ : EnrichedFrame) : Bool := false

def conditionMet (cond : TriggerCondition) (frame : EnrichedFrame) (busLoad : ℚ) : Bool :=
  match cond.type with
  | .manual => false
  | .arbId => some (frame.arbId : Int) = cond.arbId
  | .errorFrame => isErrorFrame frame
  | .busLoad =>
    match cond.busLoadThreshold with
    | some threshold => threshold ≤ busLoad
    | none => false
  | .other _ => false

/-- The session that `_save_session` builds. -/
def session (s : TriggerCapture preSize postSize) (id : String) (now : ℚ) : CaptureSession where
  id := id
  triggerTs := now
  conditionType :=
    match s.cond with
    | some cond => cond.type
    | none => .manual
  preFrames := s.preBuf.items
  postFrames := s.postBuf

/-- `id` is the start of a new UUID and `now` the value of `time.time()`. -/
def saveSession (s : TriggerCapture preSize postSize) (id : String) (now : ℚ) :
    TriggerCapture preSize postSize :=
  { s with
    captures := s.captures.append (s.session id now)
    pending := some (s.session id now)
    postBuf := []
    state := .armed }

def addPre (s : TriggerCapture preSize postSize) (fd : FrameDict) :
    TriggerCapture preSize postSize :=
  { s with preBuf := s.preBuf.append fd }

def addPost (s : TriggerCapture preSize postSize) (fd : FrameDict) :
    TriggerCapture preSize postSize :=
  { s with postBuf := s.postBuf ++ [fd] }

/-- `none` is the AttributeError of an armed capture without a condition. -/
def ingest (s : TriggerCapture preSize postSize) (frame : EnrichedFrame) (busLoad : ℚ)
    (id : String) (now : ℚ) : Option (TriggerCapture preSize postSize) :=
  let fd := frame.toDict
  match s.state with
  | .idle => some s
  | .armed =>
    let s := s.addPre fd
    s.cond.map fun cond => if conditionMet cond frame busLoad then s.trigger else s
  | .collecting =>
    let s := s.addPost fd
    some (if postSize ≤ s.postBuf.length then s.saveSession id now else s)

def popCompleted (s : TriggerCapture preSize postSize) :
    Option CaptureSession × TriggerCapture preSize postSize :=
  (s.pending, { s with pending := none })

inductive Op
  | arm (condition : TriggerCondition)
  | disarm
  | fire
  | ingest (frame : EnrichedFrame) (busLoad : ℚ) (id : String) (now : ℚ)
  | popCompleted
  deriving DecidableEq

def apply (s : TriggerCapture preSize postSize) : Op → Option (TriggerCapture preSize postSize)
  | .arm condition => some (s.arm condition)
  | .disarm => some s.disarm
  | .fire => some s.fire
  | .ingest frame busLoad id now => s.ingest frame busLoad id now
  | .popCompleted => some s.popCompleted.2

def Completes (s : TriggerCapture preSize postSize) : Prop :=
  s.state = .collecting ∧ postSize ≤ s.postBuf.length + 1

instance (s : TriggerCapture preSize postSize) : Decidable s.Completes :=
  inferInstanceAs (Decidable (_ ∧ _))

def Conditioned (s : TriggerCapture preSize postSize) : Prop := s.state ≠ .idle → s.cond.isSome

variable {s t : TriggerCapture preSize postSize}

theorem ingest_idle (h : s.state = .idle) (frame : EnrichedFrame) (busLoad : ℚ) (id : String)
    (now : ℚ) : s.ingest frame busLoad id now = some s := by
  rw [ingest, h]

theorem ingest_armed (h : s.state = .armed) {cond : TriggerCondition} (hcond : s.cond = some cond)
    (frame : EnrichedFrame) (busLoad : ℚ) (id : String) (now : ℚ) :
    s.ingest frame busLoad id now =
      some (if conditionMet cond frame busLoad then (s.addPre frame.toDict).trigger
        else s.addPre frame.toDict) := by
  simp [ingest, h, addPre, hcond]

theorem ingest_collecting (h : s.state = .collecting) (frame : EnrichedFrame) (busLoad : ℚ)
    (id : String) (now : ℚ) :
    s.ingest frame busLoad id now =
      some (if s.Completes then (s.addPost frame.toDict).saveSession id now
        else s.addPost frame.toDict) := by
  simp [ingest, h, addPost, Completes]

theorem apply_spec (h : s.Conditioned) (op : Op) : ∃ t, s.apply op = some t ∧ t.Conditioned := by
  cases op with
  | arm condition => exact ⟨_, rfl, fun _ => rfl⟩
  | disarm => exact ⟨_, rfl, fun hne => absurd rfl hne⟩
  | fire =>
    refine ⟨_, rfl, ?_⟩
    rw [fire]
    split_ifs with harmed
    · exact fun _ => h (by simp [harmed])
    · exact h
  | popCompleted => exact ⟨_, rfl, h⟩
  | ingest frame busLoad id now =>
    cases hstate : s.state with
    | idle => exact ⟨s, ingest_idle hstate _ _ _ _, h⟩
    | armed =>
      obtain ⟨cond, hcond⟩ := Option.isSome_iff_exists.mp (h (by simp [hstate]))
      refine ⟨_, ingest_armed hstate hcond _ _ _ _, fun _ => ?_⟩
      split_ifs <;> simp [addPre, trigger, hcond]
    | collecting =>
      have hcond := h (by simp [hstate])
      refine ⟨_, ingest_collecting hstate _ _ _ _, fun _ => ?_⟩
      split_ifs <;> simpa [addPost, saveSession] using hcond

end TriggerCapture
end CanSniffer
