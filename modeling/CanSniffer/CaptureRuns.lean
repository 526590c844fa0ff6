import CanSniffer.Library.Trace
import CanSniffer.TriggerCapture

namespace CanSniffer

open Library Library.Trace Models TriggerCapture

/-- A trigger capture with the history of its calls: the frames ingested, each with whether
the capture was armed, the number of them at the last trigger, every saved session with that
number, and every session handed out. -/
structure CaptureRecord (preSize postSize : Nat) where
  trig : TriggerCapture preSize postSize := {}
  seen : List (FrameDict × Bool) := []
  firedAt : Nat := 0
  saves : List (Nat × CaptureSession) := []
  popped : List CaptureSession := []

namespace CaptureRecord

variable {preSize postSize : Nat} (r : CaptureRecord preSize postSize)

def seenAfter : Op → List (FrameDict × Bool)
  | .ingest frame _ _ _ => r.seen ++ [(frame.toDict, decide (r.trig.state = .armed))]
  | .arm _ | .disarm | .fire | .popCompleted => r.seen

def savedBy : Op → List (Nat × CaptureSession)
  | .ingest frame _ id now =>
    if r.trig.Completes then
      [(r.firedAt, (r.trig.addPost frame.toDict).session id now)]
    else []
  | .arm _ | .disarm | .fire | .popCompleted => []

def poppedBy : Op → List CaptureSession
  | .popCompleted => r.trig.pending.toList
  | .arm _ | .disarm | .fire | .ingest _ _ _ _ => []

def after (op : Op) (t : TriggerCapture preSize postSize) : CaptureRecord preSize postSize where
  trig := t
  seen := r.seenAfter op
  firedAt :=
    if r.trig.state = .armed ∧ t.state = .collecting then (r.seenAfter op).length else r.firedAt
  saves := r.saves ++ r.savedBy op
  popped := r.popped ++ r.poppedBy op

def step (op : Op) : Option (CaptureRecord preSize postSize) := (r.trig.apply op).map (r.after op)

/-- A run of calls on a new capture, up to an exception. -/
def run (preSize postSize : Nat) (ops : List Op) : Option (CaptureRecord preSize postSize) :=
  ops.foldl (fun r op => r.bind fun r => r.step op) (some {})

theorem run_snoc (ops : List Op) (op : Op) :
    run preSize postSize (ops ++ [op]) = (run preSize postSize ops).bind fun r => r.step op := by
  rw [run, List.foldl_append]
  rfl

variable {r}

theorem run_total (preSize postSize : Nat) (ops : List Op) :
    ∃ r, run preSize postSize ops = some r ∧ r.trig.Conditioned := by
  induction ops using List.reverseRecOn with
  | nil => exact ⟨{}, rfl, fun h => absurd rfl h⟩
  | append_singleton ops op ih =>
    obtain ⟨r, hr, hcond⟩ := ih
    obtain ⟨t, ht, hcond'⟩ := apply_spec hcond op
    refine ⟨r.after op t, ?_, hcond'⟩
    rw [run_snoc, hr, Option.bind_some, step, ht, Option.map_some]

theorem run_invariant {I : CaptureRecord preSize postSize → Prop} (hinit : I {})
    (hstep : ∀ r op t, r.trig.Conditioned → I r → r.trig.apply op = some t → I (r.after op t))
    (ops : List Op) : ∀ r ∈ run preSize postSize ops, I r := by
  induction ops using List.reverseRecOn with
  | nil =>
    intro r hr
    cases hr
    exact hinit
  | append_singleton ops op ih =>
    intro r hr
    obtain ⟨r₀, hr₀, hcond⟩ := run_total preSize postSize ops
    rw [run_snoc, hr₀, Option.bind_some, step] at hr
    obtain ⟨t, ht, rfl⟩ := Option.map_eq_some_iff.mp hr
    exact hstep r₀ op t hcond (ih r₀ hr₀) ht

def emptyFrame (arbId : Nat) (kernelTs : ℚ) : EnrichedFrame :=
  { arbId, dlc := 0, data := [], isExtended := false, pruTsNs := none, kernelTs }

end CaptureRecord
end CanSniffer
