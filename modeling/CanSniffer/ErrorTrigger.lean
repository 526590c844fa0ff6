import CanSniffer.IngestLoop
import CanSniffer.TriggerCapture

namespace CanSniffer.ErrorTrigger

open Library Models

/-- `_on_can_readable` and `_ingest_loop` with the trigger that is fed at the end of the path. -/
structure TriggerPipeline where
  loop : IngestLoop
  trigger : TriggerCapture 200 200

/-- What `_trigger.ingest` reads for one frame: `_bus_load.current()`, the identifier and the time
of a session that it may save. -/
structure Reading where
  busLoad : ℚ
  id : String
  now : ℚ

namespace TriggerPipeline

/-- `_trigger.ingest` for each frame of a pass; frame `i` comes with reading `i`. -/
def ingestFrames (trigger : TriggerCapture 200 200) (readings : Nat → Reading) :
    List EnrichedFrame → Option (TriggerCapture 200 200)
  | [] => some trigger
  | frame :: frames => do
    let r := readings 0
    let trigger ← trigger.ingest frame r.busLoad r.id r.now
    ingestFrames trigger (fun i => readings (i + 1)) frames

def drained (s : TriggerPipeline) (p : Poll) : List EnrichedFrame :=
  ((p.events.foldl IngestLoop.ingestEvent s.loop).correlator.drainMatched p.nowNs).1

inductive Act
  | readable (batch : List RawCanMessage)
  | poll (p : Poll) (readings : Nat → Reading)

/-- `none` is an exception. -/
def step (s : TriggerPipeline) : Act → Option TriggerPipeline
  | .readable batch => some { s with loop := s.loop.onCanReadable batch }
  | .poll p readings => do
    let trigger ← ingestFrames s.trigger readings (s.drained p)
    pure ⟨s.loop.poll p, trigger⟩

def run (s : TriggerPipeline) (acts : List Act) : Option TriggerPipeline := acts.foldlM step s

end TriggerPipeline

open TriggerPipeline

/-- The trigger is armed with the condition `error_frame`. -/
def ArmedOnError (trigger : TriggerCapture 200 200) : Prop :=
  trigger.state = .armed ∧ ∃ cond, trigger.cond = some cond ∧ cond.type = .errorFrame

/-- After a batch with an error frame, further batches and a pass of the loop, the trigger has left
the armed state. -/
def Triggers (s : TriggerPipeline) (batch : List RawCanMessage) (more : List (List RawCanMessage))
    (p : Poll) (readings : Nat → Reading) : Prop :=
  ∃ t, s.run (.readable batch :: more.map .readable ++ [.poll p readings]) = some t ∧
    t.trigger.state ≠ .armed

theorem armed_ingest {trigger : TriggerCapture 200 200} (h : ArmedOnError trigger)
    (frame : EnrichedFrame) (r : Reading) :
    ∃ t, trigger.ingest frame r.busLoad r.id r.now = some t ∧ ArmedOnError t := by
  obtain ⟨harmed, cond, hcond, htype⟩ := h
  have hmet : TriggerCapture.conditionMet cond frame r.busLoad = false := by
    rw [TriggerCapture.conditionMet, htype]
    rfl
  have hkept : ArmedOnError (trigger.addPre frame.toDict) := by
    rw [TriggerCapture.addPre]
    exact ⟨harmed, cond, hcond, htype⟩
  refine ⟨_, ?_, hkept⟩
  rw [TriggerCapture.ingest_armed harmed hcond, hmet, if_neg Bool.false_ne_true]

theorem armed_ingestFrames (frames : List EnrichedFrame) {trigger : TriggerCapture 200 200}
    (h : ArmedOnError trigger) (readings : Nat → Reading) :
    ∃ t, ingestFrames trigger readings frames = some t ∧ ArmedOnError t := by
  induction frames generalizing trigger readings with
  | nil => exact ⟨trigger, rfl, h⟩
  | cons frame frames ih =>
    obtain ⟨t, ht, harmed⟩ := armed_ingest h frame (readings 0)
    obtain ⟨u, hu, hdone⟩ := ih harmed fun i => readings (i + 1)
    exact ⟨u, by rw [ingestFrames, ht]; exact hu, hdone⟩

theorem armed_step {s : TriggerPipeline} (h : ArmedOnError s.trigger) (a : Act) :
    ∃ t, s.step a = some t ∧ ArmedOnError t.trigger := by
  cases a with
  | readable batch => exact ⟨_, rfl, h⟩
  | poll p readings =>
    obtain ⟨t, ht, harmed⟩ := armed_ingestFrames (s.drained p) h readings
    exact ⟨⟨s.loop.poll p, t⟩, by rw [step, ht]; rfl, harmed⟩

/-- No interleaving of data frames, error frames and passes of the loop takes the trigger out of
the armed state. -/
theorem armed_run {s : TriggerPipeline} (h : ArmedOnError s.trigger) (acts : List Act) :
    ∃ t, s.run acts = some t ∧ ArmedOnError t.trigger := by
  induction acts generalizing s with
  | nil => exact ⟨s, rfl, h⟩
  | cons a acts ih =>
    obtain ⟨t, ht, harmed⟩ := armed_step h a
    obtain ⟨u, hu, hdone⟩ := ih harmed
    exact ⟨u, by rw [run, List.foldlM_cons, ht]; exact hu, hdone⟩

theorem error_frame_never_triggers (s : TriggerPipeline) (harmed : ArmedOnError s.trigger)
    (batch : List RawCanMessage) (_ : ∃ msg ∈ batch, msg.isErrorFrame)
    (more : List (List RawCanMessage)) (p : Poll) (readings : Nat → Reading) :
    ¬ Triggers s batch more p readings := by
  rintro ⟨t, hrun, hleft⟩
  obtain ⟨u, hu, hstill, -⟩ :=
    armed_run harmed (.readable batch :: more.map .readable ++ [.poll p readings])
  rw [hrun] at hu
  cases hu
  exact hleft hstill

def armedPipeline : TriggerPipeline :=
  ⟨.init Correlator.defaultMaxDeltaNs (Binary64.round (1 / 200)),
    TriggerCapture.arm {} { type := .errorFrame }⟩

def busOff : RawCanMessage := ⟨1, 0x40, 8, List.replicate 8 0, false, true⟩

theorem armedPipeline_armed : ArmedOnError armedPipeline.trigger := ⟨rfl, _, rfl, rfl⟩

theorem error_frame_never_triggers_bus_off :
    ¬ Triggers armedPipeline [busOff] [] ⟨[], 2000000000, 3⟩ fun _ => ⟨0, "", 0⟩ :=
  error_frame_never_triggers armedPipeline armedPipeline_armed [busOff]
    ⟨busOff, List.mem_singleton_self busOff, rfl⟩ [] _ _

/-- The bus goes off and the trigger stays armed. -/
theorem bus_off_leaves_armed :
    armedPipeline.trigger.state = .armed ∧ busOff.isErrorFrame ∧
      ¬ Triggers armedPipeline [busOff] [] ⟨[], 2000000000, 3⟩ fun _ => ⟨0, "", 0⟩ := by
  refine ⟨rfl, rfl, ?_⟩
  rintro ⟨t, hrun, hleft⟩
  cases hrun
  exact hleft rfl

end CanSniffer.ErrorTrigger
