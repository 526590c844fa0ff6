import CanSniffer.Correlator
import CanSniffer.Library.Trace

namespace CanSniffer

open Library Library.WhileLoop Models

namespace Exit

def sof? : Exit → Option PruEvent
  | paired pru _ | discarded pru | pruDropped pru => some pru
  | unpaired _ | canDropped _ => none

def frame? : Exit → Option RawCanMessage
  | paired _ msg | unpaired msg | canDropped msg => some msg
  | discarded _ | pruDropped _ => none

/-- The frame as `drain_matched` will return it, unless the queue dropped it. -/
def output? : Exit → Option EnrichedFrame
  | paired pru msg => some (Correlator.enrich msg (some pru.tFallNs))
  | unpaired msg => some (Correlator.enrich msg none)
  | discarded _ | pruDropped _ | canDropped _ => none

def lost? : Exit → Option RawCanMessage
  | canDropped msg => some msg
  | paired _ _ | unpaired _ | discarded _ | pruDropped _ => none

end Exit

namespace CorrelatorRuns

open Correlator

def InWindow (maxDeltaNs : Int) (pru : PruEvent) (msg : RawCanMessage) : Prop :=
  0 ≤ msg.timestampNs - pru.tFallNs ∧ msg.timestampNs - pru.tFallNs ≤ maxDeltaNs

instance (maxDeltaNs : Int) (pru : PruEvent) (msg : RawCanMessage) :
    Decidable (InWindow maxDeltaNs pru msg) :=
  inferInstanceAs (Decidable (_ ∧ _))

/-- What the ingested SOFs and frames have become: each has left its queue in order, as
the history says, or is still in it, and the frames that were not dropped have been
returned or wait in `matched`. -/
structure Accounts (maxDeltaNs : Int) (prus : List PruEvent) (msgs : List RawCanMessage)
    (returned : List EnrichedFrame) (c : Correlator) : Prop where
  width : c.maxDeltaNs = maxDeltaNs
  sofs : c.history.filterMap Exit.sof? ++ c.pruQ.items = prus
  frames : c.history.filterMap Exit.frame? ++ c.canQ.items = msgs
  output : c.history.filterMap Exit.output? = returned ++ c.matched
  paired : ∀ pru msg, .paired pru msg ∈ c.history → InWindow maxDeltaNs pru msg

variable {maxDeltaNs : Int} {prus : List PruEvent} {msgs : List RawCanMessage}
  {returned : List EnrichedFrame} {c : Correlator}

theorem accounts_init (maxDeltaNs : Int) : Accounts maxDeltaNs [] [] [] (.init maxDeltaNs) :=
  ⟨rfl, rfl, rfl, rfl, by simp [Correlator.init]⟩

theorem filterMap_snoc {β : Type} (f : Exit → Option β) (history : List Exit) (e : Exit) :
    (history ++ [e]).filterMap f = history.filterMap f ++ (f e).toList := by
  rw [List.filterMap_append]
  cases h : f e with
  | none => simp [h]
  | some b => simp [h]

theorem accounts_exit {d : Correlator} (h : Accounts maxDeltaNs prus msgs returned c) (e : Exit)
    (hwidth : d.maxDeltaNs = c.maxDeltaNs) (hhistory : d.history = c.history ++ [e])
    (hpru : c.pruQ.items = e.sof?.toList ++ d.pruQ.items)
    (hcan : c.canQ.items = e.frame?.toList ++ d.canQ.items)
    (hmatched : d.matched = c.matched ++ e.output?.toList)
    (hpaired : ∀ pru msg, e = .paired pru msg → InWindow maxDeltaNs pru msg) :
    Accounts maxDeltaNs prus msgs returned d := by
  have hsofs := h.sofs
  have hframes := h.frames
  rw [hpru, ← List.append_assoc] at hsofs
  rw [hcan, ← List.append_assoc] at hframes
  refine ⟨hwidth.trans h.width, ?_, ?_, ?_, ?_⟩
  · rwa [hhistory, filterMap_snoc]
  · rwa [hhistory, filterMap_snoc]
  · rw [hhistory, hmatched, filterMap_snoc, h.output, List.append_assoc]
  · intro pru msg hmem
    rw [hhistory] at hmem
    obtain hold | hnew := List.mem_append.mp hmem
    · exact h.paired pru msg hold
    · exact hpaired pru msg (List.mem_singleton.mp hnew).symm

theorem accounts_tryMatchBody {d : Correlator} (h : Accounts maxDeltaNs prus msgs returned c)
    (hbody : tryMatchBody c = some d) : Accounts maxDeltaNs prus msgs returned d := by
  obtain ⟨msg, canRest, hcan, pru, pruRest, hpru, hcases⟩ := tryMatchBody_cases hbody
  obtain ⟨-, rfl⟩ | ⟨-, -, rfl⟩ | ⟨h0, h1, rfl⟩ := hcases
  · exact accounts_exit h (.unpaired msg) rfl rfl rfl (by simp [hcan, Exit.frame?]) rfl nofun
  · exact accounts_exit h (.discarded pru) rfl rfl (by simp [hpru, Exit.sof?]) rfl
      (List.append_nil _).symm nofun
  · refine accounts_exit h (.paired pru msg) rfl rfl (by simp [hpru, Exit.sof?])
      (by simp [hcan, Exit.frame?]) rfl ?_
    rintro _ _ ⟨⟩
    have hw := h.width
    exact ⟨by omega, by omega⟩

theorem accounts_tryMatch (h : Accounts maxDeltaNs prus msgs returned c) :
    Accounts maxDeltaNs prus msgs returned (tryMatch c) :=
  loop_invariant (Accounts maxDeltaNs prus msgs returned)
    (fun _ _ hbody hs => accounts_tryMatchBody hs hbody) _ h

theorem accounts_flush (h : Accounts maxDeltaNs prus msgs returned c) (nowNs : Int) :
    Accounts maxDeltaNs prus msgs returned (c.flush nowNs) := by
  refine loop_invariant (Accounts maxDeltaNs prus msgs returned) ?_ _ h
  intro s t hbody hs
  obtain ⟨msg, canRest, hcan, -, rfl⟩ := flushBody_cases hbody
  exact accounts_exit hs (.unpaired msg) rfl rfl rfl (by simp [hcan, Exit.frame?]) rfl nofun

theorem accounts_ingestPru (h : Accounts maxDeltaNs prus msgs returned c) {event : PruEvent}
    (hsof : event.type = .sof) :
    Accounts maxDeltaNs (prus ++ [event]) msgs returned (c.ingestPru event) := by
  rw [ingestPru, if_neg (not_not_intro hsof)]
  refine accounts_tryMatch ⟨h.width, ?_, ?_, ?_, ?_⟩
  · have hmap : ((c.pruQ.dropped event).map Exit.pruDropped).filterMap Exit.sof? =
        c.pruQ.dropped event := by
      simp [List.filterMap_map, Function.comp_def, Exit.sof?]
    simp only [List.filterMap_append, hmap]
    rw [List.append_assoc, Deque.dropped_append, ← List.append_assoc, h.sofs]
  · simpa [List.filterMap_append, List.filterMap_map, Function.comp_def, Exit.frame?] using h.frames
  · simpa [List.filterMap_append, List.filterMap_map, Function.comp_def, Exit.output?] using h.output
  · simpa using h.paired

theorem accounts_ingestFrame (h : Accounts maxDeltaNs prus msgs returned c) (msg : RawCanMessage) :
    Accounts maxDeltaNs prus (msgs ++ [msg]) returned (c.ingestFrame msg) := by
  refine accounts_tryMatch ⟨h.width, ?_, ?_, ?_, ?_⟩
  · simpa [List.filterMap_append, List.filterMap_map, Function.comp_def, Exit.sof?] using h.sofs
  · have hmap : ((c.canQ.dropped msg).map Exit.canDropped).filterMap Exit.frame? =
        c.canQ.dropped msg := by
      simp [List.filterMap_map, Function.comp_def, Exit.frame?]
    simp only [List.filterMap_append, hmap]
    rw [List.append_assoc, Deque.dropped_append, ← List.append_assoc, h.frames]
  · simpa [List.filterMap_append, List.filterMap_map, Function.comp_def, Exit.output?] using h.output
  · simpa using h.paired

theorem accounts_drainMatched (h : Accounts maxDeltaNs prus msgs returned c) (nowNs : Int) :
    Accounts maxDeltaNs prus msgs (returned ++ (c.drainMatched nowNs).1)
      (c.drainMatched nowNs).2 := by
  have hf := accounts_flush h nowNs
  exact ⟨hf.width, hf.sofs, hf.frames, by simpa [drainMatched] using hf.output, hf.paired⟩

inductive Op
  | ingestPru (event : PruEvent)
  | ingestFrame (msg : RawCanMessage)
  | drainMatched (nowNs : Int)
  deriving DecidableEq

/-- A correlator and everything its `drain_matched` calls have returned. -/
structure Session where
  correlator : Correlator
  emitted : List EnrichedFrame
  deriving DecidableEq

namespace Session

def init (maxDeltaNs : Int) : Session := ⟨.init maxDeltaNs, []⟩

def step (s : Session) : Op → Session
  | .ingestPru event => { s with correlator := s.correlator.ingestPru event }
  | .ingestFrame msg => { s with correlator := s.correlator.ingestFrame msg }
  | .drainMatched nowNs =>
    let (frames, correlator) := s.correlator.drainMatched nowNs
    ⟨correlator, s.emitted ++ frames⟩

def run (maxDeltaNs : Int) (ops : List Op) : Session := ops.foldl step (init maxDeltaNs)

end Session

namespace Op

def event? : Op → Option PruEvent
  | ingestPru event => some event
  | ingestFrame _ => none
  | drainMatched _ => none

def frame? : Op → Option RawCanMessage
  | ingestPru _ => none
  | ingestFrame msg => some msg
  | drainMatched _ => none

end Op

def events (ops : List Op) : List PruEvent := ops.filterMap Op.event?

def sofs (ops : List Op) : List PruEvent := (events ops).filter (·.type = .sof)

def frames (ops : List Op) : List RawCanMessage := ops.filterMap Op.frame?

section

variable (ops : List Op) (event : PruEvent) (msg : RawCanMessage) (nowNs : Int)

@[simp] theorem sofs_append (ops' : List Op) : sofs (ops ++ ops') = sofs ops ++ sofs ops' := by
  simp [sofs, events]

@[simp] theorem frames_append (ops' : List Op) :
    frames (ops ++ ops') = frames ops ++ frames ops' := by
  simp [frames]

@[simp] theorem sofs_nil : sofs [] = [] := rfl

@[simp] theorem frames_nil : frames [] = [] := rfl

theorem sofs_ingestPru {event : PruEvent} (h : event.type = .sof) :
    sofs (.ingestPru event :: ops) = event :: sofs ops := by
  simp [sofs, events, Op.event?, h]

theorem sofs_ingestPru_other {event : PruEvent} (h : event.type ≠ .sof) :
    sofs (.ingestPru event :: ops) = sofs ops := by
  simp [sofs, events, Op.event?, h]

@[simp] theorem sofs_ingestFrame : sofs (.ingestFrame msg :: ops) = sofs ops := rfl

@[simp] theorem sofs_drainMatched : sofs (.drainMatched nowNs :: ops) = sofs ops := rfl

@[simp] theorem frames_ingestPru : frames (.ingestPru event :: ops) = frames ops := rfl

@[simp] theorem frames_ingestFrame : frames (.ingestFrame msg :: ops) = msg :: frames ops := rfl

@[simp] theorem frames_drainMatched : frames (.drainMatched nowNs :: ops) = frames ops := rfl

theorem step_ingestPru (s : Session) :
    s.step (.ingestPru event) = ⟨s.correlator.ingestPru event, s.emitted⟩ := rfl

theorem step_ingestFrame (s : Session) :
    s.step (.ingestFrame msg) = ⟨s.correlator.ingestFrame msg, s.emitted⟩ := rfl

theorem step_drainMatched (s : Session) :
    s.step (.drainMatched nowNs) =
      ⟨{ s.correlator.flush nowNs with matched := [] },
        s.emitted ++ (s.correlator.flush nowNs).matched⟩ := rfl

theorem run_snoc (maxDeltaNs : Int) (op : Op) :
    Session.run maxDeltaNs (ops ++ [op]) = (Session.run maxDeltaNs ops).step op := by
  rw [Session.run, List.foldl_append]
  rfl

theorem run_accounts (maxDeltaNs : Int) :
    Accounts maxDeltaNs (sofs ops) (frames ops) (Session.run maxDeltaNs ops).emitted
      (Session.run maxDeltaNs ops).correlator := by
  induction ops using List.reverseRecOn with
  | nil => exact accounts_init maxDeltaNs
  | append_singleton ops op ih =>
    rw [run_snoc, sofs_append, frames_append]
    cases op with
    | ingestPru event =>
      by_cases hsof : event.type = .sof
      · rw [sofs_ingestPru _ hsof, frames_ingestPru, frames_nil, List.append_nil]
        exact accounts_ingestPru ih hsof
      · rw [sofs_ingestPru_other _ hsof, frames_ingestPru, sofs_nil, frames_nil, List.append_nil,
          List.append_nil, step_ingestPru, ingestPru, if_pos hsof]
        exact ih
    | ingestFrame msg =>
      rw [sofs_ingestFrame, frames_ingestFrame, sofs_nil, frames_nil, List.append_nil]
      dsimp only [step_ingestFrame]
      exact accounts_ingestFrame ih msg
    | drainMatched nowNs =>
      rw [sofs_drainMatched, frames_drainMatched, sofs_nil, frames_nil, List.append_nil,
        List.append_nil]
      exact accounts_drainMatched ih nowNs

end
end CorrelatorRuns
end CanSniffer
