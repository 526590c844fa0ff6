import CanSniffer.Library.Deque
import CanSniffer.Library.WhileLoop
import CanSniffer.Models

namespace CanSniffer

open Library Library.WhileLoop Models

inductive Exit
  | paired (pru : PruEvent) (msg : RawCanMessage)
  | unpaired (msg : RawCanMessage)
  | discarded (pru : PruEvent)
  | pruDropped (pru : PruEvent)
  | canDropped (msg : RawCanMessage)
  deriving DecidableEq

/-- `history` records every exit in order; no operation reads it. -/
structure Correlator where
  maxDeltaNs : Int
  pruQ : Deque PruEvent 256
  canQ : Deque RawCanMessage 256
  matched : List EnrichedFrame
  history : List Exit
  deriving DecidableEq

namespace Correlator

def init (maxDeltaNs : Int) : Correlator := ⟨maxDeltaNs, .empty, .empty, [], []⟩

def defaultMaxDeltaNs : Int := 5000000

def enrich (msg : RawCanMessage) (pruTsNs : Option Int) : EnrichedFrame :=
  { arbId := msg.arbitrationId, dlc := msg.dlc, data := msg.data, isExtended := msg.isExtendedId
    pruTsNs, kernelTs := msg.timestamp }

/-- One pass of the loop of `_try_match`. -/
def tryMatchBody (c : Correlator) : Option Correlator :=
  match c.pruQ.items, c.canQ.items with
  | pru :: _, msg :: _ =>
    let deltaNs := msg.timestampNs - pru.tFallNs
    if deltaNs < 0 then
      some { c with
        canQ := c.canQ.popleft
        matched := c.matched ++ [enrich msg none]
        history := c.history ++ [.unpaired msg] }
    else if deltaNs > c.maxDeltaNs then
      some { c with pruQ := c.pruQ.popleft, history := c.history ++ [.discarded pru] }
    else
      some { c with
        pruQ := c.pruQ.popleft
        canQ := c.canQ.popleft
        matched := c.matched ++ [enrich msg (some pru.tFallNs)]
        history := c.history ++ [.paired pru msg] }
  | _, _ => none

/-- Each pass takes at least one entry, so the fuel is never short. -/
def tryMatch (c : Correlator) : Correlator :=
  loop tryMatchBody (c.pruQ.items.length + c.canQ.items.length) c

def ingestPru (c : Correlator) (event : PruEvent) : Correlator :=
  if event.type ≠ .sof then c
  else tryMatch { c with
    pruQ := c.pruQ.append event
    history := c.history ++ (c.pruQ.dropped event).map .pruDropped }

def ingestFrame (c : Correlator) (msg : RawCanMessage) : Correlator :=
  tryMatch { c with
    canQ := c.canQ.append msg
    history := c.history ++ (c.canQ.dropped msg).map .canDropped }

/-- One pass of the stale flush of `drain_matched`. -/
def flushBody (nowNs : Int) (c : Correlator) : Option Correlator :=
  match c.canQ.items with
  | msg :: _ =>
    let ageNs := nowNs - msg.timestampNs
    if ageNs > c.maxDeltaNs then
      some { c with
        canQ := c.canQ.popleft
        matched := c.matched ++ [enrich msg none]
        history := c.history ++ [.unpaired msg] }
    else none
  | [] => none

def flush (nowNs : Int) (c : Correlator) : Correlator :=
  loop (flushBody nowNs) c.canQ.items.length c

def drainMatched (c : Correlator) (nowNs : Int) : List EnrichedFrame × Correlator :=
  let c := c.flush nowNs
  (c.matched, { c with matched := [] })

theorem tryMatchBody_cases {c d : Correlator} (h : tryMatchBody c = some d) :
    ∃ msg canRest, c.canQ.items = msg :: canRest ∧ ∃ pru pruRest, c.pruQ.items = pru :: pruRest ∧
      ((msg.timestampNs - pru.tFallNs < 0 ∧ d = { c with
          canQ := c.canQ.popleft, matched := c.matched ++ [enrich msg none]
          history := c.history ++ [.unpaired msg] }) ∨
        (¬ msg.timestampNs - pru.tFallNs < 0 ∧ msg.timestampNs - pru.tFallNs > c.maxDeltaNs ∧
          d = { c with pruQ := c.pruQ.popleft, history := c.history ++ [.discarded pru] }) ∨
        (¬ msg.timestampNs - pru.tFallNs < 0 ∧ ¬ msg.timestampNs - pru.tFallNs > c.maxDeltaNs ∧
          d = { c with
            pruQ := c.pruQ.popleft, canQ := c.canQ.popleft
            matched := c.matched ++ [enrich msg (some pru.tFallNs)]
            history := c.history ++ [.paired pru msg] })) := by
  rw [tryMatchBody] at h
  split at h
  · rename_i pru pruRest msg canRest hpru hcan
    refine ⟨msg, canRest, hcan, pru, pruRest, hpru, ?_⟩
    dsimp only at h
    split_ifs at h with h0 h1 <;> cases h
    · exact .inl ⟨h0, rfl⟩
    · exact .inr (.inl ⟨h0, h1, rfl⟩)
    · exact .inr (.inr ⟨h0, h1, rfl⟩)
  · cases h

theorem flushBody_cases {nowNs : Int} {c d : Correlator} (h : flushBody nowNs c = some d) :
    ∃ msg canRest, c.canQ.items = msg :: canRest ∧ nowNs - msg.timestampNs > c.maxDeltaNs ∧
      d = { c with
        canQ := c.canQ.popleft, matched := c.matched ++ [enrich msg none]
        history := c.history ++ [.unpaired msg] } := by
  rw [flushBody] at h
  split at h
  · rename_i msg canRest hcan
    dsimp only at h
    split_ifs at h with hold
    cases h
    exact ⟨msg, canRest, hcan, hold, rfl⟩
  · cases h

theorem tryMatchBody_eq_none {c : Correlator} :
    tryMatchBody c = none ↔ c.pruQ.items = [] ∨ c.canQ.items = [] := by
  rw [tryMatchBody]
  split
  · rename_i hpru hcan
    dsimp only
    split_ifs <;> simp [hpru, hcan]
  · rename_i hnot
    refine ⟨fun _ => ?_, fun _ => rfl⟩
    by_contra hne
    rw [not_or] at hne
    obtain ⟨pru, pruRest, hpru⟩ := List.exists_cons_of_ne_nil hne.1
    obtain ⟨msg, canRest, hcan⟩ := List.exists_cons_of_ne_nil hne.2
    exact hnot pru pruRest msg canRest hpru hcan

/-- The matching loop ends by its own condition: one of the queues is empty. -/
theorem tryMatch_exhausts (c : Correlator) :
    (tryMatch c).pruQ.items = [] ∨ (tryMatch c).canQ.items = [] := by
  refine tryMatchBody_eq_none.mp (loop_exits
    (fun c : Correlator => c.pruQ.items.length + c.canQ.items.length) ?_ _ le_rfl)
  intro s t h
  obtain ⟨msg, canRest, hcan, pru, pruRest, hpru, ⟨-, rfl⟩ | ⟨-, -, rfl⟩ | ⟨-, -, rfl⟩⟩ :=
    tryMatchBody_cases h
  all_goals
    simp only [Deque.items_popleft, hcan, hpru, List.tail_cons, List.length_cons]
    omega

theorem flushBody_eq_none {nowNs : Int} {c : Correlator} :
    flushBody nowNs c = none ↔
      ∀ msg ∈ c.canQ.items.head?, nowNs - msg.timestampNs ≤ c.maxDeltaNs := by
  rw [flushBody]
  split
  · rename_i hcan
    dsimp only
    split_ifs with hold
    all_goals
      simp [hcan]
      omega
  · rename_i hcan
    simp [hcan]

theorem flush_exhausts (nowNs : Int) (c : Correlator) : flushBody nowNs (c.flush nowNs) = none := by
  refine loop_exits (fun c : Correlator => c.canQ.items.length) ?_ _ le_rfl
  intro s t h
  obtain ⟨msg, canRest, hcan, -, rfl⟩ := flushBody_cases h
  simp only [Deque.items_popleft, hcan, List.tail_cons, List.length_cons]
  omega

end Correlator
end CanSniffer
