import CanSniffer.Library.Deque
import CanSniffer.Library.ForLoop
import CanSniffer.LatencyPairs
import CanSniffer.Models

namespace CanSniffer

open Library Library.PyJson Library.ForLoop Models

def nodeOf (arbId : Nat) : Nat := arbId &&& 0xFF

def baseOf (arbId : Nat) : Int := (arbId - nodeOf arbId : Nat)

theorem nodeOf_eq (arbId : Nat) : nodeOf arbId = arbId % 256 := by
  rw [nodeOf, show (0xFF : Nat) = 2 ^ 8 - 1 by decide, Nat.and_two_pow_sub_one_eq_mod]

theorem nodeOf_lt (arbId : Nat) : nodeOf arbId < 256 := by
  rw [nodeOf_eq]
  exact Nat.mod_lt _ (by decide)

theorem arbId_ext {a b : Nat} (hbase : baseOf a = baseOf b) (hnode : nodeOf a = nodeOf b) :
    a = b := by
  rw [baseOf, baseOf] at hbase
  rw [nodeOf_eq, nodeOf_eq] at *
  omega

/-- `format` is the method of `str` with the argument `node_id`; only a text has it. -/
def PatternPair.labelFor (format : String → Nat → Option String) (pp : PatternPair)
    (nodeId : Nat) : Option DictKey :=
  match pp.labelTemplate with
  | .str template => (format template nodeId).map .str
  | _ => none

inductive Pair
  | explicit (ep : ExplicitPair)
  | pattern (pp : PatternPair)

/-- What a frame means to one pair: its request or its response under a label, nothing, or an
exception about the label. -/
inductive Reaction
  | request (key : DictKey)
  | response (key : DictKey)
  | nothing
  | raises
  deriving DecidableEq

namespace Pair

def isRequest : Pair → Nat → Bool
  | .explicit ep, arbId => arbId = ep.requestId
  | .pattern pp, arbId => baseOf arbId = pp.requestBase

def isResponse : Pair → Nat → Bool
  | .explicit ep, arbId => arbId = ep.responseId
  | .pattern pp, arbId => baseOf arbId = pp.responseBase

/-- The label under which the pair takes a frame; `none` when the attempt raises. -/
def label (format : String → Nat → Option String) : Pair → Nat → Option DictKey
  | .explicit ep, _ => ep.label.dictKey
  | .pattern pp, arbId => pp.labelFor format (nodeOf arbId)

def reaction (format : String → Nat → Option String) (p : Pair) (arbId : Nat) : Reaction :=
  if p.isRequest arbId then (p.label format arbId).elim .raises .request
  else if p.isResponse arbId then (p.label format arbId).elim .raises .response
  else .nothing

end Pair

structure LatencyMonitor where
  explicit : List ExplicitPair
  patterns : List PatternPair
  pending : DictKey → Option ℚ := fun _ => none
  meas : DictKey → Deque ℚ 100 := fun _ => Deque.empty

structure LatencyStats where
  count : Nat
  minUs : ℚ
  maxUs : ℚ
  meanUs : ℚ
  stdUs : ℚ
  lastUs : ℚ
  deriving DecidableEq, Repr

namespace LatencyMonitor

def setPairs (m : LatencyMonitor) (explicit : List ExplicitPair) (patterns : List PatternPair) :
    LatencyMonitor :=
  { m with explicit := explicit, patterns := patterns, pending := fun _ => none }

def pairs (m : LatencyMonitor) : List Pair := m.explicit.map .explicit ++ m.patterns.map .pattern

def latencyUs (ts sent : ℚ) : ℚ := Binary64.mul (Binary64.sub ts sent) 1000000

/-- One pass of either loop of `ingest`. -/
def react (ts : ℚ) (m : LatencyMonitor) : Reaction → Option LatencyMonitor
  | .request key => some { m with pending := Function.update m.pending key (some ts) }
  | .response key =>
    match m.pending key with
    | some sent =>
      some { m with
        pending := Function.update m.pending key none
        meas := Function.update m.meas key ((m.meas key).append (latencyUs ts sent)) }
    | none => some m
  | .nothing => some m
  | .raises => none

/-- Both loops, with whether an exception ended them. -/
def reactAll (format : String → Nat → Option String) (frame : EnrichedFrame)
    (m : LatencyMonitor) : LatencyMonitor × Bool :=
  tryFold (fun m p => m.react frame.kernelTs (p.reaction format frame.arbId)) m m.pairs

/-- Drop what is pending for more than 1 s. -/
def purge (m : LatencyMonitor) (ts : ℚ) : LatencyMonitor :=
  { m with pending := fun key => (m.pending key).filter fun sent => Binary64.sub ts 1 ≤ sent }

/-- The state after `ingest` and whether it raised. -/
def ingest (format : String → Nat → Option String) (m : LatencyMonitor) (frame : EnrichedFrame) :
    LatencyMonitor × Bool :=
  match m.reactAll format frame with
  | (m', false) => (m'.purge frame.kernelTs, false)
  | (m', true) => (m', true)

def run (format : String → Nat → Option String) (m : LatencyMonitor)
    (frames : List EnrichedFrame) : LatencyMonitor :=
  frames.foldl (fun m frame => (m.ingest format frame).1) m

def snapshot (ops : FloatOps) (m : LatencyMonitor) (key : DictKey) : Option LatencyStats :=
  let lst := (m.meas key).items
  if lst = [] then none
  else some {
    count := lst.length
    minUs := ops.roundDigits 1 (lst.min?.getD 0)
    maxUs := ops.roundDigits 1 (lst.max?.getD 0)
    meanUs := ops.roundDigits 1 (ops.mean lst)
    stdUs := ops.roundDigits 1 (ops.sqrt (ops.variance lst))
    lastUs := ops.roundDigits 1 (lst.getLastD 0) }

end LatencyMonitor

variable {format : String → Nat → Option String}

namespace Pair

theorem reaction_request_iff {p : Pair} {arbId : Nat} {key : DictKey} :
    p.reaction format arbId = .request key ↔
      p.isRequest arbId ∧ p.label format arbId = some key := by
  rw [reaction]
  cases p.isRequest arbId <;> cases p.isResponse arbId <;> cases p.label format arbId <;> simp

theorem reaction_response_iff {p : Pair} {arbId : Nat} {key : DictKey} :
    p.reaction format arbId = .response key ↔
      p.isRequest arbId = false ∧ p.isResponse arbId ∧ p.label format arbId = some key := by
  rw [reaction]
  cases p.isRequest arbId <;> cases p.isResponse arbId <;> cases p.label format arbId <;> simp

theorem reaction_raises_iff {p : Pair} {arbId : Nat} :
    p.reaction format arbId = .raises ↔
      p.label format arbId = none ∧ (p.isRequest arbId ∨ p.isResponse arbId) := by
  rw [reaction]
  cases p.isRequest arbId <;> cases p.isResponse arbId <;> cases p.label format arbId <;> simp

end Pair

namespace LatencyMonitor

variable {m : LatencyMonitor}

def applied (ts : ℚ) (m : LatencyMonitor) (r : Reaction) : LatencyMonitor := (m.react ts r).getD m

/-- The pairs that a frame of this id gets to: those in front of the first that raises. -/
def reached (format : String → Nat → Option String) (pairs : List Pair) (arbId : Nat) : List Pair :=
  pairs.takeWhile fun p => p.reaction format arbId ≠ .raises

theorem react_eq (ts : ℚ) (r : Reaction) :
    m.react ts r = if r ≠ .raises then some (m.applied ts r) else none := by
  cases r with
  | response key =>
    rw [applied, react]
    cases m.pending key <;> rfl
  | _ => rfl

theorem reactAll_eq (frame : EnrichedFrame) :
    m.reactAll format frame =
      ((reached format m.pairs frame.arbId).foldl
        (fun m p => m.applied frame.kernelTs (p.reaction format frame.arbId)) m,
        !m.pairs.all fun p => p.reaction format frame.arbId ≠ .raises) :=
  tryFold_guarded (fun m p => by simp [react_eq]) m m.pairs

theorem ingest_fst (frame : EnrichedFrame) :
    (m.ingest format frame).1 =
      if m.pairs.any fun p => p.reaction format frame.arbId = .raises
      then (m.reactAll format frame).1 else (m.reactAll format frame).1.purge frame.kernelTs := by
  have hany : (m.pairs.any fun p => p.reaction format frame.arbId = .raises) =
      (m.reactAll format frame).2 := by
    rw [reactAll_eq, List.not_all_eq_any_not]
    simp
  rw [hany, ingest]
  split
  all_goals
    rename_i heq
    rw [heq]
    rfl

theorem ingest_raises_iff (frame : EnrichedFrame) :
    (m.ingest format frame).2 = true ↔ ∃ p ∈ m.pairs, p.reaction format frame.arbId = .raises := by
  rw [ingest, reactAll_eq]
  cases hall : m.pairs.all fun p => p.reaction format frame.arbId ≠ .raises <;>
    simpa [List.all_eq] using hall

@[simp] theorem pending_applied_request (ts : ℚ) (key : DictKey) :
    (m.applied ts (.request key)).pending = Function.update m.pending key (some ts) := rfl

@[simp] theorem pending_applied_response (ts : ℚ) (key : DictKey) :
    (m.applied ts (.response key)).pending = Function.update m.pending key none := by
  rw [applied, react]
  cases h : m.pending key with
  | some sent => rfl
  | none => exact (Function.update_eq_self_iff.mpr h.symm).symm

theorem meas_applied_response (ts : ℚ) (key : DictKey) :
    (m.applied ts (.response key)).meas = match m.pending key with
      | some sent => Function.update m.meas key ((m.meas key).append (latencyUs ts sent))
      | none => m.meas := by
  rw [applied, react]
  cases m.pending key <;> rfl

theorem pending_applied_of_ne {key : DictKey} {r : Reaction} (hreq : r ≠ .request key)
    (hresp : r ≠ .response key) (ts : ℚ) : (m.applied ts r).pending key = m.pending key := by
  cases r with
  | request k =>
    have hk : key ≠ k := fun h => hreq (by rw [h])
    rw [pending_applied_request, Function.update_of_ne hk]
  | response k =>
    have hk : key ≠ k := fun h => hresp (by rw [h])
    rw [pending_applied_response, Function.update_of_ne hk]
  | _ => rfl

theorem meas_applied_of_ne {key : DictKey} {r : Reaction} (hresp : r ≠ .response key) (ts : ℚ) :
    (m.applied ts r).meas key = m.meas key := by
  cases r with
  | response k =>
    have hk : key ≠ k := fun h => hresp (by rw [h])
    rw [meas_applied_response]
    cases m.pending k with
    | some sent => exact Function.update_of_ne hk _ _
    | none => rfl
  | _ => rfl

theorem pending_purge (m : LatencyMonitor) (ts : ℚ) (key : DictKey) :
    (m.purge ts).pending key = (m.pending key).filter fun sent => Binary64.sub ts 1 ≤ sent := rfl

theorem pending_ingest_fst (m : LatencyMonitor) (frame : EnrichedFrame) (key : DictKey) :
    (m.ingest format frame).1.pending key =
      ((m.reactAll format frame).1.pending key).filter fun sent =>
        (m.pairs.any fun p => p.reaction format frame.arbId = .raises) ||
          Binary64.sub frame.kernelTs 1 ≤ sent := by
  rw [ingest_fst]
  split_ifs with hraise
  · cases (m.reactAll format frame).1.pending key with
    | none => rfl
    | some sent => rw [Option.filter_some, hraise, Bool.true_or, if_pos rfl]
  · rw [pending_purge, Bool.eq_false_of_not_eq_true hraise]
    rfl

theorem applied_pairs (ts : ℚ) (r : Reaction) : (m.applied ts r).pairs = m.pairs := by
  cases r with
  | response key =>
    rw [applied, react]
    cases m.pending key <;> rfl
  | _ => rfl

theorem reactAll_pairs (frame : EnrichedFrame) : (m.reactAll format frame).1.pairs = m.pairs := by
  rw [reactAll_eq]
  exact List.foldlRecOn (motive := fun m' : LatencyMonitor => m'.pairs = m.pairs) _ _ rfl
    fun m' ih p _ => (applied_pairs _ _).trans ih

theorem ingest_pairs (frame : EnrichedFrame) : (m.ingest format frame).1.pairs = m.pairs := by
  have h := @reactAll_pairs format m frame
  rw [ingest]
  split
  all_goals
    rename_i heq
    rw [heq] at h
    exact h

theorem run_concat (m : LatencyMonitor) (frames : List EnrichedFrame) (frame : EnrichedFrame) :
    m.run format (frames ++ [frame]) = ((m.run format frames).ingest format frame).1 := by
  rw [run, List.foldl_append]
  rfl

theorem run_pairs (frames : List EnrichedFrame) : (m.run format frames).pairs = m.pairs :=
  List.foldlRecOn (motive := fun m' : LatencyMonitor => m'.pairs = m.pairs) _ _ rfl
    fun _ ih frame _ => (ingest_pairs frame).trans ih

end LatencyMonitor
end CanSniffer
