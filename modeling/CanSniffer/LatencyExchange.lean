import CanSniffer.LatencySamples

namespace CanSniffer

open Library Library.PyJson Library.Exchange Models LatencyMonitor

variable {format : String → Nat → Option String}

def Requested (format : String → Nat → Option String) (pairs : List Pair) (key : DictKey)
    (arbId : Nat) : Prop :=
  ∃ p ∈ reached format pairs arbId, p.reaction format arbId = .request key

instance (pairs : List Pair) (key : DictKey) (arbId : Nat) :
    Decidable (Requested format pairs key arbId) :=
  inferInstanceAs (Decidable (∃ p ∈ reached format pairs arbId, _))

def responder (format : String → Nat → Option String) (pairs : List Pair) (key : DictKey)
    (arbId : Nat) : Option Pair :=
  (reached format pairs arbId).find? fun p => p.reaction format arbId = .response key

def Separate (format : String → Nat → Option String) (pairs : List Pair) (key : DictKey) : Prop :=
  ∀ arbId, Requested format pairs key arbId → responder format pairs key arbId = none

/-- All pairs together, seen from one key. -/
def kindOf (format : String → Nat → Option String) (pairs : List Pair) (key : DictKey)
    (frame : EnrichedFrame) : Kind :=
  if Requested format pairs key frame.arbId then .request
  else if (responder format pairs key frame.arbId).isSome then .reply
  else .other

/-- The frame leaves a request that was sent at the other frame pending. -/
def keeps (format : String → Nat → Option String) (pairs : List Pair)
    (sent frame : EnrichedFrame) : Bool :=
  (pairs.any fun p => p.reaction format frame.arbId = .raises) ||
    Binary64.sub frame.kernelTs 1 ≤ sent.kernelTs

def sampleOf (format : String → Nat → Option String) (pairs : List Pair) (key : DictKey)
    (x : (Nat × EnrichedFrame) × (Nat × EnrichedFrame)) : Option Sample :=
  (responder format pairs key x.2.2.arbId).map fun p =>
    ⟨p, key, x.1.1, x.2.1, latencyUs x.2.2.kernelTs x.1.2.kernelTs⟩

structure Refines (format : String → Nat → Option String) (pairs : List Pair) (key : DictKey)
    (c : LatencyRecord) (x : Exchange.State EnrichedFrame) : Prop where
  seen : c.seen = x.seen
  pending : c.monitor.pending key = x.pending.map fun r => r.2.kernelTs
  origin : ∀ r, x.pending = some r → c.origin key = r.1
  samples : c.samplesOf key = x.matched.filterMap (sampleOf format pairs key)

namespace LatencyRecord

variable {frame : EnrichedFrame} {c : LatencyRecord} {key : DictKey}

theorem noteAll_response (pairs : List Pair)
    (hreq : ∀ p ∈ pairs, p.reaction format frame.arbId ≠ .request key) :
    let first := pairs.find? fun p => p.reaction format frame.arbId = .response key
    (c.noteAll format frame pairs).monitor.pending key =
        (if first.isSome then none else c.monitor.pending key) ∧
      (c.noteAll format frame pairs).origin key = c.origin key ∧
      (c.noteAll format frame pairs).samplesOf key = c.samplesOf key ++
        (first.bind fun p => (c.monitor.pending key).map fun sent =>
          (⟨p, key, c.origin key, c.seen, latencyUs frame.kernelTs sent⟩ : Sample)).toList := by
  induction pairs generalizing c with
  | nil => simp [noteAll]
  | cons p ps ih =>
    obtain ⟨hpend, horigin, hsamples⟩ :=
      ih (c := c.note format frame p) fun q hq => hreq q (List.mem_cons_of_mem p hq)
    rw [noteAll, List.foldl_cons, ← noteAll, hpend, horigin, hsamples]
    by_cases hp : p.reaction format frame.arbId = .response key
    · obtain ⟨hpend', horigin', hsamples'⟩ := note_response (c := c) hp
      rw [hpend', horigin', hsamples', List.find?_cons_of_pos (by simpa using hp)]
      simp
    · obtain ⟨hpend', horigin', hsamples'⟩ :=
        note_other (c := c) (hreq p List.mem_cons_self) hp
      rw [hpend', horigin', hsamples', List.find?_cons_of_neg (by simpa using hp)]
      exact ⟨rfl, rfl, rfl⟩

theorem noteAll_request (pairs : List Pair)
    (hresp : ∀ p ∈ pairs, p.reaction format frame.arbId ≠ .response key) :
    (c.noteAll format frame pairs).monitor.pending key =
        (if ∃ p ∈ pairs, p.reaction format frame.arbId = .request key then some frame.kernelTs
          else c.monitor.pending key) ∧
      (c.noteAll format frame pairs).origin key =
        (if ∃ p ∈ pairs, p.reaction format frame.arbId = .request key then c.seen
          else c.origin key) ∧
      (c.noteAll format frame pairs).samplesOf key = c.samplesOf key := by
  induction pairs generalizing c with
  | nil => simp [noteAll]
  | cons p ps ih =>
    obtain ⟨hpend, horigin, hsamples⟩ :=
      ih (c := c.note format frame p) fun q hq => hresp q (List.mem_cons_of_mem p hq)
    rw [noteAll, List.foldl_cons, ← noteAll, hpend, horigin, hsamples]
    by_cases hp : p.reaction format frame.arbId = .request key
    · obtain ⟨hpend', horigin', hsamples'⟩ := note_request (c := c) hp
      rw [hpend', horigin', hsamples']
      simp [hp, note]
    · obtain ⟨hpend', horigin', hsamples'⟩ :=
        note_other (c := c) hp (hresp p List.mem_cons_self)
      rw [hpend', horigin', hsamples']
      simp [hp, note]

theorem pending_ingest :
    (c.ingest format frame).monitor.pending key =
      ((c.noteAll format frame
        (reached format c.monitor.pairs frame.arbId)).monitor.pending key).filter fun sent =>
          (c.monitor.pairs.any fun p => p.reaction format frame.arbId = .raises) ||
            Binary64.sub frame.kernelTs 1 ≤ sent := by
  rw [ingest, pending_ingest_fst, reactAll_monitor]

theorem noteAll_refines {x : Exchange.State EnrichedFrame}
    (hsep : Separate format c.monitor.pairs key) (h : Refines format c.monitor.pairs key c x)
    (frame : EnrichedFrame) :
    let c' := c.noteAll format frame (reached format c.monitor.pairs frame.arbId)
    let after := match kindOf format c.monitor.pairs key frame with
      | .request => some (x.seen, frame)
      | .reply => none
      | .other => x.pending
    c'.monitor.pending key = after.map (fun r => r.2.kernelTs) ∧
      (∀ r, after = some r → c'.origin key = r.1) ∧
      c'.samplesOf key =
        (Exchange.step (kindOf format c.monitor.pairs key) (keeps format c.monitor.pairs) x
          frame).matched.filterMap (sampleOf format c.monitor.pairs key) := by
  by_cases hreq : Requested format c.monitor.pairs key frame.arbId
  · have hresp : ∀ p ∈ reached format c.monitor.pairs frame.arbId,
        p.reaction format frame.arbId ≠ .response key := fun p hp hr => by
      simpa [hr] using List.find?_eq_none.mp (hsep frame.arbId hreq) p hp
    obtain ⟨hpend, horigin, hsamples⟩ := noteAll_request (c := c) _ hresp
    have hkind : kindOf format c.monitor.pairs key frame = .request := if_pos hreq
    rw [Requested] at hreq
    rw [if_pos hreq] at hpend horigin
    refine ⟨by rw [hpend, hkind]; rfl, fun r hr => ?_, ?_⟩
    · rw [hkind] at hr
      cases hr
      rw [horigin, h.seen]
    · rw [hsamples, h.samples, step, hkind]
  · have hnone : ∀ p ∈ reached format c.monitor.pairs frame.arbId,
        p.reaction format frame.arbId ≠ .request key := fun p hp hr => hreq ⟨p, hp, hr⟩
    obtain ⟨hpend, horigin, hsamples⟩ := noteAll_response (c := c) _ hnone
    rw [← responder] at hpend hsamples
    cases hfirst : responder format c.monitor.pairs key frame.arbId with
    | none =>
      have hkind : kindOf format c.monitor.pairs key frame = .other := by
        simp [kindOf, hreq, hfirst]
      rw [hfirst] at hpend hsamples
      refine ⟨by rw [hpend, hkind]; exact h.pending, fun r hr => ?_, ?_⟩
      · rw [hkind] at hr
        rw [horigin, h.origin r hr]
      · rw [hsamples, h.samples, step, hkind]
        simp
    | some p =>
      have hkind : kindOf format c.monitor.pairs key frame = .reply := by
        simp [kindOf, hreq, hfirst]
      rw [hfirst] at hpend hsamples
      refine ⟨by rw [hpend, hkind]; rfl, fun r hr => ?_, ?_⟩
      · rw [hkind] at hr
        cases hr
      · rw [hsamples, h.samples, step, hkind, h.pending, h.seen]
        cases hx : x.pending with
        | none => simp
        | some r => simp [sampleOf, hfirst, h.origin r hx]

/-- One frame is one step of the exchange. -/
theorem ingest_refines {x : Exchange.State EnrichedFrame}
    (hsep : Separate format c.monitor.pairs key) (h : Refines format c.monitor.pairs key c x)
    (frame : EnrichedFrame) :
    Refines format c.monitor.pairs key (c.ingest format frame)
      (Exchange.step (kindOf format c.monitor.pairs key) (keeps format c.monitor.pairs) x frame) := by
  obtain ⟨hpend, horigin, hsamples⟩ := noteAll_refines hsep h frame
  refine ⟨congrArg (· + 1) h.seen, ?_, fun r hr => ?_, hsamples⟩
  · rw [pending_ingest, hpend, Option.filter_map]
    rfl
  · exact horigin r (Option.filter_eq_some_iff.mp hr).1

theorem run_refines {m : LatencyMonitor} (hsep : Separate format m.pairs key)
    (hpending : m.pending key = none) (frames : List EnrichedFrame) :
    Refines format m.pairs key (run format m frames)
      (Exchange.run (kindOf format m.pairs key) (keeps format m.pairs) frames) := by
  induction frames using List.reverseRecOn with
  | nil => exact ⟨rfl, hpending, nofun, rfl⟩
  | append_singleton frames frame ih =>
    rw [run_snoc, Exchange.run_snoc]
    have hpairs := @pairs_run format m frames
    have h := ingest_refines (c := run format m frames) (by rwa [hpairs]) (by rwa [hpairs]) frame
    rwa [hpairs] at h

end LatencyRecord
end CanSniffer
