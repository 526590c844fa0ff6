import CanSniffer.LatencySamples

namespace CanSniffer.LatencyFrames

open Library Library.PyJson Models LatencyMonitor LatencyRecord

-- What all pairs together do with one frame, seen from one key.

variable {format : String → Nat → Option String} {key : DictKey}

def reactions (format : String → Nat → Option String) (pairs : List Pair) (arbId : Nat) :
    List Reaction :=
  (reached format pairs arbId).map fun p => p.reaction format arbId

def uses (key : DictKey) (rs : List Reaction) : List Reaction :=
  rs.filter fun r => r = .request key ∨ r = .response key

/-- What is pending under the key after the reactions. -/
def pendingAfter (key : DictKey) (ts : ℚ) (pending : Option ℚ) (rs : List Reaction) : Option ℚ :=
  match (uses key rs).getLast? with
  | some r => if r = .request key then some ts else none
  | none => pending

def latencies (key : DictKey) (ts : ℚ) : Option ℚ → List Reaction → List ℚ
  | _, [] => []
  | pending, r :: rest =>
    if r = .request key then latencies key ts (some ts) rest
    else if r = .response key then
      (pending.map (latencyUs ts)).toList ++ latencies key ts none rest
    else latencies key ts pending rest

theorem pending_fold (ts : ℚ) (m : LatencyMonitor) (rs : List Reaction) :
    (rs.foldl (applied ts) m).pending key = pendingAfter key ts (m.pending key) rs := by
  induction rs using List.reverseRecOn with
  | nil => rfl
  | append_singleton rs r ih =>
    rw [List.foldl_append, List.foldl_cons, List.foldl_nil, pendingAfter, uses, List.filter_append]
    by_cases hreq : r = .request key
    · subst hreq
      rw [pending_applied_request, Function.update_self]
      simp
    · by_cases hresp : r = .response key
      · subst hresp
        rw [pending_applied_response, Function.update_self]
        simp
      · rw [pending_applied_of_ne hreq hresp, ih]
        simp [hreq, hresp, pendingAfter, uses]

theorem pending_reactAll (m : LatencyMonitor) (frame : EnrichedFrame) :
    (m.reactAll format frame).1.pending key =
      pendingAfter key frame.kernelTs (m.pending key) (reactions format m.pairs frame.arbId) := by
  rw [← pending_fold, reactAll_eq, reactions, List.foldl_map]

theorem samplesOf_noteAll (frame : EnrichedFrame) (c : LatencyRecord) (ps : List Pair) :
    ((c.noteAll format frame ps).samplesOf key).map Sample.latency =
      (c.samplesOf key).map Sample.latency ++ latencies key frame.kernelTs
        (c.monitor.pending key) (ps.map fun p => p.reaction format frame.arbId) := by
  induction ps generalizing c with
  | nil => exact (List.append_nil _).symm
  | cons p ps ih =>
    rw [noteAll, List.foldl_cons, ← noteAll, ih, List.map_cons, latencies]
    by_cases hreq : p.reaction format frame.arbId = .request key
    · obtain ⟨hpend, -, hsamples⟩ := note_request (c := c) hreq
      rw [if_pos hreq, hpend, hsamples]
    · by_cases hresp : p.reaction format frame.arbId = .response key
      · obtain ⟨hpend, -, hsamples⟩ := note_response (c := c) hresp
        rw [if_neg hreq, if_pos hresp, hpend, hsamples, List.map_append, List.append_assoc]
        cases c.monitor.pending key <;> rfl
      · obtain ⟨hpend, -, hsamples⟩ := note_other (c := c) hreq hresp
        rw [if_neg hreq, if_neg hresp, hpend, hsamples]

theorem meas_reactAll (m : LatencyMonitor) (frame : EnrichedFrame) :
    ((m.reactAll format frame).1.meas key).items =
      ((m.meas key).items ++ latencies key frame.kernelTs (m.pending key)
        (reactions format m.pairs frame.arbId)).rtake 100 := by
  have hstart : (m.meas key).items = ((m.meas key).items ++
      ((LatencyRecord.mk m 0 (fun _ => 0) []).samplesOf key).map Sample.latency).rtake 100 := by
    rw [samplesOf, List.filter_nil, List.map_nil, List.append_nil,
      Newest.rtake_of_le (m.meas key).bounded]
  have hall := @meas_noteAll format frame ⟨m, 0, fun _ => 0, []⟩ key (m.meas key)
    (reached format m.pairs frame.arbId) hstart
  rw [samplesOf_noteAll] at hall
  rw [@LatencyRecord.reactAll_monitor format frame ⟨m, 0, fun _ => 0, []⟩]
  exact hall

/-- Only the first use of the key meets what was pending in front of the frame. -/
theorem latencies_eq (ts : ℚ) (pending : Option ℚ) (rs : List Reaction) :
    latencies key ts pending rs =
      (if (uses key rs).head? = some (.response key) then (pending.map (latencyUs ts)).toList
        else []) ++ latencies key ts none rs := by
  induction rs generalizing pending with
  | nil => rfl
  | cons r rest ih =>
    rw [latencies, latencies, uses]
    by_cases hreq : r = .request key
    · simp [hreq]
    · by_cases hresp : r = .response key
      · simp [hresp]
      · rw [if_neg hreq, if_neg hresp, if_neg hreq, if_neg hresp,
          List.filter_cons_of_neg (by simp [hreq, hresp])]
        exact ih pending

theorem latencies_own {ts : ℚ} {pending : Option ℚ} (hown : ∀ sent ∈ pending, sent = ts)
    (rs : List Reaction) : ∀ x ∈ latencies key ts pending rs, x = latencyUs ts ts := by
  induction rs generalizing pending with
  | nil => exact fun x hx => absurd hx List.not_mem_nil
  | cons r rest ih =>
    rw [latencies]
    split_ifs
    · exact ih fun sent hsent => (Option.mem_some_iff.mp hsent).symm
    · intro x hx
      obtain hx | hx := List.mem_append.mp hx
      · obtain ⟨sent, hsent, rfl⟩ := Option.map_eq_some_iff.mp (Option.mem_toList.mp hx)
        rw [hown sent hsent]
      · exact ih (fun _ h => by cases h) x hx
    · exact ih hown

end CanSniffer.LatencyFrames
