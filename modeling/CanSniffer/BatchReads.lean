import CanSniffer.SocketCanReader

namespace CanSniffer.BatchReads

open Library Models SocketCanReader

structure Session where
  pos : Nat := 0
  returned : List RawCanMessage := []

/-- A call of `recv_batch`. The caller catches an exception, and gets no frames then. -/
def step (order : ByteOrder) (recvmsg : Nat → Outcome) (s : Session) (maxBatch : Nat) : Session :=
  match recvBatch order recvmsg maxBatch s.pos with
  | (some out, pos) => { pos, returned := s.returned ++ out }
  | (none, pos) => { s with pos }

def run (order : ByteOrder) (recvmsg : Nat → Outcome) (s : Session) (calls : List Nat) : Session :=
  calls.foldl (step order recvmsg) s

/-- The frame that `recvmsg` delivers, if it is of full size, as it is parsed. -/
def delivered (order : ByteOrder) : Outcome → Option (Option RawCanMessage)
  | .received data ancdata now =>
    if data.length < canFrameSize then none else some (parse order data ancdata now)
  | .wouldBlock | .osError => none

/-- Every full-size frame that `recvmsg` delivered was returned, once and in order. -/
def NothingLost (order : ByteOrder) (recvmsg : Nat → Outcome) (calls : List Nat) : Prop :=
  let s := run order recvmsg {} calls
  s.returned.map some = (List.range s.pos).filterMap fun i => delivered order (recvmsg i)

def FullSize : Outcome → Prop
  | .received data _ _ => canFrameSize ≤ data.length
  | .wouldBlock | .osError => False

def Fails : Outcome → Prop
  | .received data ancdata _ =>
    canFrameSize ≤ data.length ∧ (data.length ≠ canFrameSize ∨
      ∃ c ∈ ancdata.find? isTimestamp, c.data.length < 8)
  | .wouldBlock => False
  | .osError => True

instance : DecidablePred FullSize
  | .received data _ _ => inferInstanceAs (Decidable (canFrameSize ≤ data.length))
  | .wouldBlock | .osError => instDecidableFalse

instance : DecidablePred Fails
  | .received data ancdata _ =>
    inferInstanceAs (Decidable (canFrameSize ≤ data.length ∧ (data.length ≠ canFrameSize ∨
      ∃ c ∈ ancdata.find? isTimestamp, c.data.length < 8)))
  | .wouldBlock => instDecidableFalse
  | .osError => instDecidableTrue

def outcomes (recvmsg : Nat → Outcome) : Nat → Nat → List Outcome
  | 0, _ => []
  | left + 1, pos =>
    recvmsg pos ::
      if recvmsg pos = .wouldBlock ∨ Fails (recvmsg pos) then [] else outcomes recvmsg left (pos + 1)

def batches (recvmsg : Nat → Outcome) : Nat → List Nat → List (List Outcome)
  | _, [] => []
  | pos, maxBatch :: calls =>
    outcomes recvmsg maxBatch pos ::
      batches recvmsg (pos + (outcomes recvmsg maxBatch pos).length) calls

def handed (order : ByteOrder) (batch : List Outcome) : List (Option RawCanMessage) :=
  if ∃ o ∈ batch, Fails o then [] else batch.filterMap (delivered order)

variable {order : ByteOrder} {recvmsg : Nat → Outcome} {data : List UInt8}
  {ancdata : List ControlMessage} {now : ℚ} {o : Outcome} {batch : List Outcome}

theorem unpackPair_eq_none_iff {width : Nat} :
    unpackPair order width data = none ↔ data.length ≠ 2 * width := by
  rw [unpackPair]
  split_ifs with h <;> simp [h]

theorem parse_eq_none_iff : parse order data ancdata now = none ↔
    data.length ≠ canFrameSize ∨ ∃ c ∈ ancdata.find? isTimestamp, c.data.length < 8 := by
  have htimeval : ∀ cdata : List UInt8, timeval order cdata = none ↔ cdata.length < 8 := by
    intro cdata
    rw [timeval]
    split_ifs <;> rw [unpackPair_eq_none_iff, List.length_take] <;> omega
  have hts : timestamp order ancdata = none ↔
      ∃ c ∈ ancdata.find? isTimestamp, c.data.length < 8 := by
    rw [timestamp]
    cases ancdata.find? isTimestamp with
    | none => simp
    | some c => simp [htimeval]
  rw [parse, ← hts, unpackCanFrame]
  by_cases hlen : data.length = canFrameSize
  · rw [if_pos hlen]
    cases timestamp order ancdata <;> simp [hlen]
  · simp [hlen]

theorem fails_received : Fails (.received data ancdata now) ↔
    canFrameSize ≤ data.length ∧ parse order data ancdata now = none := by
  rw [parse_eq_none_iff]
  rfl

theorem delivered_eq_none_iff : delivered order o = none ↔ ¬ FullSize o := by
  cases o with
  | received data ancdata now =>
    rw [delivered, FullSize]
    split_ifs with h <;> simp [h]
  | wouldBlock => simp [delivered, FullSize]
  | osError => simp [delivered, FullSize]

theorem outcomes_of_stop (left : Nat) {pos : Nat}
    (h : recvmsg pos = .wouldBlock ∨ Fails (recvmsg pos)) :
    outcomes recvmsg (left + 1) pos = [recvmsg pos] := by
  rw [outcomes, if_pos h]

theorem outcomes_of_go {left pos : Nat}
    (h : ¬ (recvmsg pos = .wouldBlock ∨ Fails (recvmsg pos))) :
    outcomes recvmsg (left + 1) pos = recvmsg pos :: outcomes recvmsg left (pos + 1) := by
  rw [outcomes, if_neg h]

theorem recvLoop_of_fails (order : ByteOrder) (left : Nat) {pos : Nat} (out : List RawCanMessage)
    (hfail : Fails (recvmsg pos)) : recvLoop order recvmsg (left + 1) pos out = (none, pos + 1) := by
  rw [recvLoop]
  cases ho : recvmsg pos with
  | osError => rfl
  | wouldBlock =>
    rw [ho] at hfail
    exact hfail.elim
  | received data ancdata now =>
    rw [ho] at hfail
    obtain ⟨hfull, hnone⟩ : _ ∧ parse order data ancdata now = none := fails_received.mp hfail
    dsimp only
    rw [if_neg (not_lt.mpr hfull), hnone]

/-- The loop ends after the outcomes it meets. It raises if one of them fails, and returns the
frames among them otherwise. -/
theorem recvLoop_spec (order : ByteOrder) (recvmsg : Nat → Outcome) (left pos : Nat)
    (out : List RawCanMessage) :
    (recvLoop order recvmsg left pos out).2 = pos + (outcomes recvmsg left pos).length ∧
      ((∃ o ∈ outcomes recvmsg left pos, Fails o) →
        (recvLoop order recvmsg left pos out).1 = none) ∧
      ((∀ o ∈ outcomes recvmsg left pos, ¬ Fails o) →
        ∃ msgs, (recvLoop order recvmsg left pos out).1 = some (out ++ msgs) ∧
          msgs.map some = (outcomes recvmsg left pos).filterMap (delivered order)) := by
  induction left generalizing pos out with
  | zero =>
    refine ⟨rfl, ?_, fun _ => ⟨[], by simp [recvLoop], rfl⟩⟩
    rintro ⟨o, ho, -⟩
    cases ho
  | succ left ih =>
    by_cases hfail : Fails (recvmsg pos)
    · rw [outcomes_of_stop left (.inr hfail), recvLoop_of_fails order left out hfail]
      exact ⟨rfl, fun _ => rfl, fun h => absurd hfail (h _ (List.mem_singleton_self _))⟩
    cases ho : recvmsg pos with
    | osError =>
      rw [ho] at hfail
      exact absurd trivial hfail
    | wouldBlock =>
      rw [outcomes_of_stop left (.inl ho), recvLoop, ho]
      refine ⟨rfl, ?_, fun _ => ⟨[], by simp, rfl⟩⟩
      rintro ⟨o, hmem, hfail⟩
      rw [List.mem_singleton.mp hmem] at hfail
      exact hfail.elim
    | received data ancdata now =>
      have hgo : ¬ (recvmsg pos = .wouldBlock ∨ Fails (recvmsg pos)) := by
        rintro (h | h)
        · rw [ho] at h
          cases h
        · exact hfail h
      rw [outcomes_of_go hgo, recvLoop]
      rw [ho] at hfail ⊢
      simp only [List.mem_cons, exists_eq_or_imp, forall_eq_or_imp, hfail, false_or,
        not_false_eq_true, true_and, List.length_cons]
      by_cases hshort : data.length < canFrameSize
      · obtain ⟨hpos, hraise, hout⟩ := ih (pos + 1) out
        rw [if_pos hshort, List.filterMap_cons_none (by rw [delivered, if_pos hshort])]
        exact ⟨by rw [hpos]; omega, hraise, hout⟩
      · cases hmsg : parse order data ancdata now with
        | none => exact absurd (fails_received.mpr ⟨not_lt.mp hshort, hmsg⟩) hfail
        | some msg =>
          obtain ⟨hpos, hraise, hout⟩ := ih (pos + 1) (out ++ [msg])
          have hdel : delivered order (.received data ancdata now) = some (some msg) := by
            rw [delivered, if_neg hshort, hmsg]
          rw [if_neg hshort, List.filterMap_cons_some hdel]
          refine ⟨by rw [hpos]; omega, hraise, ?_⟩
          intro hno
          obtain ⟨msgs, hsome, hmap⟩ := hout hno
          exact ⟨msg :: msgs, by rw [hsome, List.append_assoc]; rfl, by rw [List.map_cons, hmap]⟩

theorem step_spec (order : ByteOrder) (recvmsg : Nat → Outcome) (s : Session) (maxBatch : Nat) :
    (step order recvmsg s maxBatch).pos = s.pos + (outcomes recvmsg maxBatch s.pos).length ∧
      (step order recvmsg s maxBatch).returned.map some =
        s.returned.map some ++ handed order (outcomes recvmsg maxBatch s.pos) := by
  obtain ⟨hpos, hraise, hout⟩ := recvLoop_spec order recvmsg maxBatch s.pos []
  rw [handed, step, recvBatch]
  by_cases hfail : ∃ o ∈ outcomes recvmsg maxBatch s.pos, Fails o
  · rw [if_pos hfail, ← hpos]
    split
    · rename_i hsome
      rw [hsome] at hraise
      cases hraise hfail
    · rename_i hnone
      rw [hnone]
      simp
  · have hno : ∀ o ∈ outcomes recvmsg maxBatch s.pos, ¬ Fails o :=
      fun o ho h => hfail ⟨o, ho, h⟩
    obtain ⟨msgs, hsome, hmap⟩ := hout hno
    rw [if_neg hfail, ← hpos, ← hmap]
    split
    · rename_i hret
      rw [hret] at hsome ⊢
      cases hsome
      simp
    · rename_i hnone
      rw [hnone] at hsome
      cases hsome

theorem run_spec (order : ByteOrder) (recvmsg : Nat → Outcome) (s : Session) (calls : List Nat) :
    (run order recvmsg s calls).pos = s.pos + (batches recvmsg s.pos calls).flatten.length ∧
      (run order recvmsg s calls).returned.map some =
        s.returned.map some ++ (batches recvmsg s.pos calls).flatMap (handed order) := by
  induction calls generalizing s with
  | nil => exact ⟨rfl, (List.append_nil _).symm⟩
  | cons maxBatch calls ih =>
    obtain ⟨hpos, hret⟩ := step_spec order recvmsg s maxBatch
    obtain ⟨hpos', hret'⟩ := ih (step order recvmsg s maxBatch)
    rw [hpos] at hpos' hret'
    refine ⟨?_, ?_⟩
    · refine hpos'.trans ?_
      rw [batches, List.flatten_cons, List.length_append, Nat.add_assoc]
    · refine hret'.trans ?_
      rw [hret, batches, List.flatMap_cons, List.append_assoc]

theorem outcomes_eq_map (recvmsg : Nat → Outcome) (left pos : Nat) :
    outcomes recvmsg left pos =
      (List.range' pos (outcomes recvmsg left pos).length).map recvmsg := by
  induction left generalizing pos with
  | zero => rfl
  | succ left ih =>
    by_cases h : recvmsg pos = .wouldBlock ∨ Fails (recvmsg pos)
    · rw [outcomes_of_stop left h]
      rfl
    · rw [outcomes_of_go h, List.length_cons, List.range'_succ, List.map_cons, ← ih]

theorem flatten_batches (recvmsg : Nat → Outcome) (pos : Nat) (calls : List Nat) :
    (batches recvmsg pos calls).flatten =
      (List.range' pos (batches recvmsg pos calls).flatten.length).map recvmsg := by
  induction calls generalizing pos with
  | nil => rfl
  | cons maxBatch calls ih =>
    rw [batches, List.flatten_cons, List.length_append, ← List.range'_append_1, List.map_append,
      ← outcomes_eq_map, ← ih]

theorem flatMap_eq_iff {α β : Type} {f g : α → List β} {xs : List α}
    (h : ∀ x ∈ xs, f x = g x ∨ f x = []) :
    xs.flatMap f = xs.flatMap g ↔ ∀ x ∈ xs, f x = g x := by
  constructor
  · intro heq
    induction xs with
    | nil => exact List.forall_mem_nil _
    | cons x xs ih =>
      rw [List.flatMap_cons, List.flatMap_cons] at heq
      have hlen : ∀ ys ⊆ x :: xs, (ys.flatMap f).length ≤ (ys.flatMap g).length := by
        intro ys hys
        rw [List.length_flatMap, List.length_flatMap]
        apply List.sum_le_sum
        intro y hy
        obtain hy | hy := h y (hys hy) <;> simp [hy]
      have hrest := hlen xs (List.subset_cons_self x xs)
      have hhead : f x = g x := by
        obtain hx | hx := h x List.mem_cons_self
        · exact hx
        · have htotal := congrArg List.length heq
          rw [List.length_append, List.length_append, hx, List.length_nil] at htotal
          rw [hx, eq_comm, ← List.length_eq_zero_iff]
          omega
      rw [hhead, List.append_cancel_left_eq] at heq
      exact List.forall_mem_cons.mpr
        ⟨hhead, ih (fun y hy => h y (List.mem_cons_of_mem x hy)) heq⟩
  · exact fun heq => List.flatMap_congr heq

theorem handed_eq_iff : handed order batch = batch.filterMap (delivered order) ↔
    ((∃ o ∈ batch, Fails o) → ∀ o ∈ batch, ¬ FullSize o) := by
  have hnil : [] = batch.filterMap (delivered order) ↔ ∀ o ∈ batch, ¬ FullSize o := by
    rw [eq_comm, List.filterMap_eq_nil_iff]
    exact forall₂_congr fun o _ => delivered_eq_none_iff
  rw [handed]
  split_ifs with h
  · rw [hnil]
    exact ⟨fun hno _ => hno, fun hno => hno h⟩
  · exact iff_of_true rfl fun hfail => absurd hfail h

/-- Nothing is lost exactly if no call of `recv_batch` meets a failure together with a frame. -/
theorem nothing_lost_iff (order : ByteOrder) (recvmsg : Nat → Outcome) (calls : List Nat) :
    NothingLost order recvmsg calls ↔
      ∀ batch ∈ batches recvmsg 0 calls, (∃ o ∈ batch, Fails o) → ∀ o ∈ batch, ¬ FullSize o := by
  obtain ⟨hpos, hret⟩ := run_spec order recvmsg {} calls
  have hall : ((List.range (run order recvmsg {} calls).pos).filterMap
      fun i => delivered order (recvmsg i)) =
        (batches recvmsg 0 calls).flatMap (List.filterMap (delivered order)) := by
    have hmap := congrArg (List.filterMap (delivered order)) (flatten_batches recvmsg 0 calls)
    rw [List.filterMap_map, List.filterMap_flatten, ← List.flatMap_def] at hmap
    rw [hpos, List.range_eq_range', Nat.zero_add]
    exact hmap.symm
  have hkept : ∀ batch ∈ batches recvmsg 0 calls,
      handed order batch = batch.filterMap (delivered order) ∨ handed order batch = [] := by
    intro batch _
    rw [handed]
    split_ifs
    · exact Or.inr rfl
    · exact Or.inl rfl
  rw [NothingLost, hall, hret]
  refine (flatMap_eq_iff hkept).trans ?_
  exact forall₂_congr fun batch _ => handed_eq_iff

/-- One frame with id 0x123 and no data, then the interface is taken down. -/
def interfaceDown : Nat → Outcome
  | 0 => .received [0x23, 0x01, 0, 0, 0, 0, 0, 0, 0, 0, 0, 0, 0, 0, 0, 0] [] 1
  | 1 => .osError
  | _ => .wouldBlock

/-- The frame read before the error is gone, and the next call returns none. -/
theorem frame_lost_with_error : ¬ NothingLost .little interfaceDown [256, 256] := by
  rw [NothingLost]
  decide +kernel

end CanSniffer.BatchReads
