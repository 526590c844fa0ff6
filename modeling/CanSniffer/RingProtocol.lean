import CanSniffer.Library.Trace
import CanSniffer.PruShm

namespace CanSniffer.RingProtocol

open Library.WhileLoop Library.RingSlots Library.Trace Models Firmware PruShm

/-- Where the reader stands between two of its memory reads. The index that `drain`
read on entry is `writeIdx`; `latest` is an index read inside `_latest_pru_ns`. -/
inductive ReaderPc
  | magic
  | cursor
  | initIndex
  | initLatest (latest : Nat)
  | idle
  | resetIndex (writeIdx : Nat)
  | resetLatest (writeIdx latest : Nat)
  | recalIndex (writeIdx : Nat)
  | recalLatest (writeIdx latest : Nat)
  | loop (writeIdx : Nat)
  | failed
  deriving DecidableEq, Repr

/-- A `drain` with the offset that its loop adds and the events it has yielded. -/
structure Batch where
  epochOffsetNs : Int
  events : List PruEvent
  deriving DecidableEq, Repr

/-- Both parties. `todo` holds the stores of the current `write_event` call still to be
made; `drains`, `calls` and `base` only record the drains, the events of all calls and the
cursor's start. -/
structure System where
  shm : PruShmT
  seq : UInt16
  todo : List Store
  reader : PruShm
  pc : ReaderPc
  drains : List Batch
  calls : List PruEventT
  base : Nat

/-- The events yielded by all drains, each with the offset of its drain. -/
def System.stamped (s : System) : List (PruEvent × Int) :=
  s.drains.flatMap fun d => d.events.map (·, d.epochOffsetNs)

def yieldLast (event : PruEvent) : List Batch → List Batch
  | [] => []
  | [d] => [{ d with events := d.events ++ [event] }]
  | d :: d' :: ds => d :: yieldLast event (d' :: ds)

inductive Action
  | call (tFallNs : UInt64)
  | store
  | read (nowNs : Int)
  deriving DecidableEq, Repr

/-- `main` enters its next `write_event` once the previous one has returned. -/
def System.call (s : System) (tFallNs : UInt64) : Option System :=
  match s.todo with
  | [] => some { s with
      todo := writeStores s.shm.writeIdx evtSof s.seq tFallNs 0
      seq := s.seq + 1
      calls := s.calls ++ [⟨evtSof, 0, s.seq, tFallNs, 0⟩] }
  | _ :: _ => none

def System.store (s : System) : Option System :=
  match s.todo with
  | [] => none
  | st :: todo => some { s with shm := st.apply s.shm, todo }

/-- The loop of a `drain` begins. -/
def System.enter (s : System) (writeIdx : Nat) : System :=
  { s with pc := .loop writeIdx, drains := s.drains ++ [⟨s.reader.epochOffsetNs, []⟩] }

def System.checked (s : System) (writeIdx : Nat) : System :=
  if writeIdx ≠ s.reader.readIdx then { s with pc := .recalIndex writeIdx } else s.enter writeIdx

def System.setOffset (s : System) (epochOffsetNs : Int) : System :=
  { s with reader := { s.reader with epochOffsetNs } }

def System.read (s : System) (nowNs : Int) : Option System :=
  let w := s.shm.writeIdx.toNat
  match s.pc with
  | .magic => some { s with pc := if s.shm.magic ≠ pruShmMagic then .failed else .cursor }
  | .cursor => some { s with reader := { s.reader with readIdx := w }, pc := .initIndex, base := w }
  | .initIndex =>
    if w = 0 then some { s.setOffset nowNs with pc := .idle } else some { s with pc := .initLatest w }
  | .initLatest latest =>
    some { s.setOffset (nowNs - (unpackSlot s.shm (latest - 1)).tFallNs.toNat) with pc := .idle }
  | .idle =>
    if normalWrap w s.reader.readIdx then some (s.checked w)
    else if w = 0 ∧ s.reader.readIdx > 256 then
      some { s with reader := { s.reader with readIdx := 0 }, pc := .resetIndex w }
    else some (s.checked w)
  | .resetIndex writeIdx =>
    if w = 0 then some ((s.setOffset nowNs).checked writeIdx)
    else some { s with pc := .resetLatest writeIdx w }
  | .resetLatest writeIdx latest =>
    some ((s.setOffset (nowNs - (unpackSlot s.shm (latest - 1)).tFallNs.toNat)).checked writeIdx)
  | .recalIndex writeIdx =>
    if w = 0 then some (s.enter writeIdx) else some { s with pc := .recalLatest writeIdx w }
  | .recalLatest writeIdx latest =>
    let tFallNs := (unpackSlot s.shm (latest - 1)).tFallNs.toNat
    if tFallNs > 0 then some ((s.setOffset (nowNs - tFallNs)).enter writeIdx)
    else some (s.enter writeIdx)
  | .loop writeIdx =>
    if s.reader.readIdx ≠ writeIdx then
      match decodeEvent (unpackSlot s.shm s.reader.readIdx) s.reader.epochOffsetNs with
      | some event => some { s with
          reader := { s.reader with readIdx := s.reader.readIdx + 1 }
          drains := yieldLast event s.drains }
      | none => some { s with pc := .failed }
    else some { s with pc := .idle }
  | .failed => none

def System.step (s : System) : Action → Option System
  | .call tFallNs => s.call tFallNs
  | .store => s.store
  | .read nowNs => s.read nowNs

/-- Should the next read unpack a slot `i` to yield it, the index is at most `i + 255`. -/
def System.unpackInBounds (s : System) : Bool :=
  match s.pc with
  | .loop writeIdx =>
    s.reader.readIdx == writeIdx || decide (s.shm.writeIdx.toNat ≤ s.reader.readIdx + 255)
  | _ => true

/-- The index never wraps and no unpacked slot is about to be reused. -/
def System.InBounds (s : System) : Action → Prop
  | .call _ => True
  | .store => s.todo = [.incWriteIdx] → s.shm.writeIdx.toNat + 1 < 2 ^ 32
  | .read _ => s.unpackInBounds = true

instance (s : System) : (a : Action) → Decidable (s.InBounds a)
  | .call _ => inferInstanceAs (Decidable True)
  | .store => inferInstanceAs (Decidable (_ → _))
  | .read _ => inferInstanceAs (Decidable (_ = _))

def Step (s : System) (a : Action) (t : System) : Prop := s.step a = some t ∧ s.InBounds a

def boot (shm : PruShmT) : System :=
  let pru := start shm
  { shm := pru.shm, seq := pru.seq, todo := [], reader := ⟨0, 0⟩, pc := .magic, drains := []
    calls := [], base := 0 }

/-- The memory as it will be when the current `write_event` call returns. -/
def System.settled (s : System) : PruShmT := s.todo.foldl (fun shm st => st.apply shm) s.shm

/-- The firmware's side: the pending stores are the rest of one call, and completing
them leaves the newest calls in the ring. -/
structure WriterInv (s : System) : Prop where
  magic : s.shm.magic = pruShmMagic
  rest : s.todo = [] ∨ ∃ seq tFallNs before,
    before ++ s.todo = writeStores s.shm.writeIdx evtSof seq tFallNs 0
  index : s.shm.writeIdx.toNat + (if s.todo = [] then 0 else 1) = s.calls.length
  holds : Holds s.settled.ring 0 s.calls
  seq : s.seq.toNat = s.calls.length % 2 ^ 16
  numbered : ∀ k raw, s.calls[k]? = some raw → raw.type = evtSof ∧ raw.seq.toNat = k % 2 ^ 16

/-- Event `k` of those yielded is call `base + k`, decoded whole with the offset of its drain. -/
def System.Faithful (s : System) : Prop :=
  ∀ k event off, s.stamped[k]? = some (event, off) → ∃ raw, s.calls[s.base + k]? = some raw ∧
    decodeEvent raw off = some event ∧ event.seq = (s.base + k) % 65536

/-- The published index seen by the reader bounds its cursor from above, and the offset stays while
a loop is under way. -/
def CursorInv (s : System) : Prop :=
  let w := s.shm.writeIdx.toNat
  let caughtUp := s.reader.readIdx = s.base + s.stamped.length
  match s.pc with
  | .magic | .cursor => s.drains = []
  | .initIndex | .initLatest _ | .idle => caughtUp ∧ s.reader.readIdx ≤ w
  | .recalIndex writeIdx | .recalLatest writeIdx _ =>
    caughtUp ∧ s.reader.readIdx ≤ writeIdx ∧ writeIdx ≤ w
  | .loop writeIdx =>
    (caughtUp ∧ s.reader.readIdx ≤ writeIdx ∧ writeIdx ≤ w) ∧
      ∃ before events, s.drains = before ++ [⟨s.reader.epochOffsetNs, events⟩]
  | .resetIndex _ | .resetLatest _ _ | .failed => False

structure Inv (s : System) : Prop where
  writer : WriterInv s
  cursor : CursorInv s
  faithful : s.Faithful

theorem yieldLast_concat (event : PruEvent) (before : List Batch) (d : Batch) :
    yieldLast event (before ++ [d]) = before ++ [{ d with events := d.events ++ [event] }] := by
  induction before with
  | nil => rfl
  | cons b before ih =>
    cases before with
    | nil => rfl
    | cons b' before =>
      rw [List.cons_append, List.cons_append, yieldLast, ← List.cons_append, ih]
      rfl

theorem stamped_enter (s : System) (writeIdx : Nat) : (s.enter writeIdx).stamped = s.stamped := by
  simp [System.stamped, System.enter]

theorem stamped_yield {s t : System} {before : List Batch} {events : List PruEvent} {off : Int}
    {event : PruEvent} (h : s.drains = before ++ [⟨off, events⟩])
    (ht : t.drains = yieldLast event s.drains) : t.stamped = s.stamped ++ [(event, off)] := by
  rw [System.stamped, System.stamped, ht, h, yieldLast_concat]
  simp

theorem apply_ring_of_ne {writeIdx : UInt32} {type : UInt8} {seq : UInt16} {tFallNs : UInt64}
    {pulseNs : UInt32} {st : Store} (hst : st ∈ writeStores writeIdx type seq tFallNs pulseNs)
    {j : Fin 256} (hj : j ≠ slot 256 writeIdx.toNat) (shm : PruShmT) :
    (st.apply shm).ring j = shm.ring j := by
  simp only [writeStores, List.mem_cons, List.not_mem_nil, or_false] at hst
  obtain rfl | rfl | rfl | rfl | rfl | rfl := hst
  all_goals simp only [Store.apply, setSlot_mask, put, Function.update_of_ne hj]

theorem settled_ring_of_ne {s : System} (h : WriterInv s) {j : Fin 256}
    (hj : j ≠ slot 256 s.shm.writeIdx.toNat) : s.settled.ring j = s.shm.ring j := by
  obtain hnil | ⟨seq, tFallNs, before, hrest⟩ := h.rest
  · rw [System.settled, hnil, List.foldl_nil]
  · have hmem : ∀ st ∈ s.todo, st ∈ writeStores s.shm.writeIdx evtSof seq tFallNs 0 :=
      fun st hst => hrest ▸ List.mem_append_right before hst
    have hind : ∀ (todo : List Store) (shm : PruShmT),
        (∀ st ∈ todo, st ∈ writeStores s.shm.writeIdx evtSof seq tFallNs 0) →
        (todo.foldl (fun shm st => st.apply shm) shm).ring j = shm.ring j := by
      intro todo
      induction todo with
      | nil => exact fun _ _ => rfl
      | cons st todo ih =>
        intro shm hall
        rw [List.foldl_cons, ih _ fun u hu => hall u (List.mem_cons_of_mem _ hu)]
        exact apply_ring_of_ne (hall st List.mem_cons_self) hj shm
    exact hind s.todo s.shm hmem

theorem read_published {s : System} (h : WriterInv s) {i : Nat} (hlt : i < s.shm.writeIdx.toNat)
    (hkeep : s.shm.writeIdx.toNat ≤ i + 255) :
    s.calls[i]? = some (unpackSlot s.shm i) := by
  have hidx := h.index
  have hne : slot 256 i ≠ slot 256 s.shm.writeIdx.toNat := slot_ne_of_lt hlt (by omega)
  have hi : i < s.calls.length := by omega
  have hh := h.holds i hi (by split_ifs at hidx <;> omega)
  rw [Nat.zero_add, settled_ring_of_ne h hne] at hh
  rw [List.getElem?_eq_getElem hi, unpackSlot_eq, hh]

theorem boot_inv (shm : PruShmT) : Inv (boot shm) := by
  refine ⟨⟨rfl, .inl rfl, rfl, holds_nil _ _, rfl, ?_⟩, rfl, ?_⟩
  · intro k raw h
    simp [boot] at h
  · intro k event off h
    simp [System.stamped, boot] at h

theorem call_writer {s t : System} {tFallNs : UInt64} (h : WriterInv s)
    (hstep : s.call tFallNs = some t) : WriterInv t := by
  have hidx := h.index
  rw [System.call] at hstep
  split at hstep
  · rename_i hnil
    cases hstep
    have hset : s.settled = s.shm := by rw [System.settled, hnil, List.foldl_nil]
    rw [if_pos hnil] at hidx
    refine ⟨h.magic, .inr ⟨s.seq, tFallNs, [], rfl⟩, ?_, ?_, ?_, ?_⟩
    · simpa [writeStores] using hidx
    · have hput := holds_put (hset ▸ h.holds) ⟨evtSof, 0, s.seq, tFallNs, 0⟩
      rw [Nat.zero_add, ← hidx] at hput
      change Holds (writeEvent s.shm evtSof s.seq tFallNs 0).ring 0 _
      rw [writeEvent_eq]
      exact hput
    · simp only [UInt16.toNat_add, UInt16.reduceToNat, h.seq, List.length_append,
        List.length_singleton]
      omega
    · intro k raw hk
      obtain hlt | hge := Nat.lt_or_ge k s.calls.length
      · rw [List.getElem?_append_left hlt] at hk
        exact h.numbered k raw hk
      · rw [List.getElem?_append_right hge] at hk
        obtain ⟨hz, rfl⟩ := List.getElem?_eq_some_iff.mp hk
        simp only [List.length_singleton] at hz
        refine ⟨by simp, ?_⟩
        simp only [List.getElem_singleton, h.seq]
        omega
  · cases hstep

theorem store_writer {s t : System} (h : WriterInv s) (hstep : s.store = some t)
    (hbound : s.InBounds .store) :
    WriterInv t ∧ s.shm.writeIdx.toNat ≤ t.shm.writeIdx.toNat := by
  have hidx := h.index
  rw [System.store] at hstep
  split at hstep
  · cases hstep
  · rename_i st todo htodo
    cases hstep
    have hset : ({ s with shm := st.apply s.shm, todo } : System).settled = s.settled := by
      simp only [System.settled, htodo, List.foldl_cons]
    obtain hnil | ⟨seq, tFallNs, before, hrest⟩ := h.rest
    · rw [htodo] at hnil
      cases hnil
    · -- where the pending stores split the call decides whether this store publishes
      have hcase : (st.apply s.shm).magic = s.shm.magic ∧
          ((todo = [] ∧ st = .incWriteIdx) ∨
            (todo ≠ [] ∧ (st.apply s.shm).writeIdx = s.shm.writeIdx)) := by
        rw [htodo] at hrest
        match before, hrest with
        | [], hr | [_], hr | [_, _], hr | [_, _, _], hr | [_, _, _, _], hr | [_, _, _, _, _], hr =>
          simp only [writeStores, List.cons_append, List.nil_append, List.cons.injEq] at hr
          simp_all [Store.apply, PruShmT.setSlot]
        | _ :: _ :: _ :: _ :: _ :: _ :: rest, hr => simp [writeStores] at hr
      obtain ⟨hmagic, ⟨rfl, rfl⟩ | ⟨hne, hsame⟩⟩ := hcase
      · have hlt := hbound htodo
        rw [if_neg (by simp [htodo])] at hidx
        refine ⟨⟨hmagic.trans h.magic, .inl rfl, ?_, hset ▸ h.holds, h.seq, h.numbered⟩, ?_⟩
        · simp only [Store.apply, UInt32.toNat_add, UInt32.reduceToNat, if_true]
          omega
        · simp only [Store.apply, UInt32.toNat_add, UInt32.reduceToNat]
          omega
      · refine ⟨⟨hmagic.trans h.magic, .inr ⟨seq, tFallNs, before ++ [st], ?_⟩, ?_,
          hset ▸ h.holds, h.seq, h.numbered⟩, ?_⟩
        · simpa only [hsame, List.append_assoc, List.singleton_append, htodo] using hrest
        · rw [if_neg (by simp [htodo])] at hidx
          simpa only [hsame, if_neg hne] using hidx
        · rw [hsame]

theorem checked_frame (s : System) (writeIdx : Nat) :
    (s.checked writeIdx).shm = s.shm ∧ (s.checked writeIdx).seq = s.seq ∧
      (s.checked writeIdx).todo = s.todo ∧ (s.checked writeIdx).calls = s.calls := by
  rw [System.checked]
  split_ifs <;> exact ⟨rfl, rfl, rfl, rfl⟩

theorem read_writer {s t : System} {nowNs : Int} (h : WriterInv s)
    (hstep : s.read nowNs = some t) : WriterInv t ∧ t.shm = s.shm ∧ t.calls = s.calls := by
  have hframe : t.shm = s.shm ∧ t.seq = s.seq ∧ t.todo = s.todo ∧ t.calls = s.calls := by
    rw [System.read] at hstep
    dsimp only at hstep
    split at hstep
    all_goals try split_ifs at hstep
    all_goals try (split at hstep)
    all_goals cases hstep
    all_goals first
      | exact ⟨rfl, rfl, rfl, rfl⟩
      | exact checked_frame _ _
  obtain ⟨hshm, hseq, htodo, hcalls⟩ := hframe
  have hset : t.settled = s.settled := by rw [System.settled, System.settled, hshm, htodo]
  refine ⟨⟨?_, ?_, ?_, ?_, ?_, ?_⟩, hshm, hcalls⟩
  · rw [hshm]; exact h.magic
  · rw [hshm, htodo]; exact h.rest
  · rw [hshm, htodo, hcalls]; exact h.index
  · rw [hset, hcalls]; exact h.holds
  · rw [hseq, hcalls]; exact h.seq
  · rw [hcalls]; exact h.numbered

theorem decode_published {s : System} (h : WriterInv s) {i : Nat} (hlt : i < s.shm.writeIdx.toNat)
    (hkeep : s.shm.writeIdx.toNat ≤ i + 255) (off : Int) :
    ∃ event, decodeEvent (unpackSlot s.shm i) off = some event ∧ event.seq = i % 65536 := by
  obtain ⟨htype, hseq⟩ := h.numbered i _ (read_published h hlt hkeep)
  have hdec : decodeEvent (unpackSlot s.shm i) off = some ⟨.sof, (unpackSlot s.shm i).flags.toNat,
      (unpackSlot s.shm i).seq.toNat, (unpackSlot s.shm i).tFallNs.toNat + off,
      (unpackSlot s.shm i).pulseNs.toNat⟩ := by
    rw [decodeEvent, htype]
    rfl
  exact ⟨_, hdec, hseq⟩

theorem faithful_append {s t : System} (h : s.Faithful) {i : Nat} {raw : PruEventT} {off : Int}
    {event : PruEvent} (hi : i = s.base + s.stamped.length) (hcall : s.calls[i]? = some raw)
    (hdec : decodeEvent raw off = some event) (hseq : event.seq = i % 65536)
    (hcalls : t.calls = s.calls) (hbase : t.base = s.base)
    (hstamped : t.stamped = s.stamped ++ [(event, off)]) : t.Faithful := by
  intro k e o hk
  rw [hstamped] at hk
  rw [hcalls, hbase]
  obtain hold | hnew := Nat.lt_or_ge k s.stamped.length
  · rw [List.getElem?_append_left hold] at hk
    exact h k e o hk
  · rw [List.getElem?_append_right hnew] at hk
    obtain ⟨hz, he⟩ := List.getElem?_eq_some_iff.mp hk
    simp only [List.length_singleton] at hz
    rw [List.getElem_singleton] at he
    obtain rfl : k = s.stamped.length := by omega
    cases he
    subst hi
    exact ⟨raw, hcall, hdec, hseq⟩

theorem faithful_enter {s : System} (h : s.Faithful) (writeIdx : Nat) :
    (s.enter writeIdx).Faithful := by
  rw [System.Faithful, stamped_enter]
  exact h

theorem cursor_enter {s : System} {writeIdx : Nat}
    (hcaught : s.reader.readIdx = s.base + s.stamped.length)
    (hread : s.reader.readIdx ≤ writeIdx) (hw : writeIdx ≤ s.shm.writeIdx.toNat) :
    CursorInv (s.enter writeIdx) := by
  refine ⟨⟨?_, hread, hw⟩, s.drains, [], rfl⟩
  rw [stamped_enter]
  exact hcaught

theorem read_cursor {s t : System} {nowNs : Int} (h : Inv s) (hstep : s.read nowNs = some t)
    (hbound : s.InBounds (.read nowNs)) : CursorInv t ∧ t.Faithful := by
  have hcur := h.cursor
  have hfaith := h.faithful
  cases hpc : s.pc with
  | magic =>
    simp only [System.read, hpc, h.writer.magic, ne_eq, not_true_eq_false, if_false] at hstep
    cases hstep
    simp only [CursorInv, hpc] at hcur
    exact ⟨hcur, hfaith⟩
  | cursor =>
    simp only [System.read, hpc] at hstep
    cases hstep
    simp only [CursorInv, hpc] at hcur
    refine ⟨by simp [CursorInv, System.stamped, hcur], fun k event off hk => ?_⟩
    simp [System.stamped, hcur] at hk
  | initIndex =>
    simp only [CursorInv, hpc] at hcur
    simp only [System.read, hpc] at hstep
    split_ifs at hstep <;> cases hstep <;> exact ⟨hcur, hfaith⟩
  | initLatest latest =>
    simp only [CursorInv, hpc] at hcur
    simp only [System.read, hpc] at hstep
    cases hstep
    exact ⟨hcur, hfaith⟩
  | idle =>
    simp only [CursorInv, hpc] at hcur
    have hchecked : CursorInv (s.checked s.shm.writeIdx.toNat) ∧
        (s.checked s.shm.writeIdx.toNat).Faithful := by
      rw [System.checked]
      split_ifs
      · exact ⟨⟨hcur.1, hcur.2, le_rfl⟩, hfaith⟩
      · exact ⟨cursor_enter hcur.1 hcur.2 le_rfl, faithful_enter hfaith _⟩
    simp only [System.read, hpc] at hstep
    split_ifs at hstep with hwrap hreset
    · cases hstep
      exact hchecked
    · -- without a restart the cursor is never ahead of the index
      omega
    · cases hstep
      exact hchecked
  | resetIndex writeIdx => simp only [CursorInv, hpc] at hcur
  | resetLatest writeIdx latest => simp only [CursorInv, hpc] at hcur
  | recalIndex writeIdx =>
    simp only [CursorInv, hpc] at hcur
    simp only [System.read, hpc] at hstep
    split_ifs at hstep
    · cases hstep
      exact ⟨cursor_enter hcur.1 hcur.2.1 hcur.2.2, faithful_enter hfaith _⟩
    · cases hstep
      exact ⟨hcur, hfaith⟩
  | recalLatest writeIdx latest =>
    simp only [CursorInv, hpc] at hcur
    simp only [System.read, hpc] at hstep
    split_ifs at hstep
    · cases hstep
      have hoffset : (s.setOffset (nowNs - (unpackSlot s.shm (latest - 1)).tFallNs.toNat)).Faithful :=
        hfaith
      exact ⟨cursor_enter hcur.1 hcur.2.1 hcur.2.2, faithful_enter hoffset _⟩
    · cases hstep
      exact ⟨cursor_enter hcur.1 hcur.2.1 hcur.2.2, faithful_enter hfaith _⟩
  | loop writeIdx =>
    simp only [CursorInv, hpc] at hcur
    obtain ⟨hcur, before, events, hdrains⟩ := hcur
    simp only [System.read, hpc] at hstep
    split_ifs at hstep with hne
    · have hlt : s.reader.readIdx < s.shm.writeIdx.toNat := by omega
      have hkeep : s.shm.writeIdx.toNat ≤ s.reader.readIdx + 255 := by
        simp only [System.InBounds, System.unpackInBounds, hpc, Bool.or_eq_true, beq_iff_eq, hne,
          false_or, decide_eq_true_eq] at hbound
        exact hbound
      obtain ⟨event, hdec, hseq⟩ := decode_published h.writer hlt hkeep s.reader.epochOffsetNs
      have hcall := read_published h.writer hlt hkeep
      rw [hdec] at hstep
      cases hstep
      have hyield : System.stamped { s with
          reader := ⟨s.reader.readIdx + 1, s.reader.epochOffsetNs⟩
          pc := .loop writeIdx
          drains := yieldLast event s.drains } = s.stamped ++ [(event, s.reader.epochOffsetNs)] :=
        stamped_yield hdrains rfl
      refine ⟨?_, faithful_append hfaith hcur.1 hcall hdec hseq rfl rfl (stamped_yield hdrains rfl)⟩
      simp only [CursorInv, hyield, List.length_append, List.length_singleton]
      refine ⟨⟨by omega, by omega, hcur.2.2⟩, before, events ++ [event], ?_⟩
      rw [hdrains, yieldLast_concat]
    · cases hstep
      refine ⟨?_, hfaith⟩
      simp only [CursorInv]
      exact ⟨hcur.1, hcur.2.1.trans hcur.2.2⟩
  | failed => simp only [CursorInv, hpc] at hcur

theorem cursor_of_index_le {s t : System} (h : CursorInv s)
    (hle : s.shm.writeIdx.toNat ≤ t.shm.writeIdx.toNat) (hpc : t.pc = s.pc)
    (hreader : t.reader = s.reader) (hdrains : t.drains = s.drains) (hbase : t.base = s.base) :
    CursorInv t := by
  have hstamped : t.stamped = s.stamped := by rw [System.stamped, System.stamped, hdrains]
  rw [CursorInv] at h ⊢
  rw [hpc, hreader, hstamped, hdrains, hbase]
  split at h <;> simp_all <;> omega

theorem step_inv {s t : System} {a : Action} (h : Inv s) (hstep : Step s a t) : Inv t := by
  obtain ⟨hstep, hbound⟩ := hstep
  cases a with
  | call tFallNs =>
    have hw := call_writer h.writer hstep
    simp only [System.step, System.call] at hstep
    split at hstep <;> cases hstep
    refine ⟨hw, h.cursor, fun k event off hk => ?_⟩
    obtain ⟨raw, hraw, hrest⟩ := h.faithful k event off hk
    refine ⟨raw, ?_, hrest⟩
    rw [List.getElem?_append_left (List.getElem?_eq_some_iff.mp hraw).1]
    exact hraw
  | store =>
    obtain ⟨hw, hle⟩ := store_writer h.writer hstep hbound
    simp only [System.step, System.store] at hstep
    split at hstep <;> cases hstep
    exact ⟨hw, cursor_of_index_le h.cursor hle rfl rfl rfl rfl, h.faithful⟩
  | read nowNs =>
    obtain ⟨hc, hf⟩ := read_cursor h hstep hbound
    exact ⟨(read_writer h.writer hstep).1, hc, hf⟩

/-- Every interleaving of stores and reads that keeps the writer at most 255 events
ahead of the slot being unpacked yields the calls from the cursor's start on, each once,
whole but for the offset of its drain, and in order. The reader never fails, and a `drain`
that ends has yielded all calls below the index it read on entry. -/
theorem interleaved_drains_yield_calls (shm : PruShmT) (actions : List Action) (s : System)
    (hrun : Run Step (boot shm) actions s) :
    s.pc ≠ .failed ∧
    (∀ k event off, s.stamped[k]? = some (event, off) → ∃ raw, s.calls[s.base + k]? = some raw ∧
      decodeEvent raw off = some event ∧ event.seq = (s.base + k) % 65536) ∧
    (∀ writeIdx nowNs t, s.pc = .loop writeIdx → s.read nowNs = some t → t.pc = .idle →
      s.base + t.stamped.length = writeIdx) := by
  have h := hrun.invariant Inv (fun _ _ _ => step_inv) (boot_inv shm)
  refine ⟨fun hf => ?_, h.faithful, fun writeIdx nowNs t hpc hread hidle => ?_⟩
  · have hc := h.cursor
    simp only [CursorInv, hf] at hc
  · have hc := h.cursor
    simp only [CursorInv, hpc] at hc
    simp only [System.read, hpc] at hread
    split_ifs at hread with hne
    · split at hread <;> cases hread
      · simp only [reduceCtorEq] at hidle
      · cases hidle
    · cases hread
      change s.base + s.stamped.length = writeIdx
      omega

def ReadsTo (nowNs : Int) : System → System → Prop :=
  Relation.ReflTransGen fun s t => s.read nowNs = some t

theorem reads_head {nowNs : Int} {s t u : System} (h : s.read nowNs = some t)
    (hrest : ReadsTo nowNs t u) : ReadsTo nowNs s u := Relation.ReflTransGen.head h hrest

/-- What a `drain` adds to the batches. -/
def batchOf (d : Drain) : Batch := ⟨d.reader.epochOffsetNs, d.yielded⟩

/-- Alone on the memory, the reads of the loop do what the loop of `drain` does. -/
theorem loop_reads {nowNs : Int} (fuel : Nat) (d : Drain) (s : System) (before : List Batch)
    (hpc : s.pc = .loop s.shm.writeIdx.toNat) (hreader : s.reader = d.reader)
    (hdrains : s.drains = before ++ [batchOf d]) (hraised : d.raised = false)
    (hend : (loop (drainBody s.shm s.shm.writeIdx.toNat) fuel d).Ended s.shm) :
    ReadsTo nowNs s { s with
      reader := (loop (drainBody s.shm s.shm.writeIdx.toNat) fuel d).reader
      pc := .idle
      drains := before ++ [batchOf (loop (drainBody s.shm s.shm.writeIdx.toNat) fuel d)] } := by
  induction fuel generalizing d s with
  | zero =>
    have hidx := ended_readIdx hend
    simp only [loop] at hidx ⊢
    refine reads_head ?_ .refl
    simp [System.read, hpc, hreader, hidx, ← hdrains]
  | succ fuel ih =>
    cases hbody : drainBody s.shm s.shm.writeIdx.toNat d with
    | none =>
      rw [loop_of_exit hbody] at hend ⊢
      have hidx := ended_readIdx hend
      refine reads_head ?_ .refl
      simp [System.read, hpc, hreader, hidx, ← hdrains]
    | some d' =>
      rw [loop_succ hbody] at hend ⊢
      have hne : d.reader.readIdx ≠ s.shm.writeIdx.toNat := by
        intro he
        simp [drainBody, hraised, he] at hbody
      simp only [drainBody, hraised, Bool.false_eq_true, if_false, ne_eq, hne, not_false_eq_true,
        if_true] at hbody
      split at hbody
      · rename_i event hdec
        cases hbody
        refine reads_head (t := { s with
          reader := { s.reader with readIdx := s.reader.readIdx + 1 }
          drains := yieldLast event s.drains }) ?_ ?_
        · rw [← hreader] at hne hdec
          simp [System.read, hpc, hne, hdec]
        · refine ih _ _ hpc (by simp [hreader]) ?_ rfl hend
          dsimp only
          rw [hdrains, yieldLast_concat]
          rfl
      · -- an exception would still be recorded at the end
        cases hbody
        rw [loop_of_exit (by simp [drainBody])] at hend
        cases hend.2

theorem checked_reads (s : System) (nowNs : Int) :
    ReadsTo nowNs (s.checked s.shm.writeIdx.toNat)
      (({ s with reader := s.reader.recalibrate s.shm nowNs } : System).enter
        s.shm.writeIdx.toNat) := by
  by_cases hne : s.shm.writeIdx.toNat = s.reader.readIdx
  · simp only [System.checked, recalibrate, hne, ne_eq, not_true_eq_false, if_false]
    exact .refl
  · rw [System.checked, if_pos hne, recalibrate, if_pos hne]
    by_cases hw : s.shm.writeIdx.toNat = 0
    · refine reads_head ?_ .refl
      simp [System.read, System.enter, latestPruNs, hw]
    · refine reads_head (t := { s with
        pc := .recalLatest s.shm.writeIdx.toNat s.shm.writeIdx.toNat }) ?_ (reads_head ?_ .refl)
      · simp [System.read, hw]
      · simp only [System.read, System.setOffset, System.enter, latestPruNs, hw, if_false, gt_iff_lt,
          Nat.cast_pos]
        split_ifs <;> rfl

/-- Without a store in between, the reads of one `drain` give the result of the
sequential function. -/
theorem drain_reads {s : System} {nowNs : Int} {fuel : Nat} (hpc : s.pc = .idle)
    (hend : (drain fuel s.shm nowNs s.reader).Ended s.shm) :
    ReadsTo nowNs s { s with
      reader := (drain fuel s.shm nowNs s.reader).reader
      pc := .idle
      drains := s.drains ++ [batchOf (drain fuel s.shm nowNs s.reader)] } := by
  have hprep : ReadsTo nowNs s (({ s with reader := s.reader.prepare s.shm nowNs } : System).enter
      s.shm.writeIdx.toNat) := by
    have hcheck := checked_reads { s with reader := s.reader.detectRestart s.shm nowNs } nowNs
    by_cases hwrap : normalWrap s.shm.writeIdx.toNat s.reader.readIdx
    · have hread : s.read nowNs = some (s.checked s.shm.writeIdx.toNat) := by
        simp only [System.read, hpc, hwrap, if_true]
      rw [detectRestart, if_pos hwrap] at hcheck
      rw [prepare, detectRestart, if_pos hwrap]
      exact reads_head hread hcheck
    · by_cases hreset : s.shm.writeIdx.toNat = 0 ∧ s.reader.readIdx > 256
      · have hcal : calibrate s.shm nowNs = nowNs := by simp [calibrate, latestPruNs, hreset.1]
        rw [detectRestart, if_neg hwrap, if_pos hreset, hcal] at hcheck
        rw [prepare, detectRestart, if_neg hwrap, if_pos hreset, hcal]
        refine reads_head (t := { s with
          reader := { s.reader with readIdx := 0 }, pc := .resetIndex s.shm.writeIdx.toNat }) ?_
          (reads_head (if_pos hreset.1) hcheck)
        simp only [System.read, hpc]
        rw [if_neg hwrap, if_pos hreset]
      · have hread : s.read nowNs = some (s.checked s.shm.writeIdx.toNat) := by
          simp only [System.read, hpc, hwrap, hreset, if_false]
        rw [detectRestart, if_neg hwrap, if_neg hreset] at hcheck
        rw [prepare, detectRestart, if_neg hwrap, if_neg hreset]
        exact reads_head hread hcheck
  exact hprep.trans (loop_reads fuel { reader := s.reader.prepare s.shm nowNs } _ s.drains rfl rfl
    rfl rfl hend)

def blank : PruShmT := ⟨0, 0, 0, 0, 0, fun _ => ⟨0, 0, 0, 0, 0⟩⟩

/-- The reader is made while the first event is written and polls in vain; it drains that event, and
then two more while the next one is being written. -/
def twoDrains : List Action :=
  [.read 0, .call 1000, .store, .read 0, .store, .store, .read 7, .store, .store, .read 0, .read 0,
    .store, .read 0, .read 0, .read 9000, .read 0, .read 0, .call 2000] ++
  List.replicate 6 .store ++ .call 2500 :: List.replicate 6 .store ++
  [.read 9500, .call 3000, .store, .read 9600, .store, .store, .read 9700, .read 9800, .store, .store,
    .read 9900, .read 9900]

def boundedStep (s : System) (a : Action) : Option System :=
  if s.InBounds a then s.step a else none

theorem twoDrains_yielded :
    ∃ s, s.drains = [⟨7, []⟩, ⟨8000, [⟨.sof, 0, 0, 9000, 0⟩]⟩,
        ⟨7200, [⟨.sof, 0, 1, 9200, 0⟩, ⟨.sof, 0, 2, 9700, 0⟩]⟩] ∧
      Run Step (boot blank) twoDrains s ∧
      ∀ k event off, s.stamped[k]? = some (event, off) → ∃ raw, s.calls[s.base + k]? = some raw ∧
        decodeEvent raw off = some event ∧ event.seq = (s.base + k) % 65536 := by
  have hval : (twoDrains.foldlM boundedStep (boot blank)).map (·.drains) =
      some [⟨7, []⟩, ⟨8000, [⟨.sof, 0, 0, 9000, 0⟩]⟩,
        ⟨7200, [⟨.sof, 0, 1, 9200, 0⟩, ⟨.sof, 0, 2, 9700, 0⟩]⟩] := by decide +kernel
  obtain ⟨s, hs, hy⟩ := Option.map_eq_some_iff.mp hval
  have hrun : Run Step (boot blank) twoDrains s := by
    refine run_of_foldlM (fun s a t h => ?_) hs
    rw [boundedStep] at h
    split_ifs at h with hb
    exact ⟨h, hb⟩
  exact ⟨s, hy, hrun, (interleaved_drains_yield_calls blank twoDrains s hrun).2.1⟩

end CanSniffer.RingProtocol
