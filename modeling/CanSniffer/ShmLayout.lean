import CanSniffer.Library.ByteRegion
import CanSniffer.Library.Trace
import CanSniffer.PruShm

namespace CanSniffer.ShmLayout

open Library Library.ByteRegion Library.RingSlots Library.Trace Firmware

def pruShmSize : Nat := 0x2000

inductive EventField
  | type | flags | seq | tFallNs | pulseNs
  deriving DecidableEq, Repr

/-- The members of `pru_event_t` in declaration order. -/
def EventField.declared : List EventField := [.type, .flags, .seq, .tFallNs, .pulseNs]

def EventField.sizeof : EventField → Nat
  | .type | .flags => 1
  | .seq => 2
  | .tFallNs => 8
  | .pulseNs => 4

inductive HeaderField
  | magic | writeIdx | pad | pruPrevIep | pruRolloverNs
  deriving DecidableEq, Repr

/-- The members of `pru_shm_t` in front of the ring. -/
def HeaderField.declared : List HeaderField := [.magic, .writeIdx, .pad, .pruPrevIep, .pruRolloverNs]

def HeaderField.sizeof : HeaderField → Nat
  | .magic | .writeIdx | .pad | .pruPrevIep => 4
  | .pruRolloverNs => 8

def sizeofEvent : Nat := packedSize EventField.sizeof EventField.declared

def ringOffset : Nat := packedSize HeaderField.sizeof HeaderField.declared

def eventOffset (idx : Nat) (f : EventField) : Nat :=
  ringOffset + idx * sizeofEvent + packedOffset EventField.sizeof EventField.declared f

def headerOffset (f : HeaderField) : Nat := packedOffset HeaderField.sizeof HeaderField.declared f

theorem mem_eventFields (f : EventField) : f ∈ EventField.declared := by
  cases f <;> decide

theorem mem_headerFields (f : HeaderField) : f ∈ HeaderField.declared := by
  cases f <;> decide

@[simp] theorem sizeofEvent_eq : sizeofEvent = 16 := rfl

@[simp] theorem ringOffset_eq : ringOffset = 24 := rfl

def eventValue (m : ByteRegion pruShmSize) (idx : Nat) (f : EventField) : Nat :=
  m.value (eventOffset idx f) f.sizeof

def headerValue (m : ByteRegion pruShmSize) (f : HeaderField) : Nat :=
  m.value (headerOffset f) f.sizeof

/-- The assignment `shm->ring[idx].f = v`. -/
def storeEventField (m : ByteRegion pruShmSize) (idx : UInt32) (f : EventField) (v : Nat) :
    Option (ByteRegion pruShmSize) :=
  m.store? (eventOffset idx.toNat f) f.sizeof v

def storeHeaderField (m : ByteRegion pruShmSize) (f : HeaderField) (v : Nat) :
    Option (ByteRegion pruShmSize) :=
  m.store? (headerOffset f) f.sizeof v

/-- A volatile store on the bytes of the region; `none` is an access past its end. -/
def applyBytes (m : ByteRegion pruShmSize) : Store → Option (ByteRegion pruShmSize)
  | .type idx v => storeEventField m idx .type v.toNat
  | .flags idx v => storeEventField m idx .flags v.toNat
  | .seq idx v => storeEventField m idx .seq v.toNat
  | .tFallNs idx v => storeEventField m idx .tFallNs v.toNat
  | .pulseNs idx v => storeEventField m idx .pulseNs v.toNat
  | .incWriteIdx => storeHeaderField m .writeIdx ((headerValue m .writeIdx + 1) % 2 ^ 32)

/-- `write_event` on the bytes. -/
def writeEventBytes (m : ByteRegion pruShmSize) (type : UInt8) (seq : UInt16) (tFallNs : UInt64)
    (pulseNs : UInt32) : Option (ByteRegion pruShmSize) :=
  (writeStores (UInt32.ofNat (headerValue m .writeIdx)) type seq tFallNs pulseNs).foldlM applyBytes m

/-- The stores of `write_event` for an event that also sets its flags. -/
def eventStores (writeIdx : UInt32) (e : PruEventT) : List Store :=
  let idx := writeIdx &&& (pruRingDepth - 1)
  [.type idx e.type, .flags idx e.flags, .seq idx e.seq, .tFallNs idx e.tFallNs,
    .pulseNs idx e.pulseNs, .incWriteIdx]

def storeEvent (m : ByteRegion pruShmSize) (e : PruEventT) : Option (ByteRegion pruShmSize) :=
  (eventStores (UInt32.ofNat (headerValue m .writeIdx)) e).foldlM applyBytes m

def eventView (m : ByteRegion pruShmSize) (idx : Nat) : PruEventT where
  type := UInt8.ofNat (eventValue m idx .type)
  flags := UInt8.ofNat (eventValue m idx .flags)
  seq := UInt16.ofNat (eventValue m idx .seq)
  tFallNs := UInt64.ofNat (eventValue m idx .tFallNs)
  pulseNs := UInt32.ofNat (eventValue m idx .pulseNs)

/-- What the bytes stand for under the declarations of the firmware. -/
def view (m : ByteRegion pruShmSize) : PruShmT where
  magic := UInt32.ofNat (headerValue m .magic)
  writeIdx := UInt32.ofNat (headerValue m .writeIdx)
  pad := UInt32.ofNat (headerValue m .pad)
  pruPrevIep := UInt32.ofNat (headerValue m .pruPrevIep)
  pruRolloverNs := UInt64.ofNat (headerValue m .pruRolloverNs)
  ring := fun k => eventView m k

theorem eventOffset_le {idx : Nat} (h : idx < 256) (f : EventField) :
    eventOffset idx f + f.sizeof ≤ pruShmSize := by
  have hf := packedOffset_add_le EventField.sizeof (mem_eventFields f)
  change _ ≤ sizeofEvent at hf
  rw [sizeofEvent_eq] at hf
  rw [eventOffset, sizeofEvent_eq, ringOffset_eq, pruShmSize]
  omega

theorem headerOffset_le (f : HeaderField) : headerOffset f + f.sizeof ≤ ringOffset :=
  packedOffset_add_le HeaderField.sizeof (mem_headerFields f)

theorem eventOffset_disjoint {i j : Nat} {f g : EventField} (h : ¬ (i = j ∧ f = g)) :
    eventOffset i f + f.sizeof ≤ eventOffset j g ∨ eventOffset j g + g.sizeof ≤ eventOffset i f := by
  have hf := packedOffset_add_le EventField.sizeof (mem_eventFields f)
  have hg := packedOffset_add_le EventField.sizeof (mem_eventFields g)
  change _ ≤ sizeofEvent at hf hg
  rw [sizeofEvent_eq] at hf hg
  simp only [eventOffset, sizeofEvent_eq]
  by_cases hij : i = j
  · have hfg := packedOffset_disjoint EventField.sizeof (mem_eventFields f)
      (mem_eventFields g) fun he => h ⟨hij, he⟩
    omega
  · omega

theorem headerOffset_disjoint {f g : HeaderField} (h : f ≠ g) :
    headerOffset f + f.sizeof ≤ headerOffset g ∨ headerOffset g + g.sizeof ≤ headerOffset f :=
  packedOffset_disjoint HeaderField.sizeof (mem_headerFields f) (mem_headerFields g) h

section Stores

variable (m : ByteRegion pruShmSize) (v : Nat)

theorem eventValue_store_self {i : Nat} (hi : i < 256) (f : EventField) :
    eventValue (m.store (eventOffset i f) f.sizeof v) i f = v % 256 ^ f.sizeof :=
  value_store_self (eventOffset_le hi f) m v

theorem eventValue_store_ne {i j : Nat} {f g : EventField} (h : ¬ (i = j ∧ f = g)) :
    eventValue (m.store (eventOffset i f) f.sizeof v) j g = eventValue m j g :=
  value_store_of_disjoint (eventOffset_disjoint h).symm m v

theorem headerValue_store_event (i : Nat) (f : EventField) (g : HeaderField) :
    headerValue (m.store (eventOffset i f) f.sizeof v) g = headerValue m g := by
  have hg := headerOffset_le g
  apply value_store_of_disjoint
  rw [eventOffset]
  omega

theorem headerValue_store_self (f : HeaderField) :
    headerValue (m.store (headerOffset f) f.sizeof v) f = v % 256 ^ f.sizeof :=
  value_store_self ((headerOffset_le f).trans (by decide)) m v

theorem headerValue_store_ne {f g : HeaderField} (h : f ≠ g) :
    headerValue (m.store (headerOffset f) f.sizeof v) g = headerValue m g :=
  value_store_of_disjoint (headerOffset_disjoint h).symm m v

theorem eventValue_store_header (f : HeaderField) (j : Nat) (g : EventField) :
    eventValue (m.store (headerOffset f) f.sizeof v) j g = eventValue m j g := by
  have hf := headerOffset_le f
  apply value_store_of_disjoint
  rw [eventOffset]
  omega

end Stores

def slotOf : Store → Option UInt32
  | .type idx _ | .flags idx _ | .seq idx _ | .tFallNs idx _ | .pulseNs idx _ => some idx
  | .incWriteIdx => none

theorem view_storeEventField {m : ByteRegion pruShmSize} {idx : UInt32} (hidx : idx.toNat < 256)
    (f : EventField) (v : Nat) (g : PruEventT → PruEventT)
    (hevent : ∀ m', (∀ h, h ≠ f → eventValue m' idx.toNat h = eventValue m idx.toNat h) →
      eventValue m' idx.toNat f = v % 256 ^ f.sizeof →
      eventView m' idx.toNat = g (eventView m idx.toNat)) :
    ∃ m', storeEventField m idx f v = some m' ∧ view m' = (view m).setSlot idx g := by
  refine ⟨_, store?_of_le (eventOffset_le hidx f) v, ?_⟩
  have hslot : (slot 256 idx.toNat).val = idx.toNat := Nat.mod_eq_of_lt hidx
  have hring : (view (m.store (eventOffset idx.toNat f) f.sizeof v)).ring =
      put (view m).ring idx.toNat (g ((view m).ring (slot 256 idx.toNat))) := by
    funext k
    by_cases hk : k = slot 256 idx.toNat
    · subst hk
      rw [put, Function.update_self]
      simp only [view, hslot]
      apply hevent
      · intro h hne
        exact eventValue_store_ne m v fun he => hne he.2.symm
      · exact eventValue_store_self m v hidx f
    · have hne : ∀ h, eventValue (m.store (eventOffset idx.toNat f) f.sizeof v) k h =
          eventValue m k h := by
        intro h
        apply eventValue_store_ne
        rintro ⟨he, -⟩
        exact hk (Fin.ext (he.symm.trans hslot.symm))
      rw [put, Function.update_of_ne hk]
      simp only [view, eventView, hne]
  rw [PruShmT.setSlot, ← hring]
  simp only [view, headerValue_store_event]

theorem view_applyBytes {m : ByteRegion pruShmSize} {st : Store}
    (hidx : ∀ idx ∈ slotOf st, idx.toNat < 256) :
    ∃ m', applyBytes m st = some m' ∧ view m' = st.apply (view m) := by
  cases st with
  | type idx v =>
    apply view_storeEventField (hidx idx rfl) .type v.toNat (fun e => { e with type := v })
    intro m' hsame hset
    simp [eventView, hsame, hset, EventField.sizeof]
  | flags idx v =>
    apply view_storeEventField (hidx idx rfl) .flags v.toNat (fun e => { e with flags := v })
    intro m' hsame hset
    simp [eventView, hsame, hset, EventField.sizeof]
  | seq idx v =>
    apply view_storeEventField (hidx idx rfl) .seq v.toNat (fun e => { e with seq := v })
    intro m' hsame hset
    simp [eventView, hsame, hset, EventField.sizeof]
  | tFallNs idx v =>
    apply view_storeEventField (hidx idx rfl) .tFallNs v.toNat (fun e => { e with tFallNs := v })
    intro m' hsame hset
    simp [eventView, hsame, hset, EventField.sizeof]
  | pulseNs idx v =>
    apply view_storeEventField (hidx idx rfl) .pulseNs v.toNat (fun e => { e with pulseNs := v })
    intro m' hsame hset
    simp [eventView, hsame, hset, EventField.sizeof]
  | incWriteIdx =>
    let v := (headerValue m .writeIdx + 1) % 2 ^ 32
    have hfit : headerOffset .writeIdx + HeaderField.writeIdx.sizeof ≤ pruShmSize := by decide
    refine ⟨_, store?_of_le hfit v, ?_⟩
    have hne : ∀ g, g ≠ .writeIdx → headerValue (m.store (headerOffset .writeIdx)
        HeaderField.writeIdx.sizeof v) g = headerValue m g :=
      fun g hg => headerValue_store_ne m v hg.symm
    have hinc : UInt32.ofNat (v % 256 ^ HeaderField.writeIdx.sizeof) =
        UInt32.ofNat (headerValue m .writeIdx) + 1 := by
      apply UInt32.toNat_inj.mp
      simp [v, HeaderField.sizeof]
    simp [view, eventView, Store.apply, headerValue_store_self, eventValue_store_header, hne, hinc]

theorem mask_lt (i : UInt32) : (i &&& (pruRingDepth - 1)).toNat < 256 := by
  have hm : (pruRingDepth - 1).toNat = 2 ^ 8 - 1 := by decide
  simp only [UInt32.toNat_and, hm, Nat.and_two_pow_sub_one_eq_mod]
  omega

theorem slotOf_eventStores {writeIdx : UInt32} {e : PruEventT} {st : Store}
    (hst : st ∈ eventStores writeIdx e) : ∀ idx ∈ slotOf st, idx.toNat < 256 := by
  intro idx hidx
  simp only [eventStores, List.mem_cons, List.not_mem_nil, or_false] at hst
  obtain rfl | rfl | rfl | rfl | rfl | rfl := hst
  all_goals cases hidx
  all_goals exact mask_lt writeIdx

/-- The stores of an event run inside the region, and what they do to the bytes is what they
do to the shared structure. -/
theorem view_storeEvent (m : ByteRegion pruShmSize) (e : PruEventT) :
    ∃ m', storeEvent m e = some m' ∧ view m' =
      { view m with
        ring := put (view m).ring (view m).writeIdx.toNat e
        writeIdx := (view m).writeIdx + 1 } := by
  have hsim : ∀ t, ∀ st ∈ eventStores (UInt32.ofNat (headerValue m .writeIdx)) e,
      ∃ u, applyBytes t st = some u ∧ view u = st.apply (view t) :=
    fun _ _ hst => view_applyBytes (slotOf_eventStores hst)
  obtain ⟨m', hm', hview⟩ :=
    @foldlM_simulates _ _ _ applyBytes (fun shm st => Store.apply st shm) view _ hsim m
  refine ⟨m', hm', ?_⟩
  rw [hview]
  simp only [eventStores, List.foldl_cons, List.foldl_nil, Store.apply, setSlot_mask]
  simp [put, view]

theorem writeEventBytes_eq (m : ByteRegion pruShmSize) (type : UInt8) (seq : UInt16)
    (tFallNs : UInt64) (pulseNs : UInt32) :
    writeEventBytes m type seq tFallNs pulseNs = storeEvent m ⟨type, 0, seq, tFallNs, pulseNs⟩ := rfl

/-- The firmware's function on the bytes is its function on the structure. -/
theorem view_writeEventBytes (m : ByteRegion pruShmSize) (type : UInt8) (seq : UInt16)
    (tFallNs : UInt64) (pulseNs : UInt32) :
    ∃ m', writeEventBytes m type seq tFallNs pulseNs = some m' ∧
      view m' = writeEvent (view m) type seq tFallNs pulseNs := by
  rw [writeEventBytes_eq, writeEvent_eq]
  exact view_storeEvent m _

/-- Width of a format character under the standard sizes of `<`. -/
def formatWidth : Char → Option Nat
  | 'B' => some 1
  | 'H' => some 2
  | 'I' => some 4
  | 'Q' => some 8
  | _ => none

def formatWidths : List Char → Option (List Nat)
  | '<' :: cs => cs.mapM formatWidth
  | _ => none

/-- A `struct.Struct`, with the widths that its format asks for. -/
structure Struct where
  format : String
  widths : List Nat
  parsed : formatWidths format.toList = some widths

def Struct.size (s : Struct) : Nat := s.widths.sum

/-- `none` is the struct.error of a buffer that is too small. -/
def Struct.unpackFrom (s : Struct) (m : ByteRegion pruShmSize) (off : Nat) : Option (List Nat) :=
  if off + s.size ≤ pruShmSize then some (m.values off s.widths) else none

def hdrMagicWidx : Struct := ⟨"<II", [4, 4], by decide⟩

def evtOffset : Nat := 24

def evt : Struct := ⟨"<BBHQI", [1, 1, 2, 8, 4], by decide⟩

def tupleOf (e : PruEventT) : List Nat :=
  [e.type.toNat, e.flags.toNat, e.seq.toNat, e.tFallNs.toNat, e.pulseNs.toNat]

theorem tupleOf_eventView (m : ByteRegion pruShmSize) (idx : Nat) :
    tupleOf (eventView m idx) = EventField.declared.map (eventValue m idx) := by
  have hlt : ∀ f : EventField, eventValue m idx f < 2 ^ (8 * f.sizeof) :=
    fun f => value_lt_two_pow _ _ _
  have htype := hlt .type
  have hflags := hlt .flags
  have hseq := hlt .seq
  have htFallNs := hlt .tFallNs
  have hpulseNs := hlt .pulseNs
  simp only [EventField.sizeof, Nat.reduceMul] at htype hflags hseq htFallNs hpulseNs
  simp only [tupleOf, eventView, UInt8.toNat_ofNat', UInt16.toNat_ofNat', UInt32.toNat_ofNat',
    UInt64.toNat_ofNat', EventField.declared, List.map_cons, List.map_nil]
  rw [Nat.mod_eq_of_lt htype, Nat.mod_eq_of_lt hflags, Nat.mod_eq_of_lt hseq,
    Nat.mod_eq_of_lt htFallNs, Nat.mod_eq_of_lt hpulseNs]

theorem unpack_evt (m : ByteRegion pruShmSize) (k : Fin 256) :
    evt.unpackFrom m (evtOffset + k * evt.size) = some (tupleOf ((view m).ring k)) := by
  have hfit : evtOffset + k * evt.size + evt.size ≤ pruShmSize := by
    have hk := k.isLt
    simp only [evtOffset, Struct.size, evt, List.sum_cons, List.sum_nil, pruShmSize]
    omega
  rw [Struct.unpackFrom, if_pos hfit, view, tupleOf_eventView]
  rfl

theorem toNat_view (m : ByteRegion pruShmSize) :
    (view m).magic.toNat = headerValue m .magic ∧
      (view m).writeIdx.toNat = headerValue m .writeIdx ∧
      (view m).pad.toNat = headerValue m .pad ∧
      (view m).pruPrevIep.toNat = headerValue m .pruPrevIep ∧
      (view m).pruRolloverNs.toNat = headerValue m .pruRolloverNs := by
  have hlt : ∀ f : HeaderField, headerValue m f < 2 ^ (8 * f.sizeof) :=
    fun f => value_lt_two_pow _ _ _
  simp only [view, UInt32.toNat_ofNat', UInt64.toNat_ofNat']
  exact ⟨Nat.mod_eq_of_lt (hlt .magic), Nat.mod_eq_of_lt (hlt .writeIdx),
    Nat.mod_eq_of_lt (hlt .pad), Nat.mod_eq_of_lt (hlt .pruPrevIep),
    Nat.mod_eq_of_lt (hlt .pruRolloverNs)⟩

theorem unpack_hdr (m : ByteRegion pruShmSize) :
    hdrMagicWidx.unpackFrom m 0 = some [(view m).magic.toNat, (view m).writeIdx.toNat] := by
  obtain ⟨hmagic, hwriteIdx, -⟩ := toNat_view m
  rw [hmagic, hwriteIdx]
  rfl

/-- What `_latest_pru_ns` and `drain` unpack for an index is the slot that the reader's
model takes. -/
theorem unpack_slot (m : ByteRegion pruShmSize) (i : Nat) :
    evt.unpackFrom m (evtOffset + (i &&& (256 - 1)) * evt.size) =
      some (tupleOf (PruShm.unpackSlot (view m) i)) := by
  have hmask : i &&& (256 - 1) = (slot 256 i).val := by
    rw [show (256 - 1 : Nat) = 2 ^ 8 - 1 by decide, Nat.and_two_pow_sub_one_eq_mod]
    rfl
  rw [hmask, unpack_evt, PruShm.unpackSlot_eq]

/-- An event stored through the layout of the firmware is what the reader unpacks from its
slot; the index in the header has moved by one, and every other slot, the magic number and
the private fields are as before. -/
theorem write_event_unpacks (m : ByteRegion pruShmSize) (e : PruEventT) :
    ∃ m' magic writeIdx, storeEvent m e = some m' ∧
      (e.flags = 0 → writeEventBytes m e.type e.seq e.tFallNs e.pulseNs = some m') ∧
      hdrMagicWidx.unpackFrom m 0 = some [magic, writeIdx] ∧
      hdrMagicWidx.unpackFrom m' 0 = some [magic, (writeIdx + 1) % 2 ^ 32] ∧
      evt.unpackFrom m' (evtOffset + writeIdx % 256 * evt.size) =
        some [e.type.toNat, e.flags.toNat, e.seq.toNat, e.tFallNs.toNat, e.pulseNs.toNat] ∧
      (∀ k < 256, k ≠ writeIdx % 256 → ∃ fields,
        evt.unpackFrom m (evtOffset + k * evt.size) = some fields ∧
        evt.unpackFrom m' (evtOffset + k * evt.size) = some fields) ∧
      headerValue m' .pad = headerValue m .pad ∧
      headerValue m' .pruPrevIep = headerValue m .pruPrevIep ∧
      headerValue m' .pruRolloverNs = headerValue m .pruRolloverNs := by
  obtain ⟨m', hstore, hview⟩ := view_storeEvent m e
  have hring : (view m').ring = put (view m).ring (view m).writeIdx.toNat e := by rw [hview]
  obtain ⟨-, -, hpad, hprev, hrollover⟩ := toNat_view m
  obtain ⟨-, -, hpad', hprev', hrollover'⟩ := toNat_view m'
  refine ⟨m', _, _, hstore, ?_, unpack_hdr m, ?_, ?_, ?_, ?_, ?_, ?_⟩
  · intro hflags
    rw [writeEventBytes_eq, ← hflags]
    exact hstore
  · rw [unpack_hdr, hview]
    simp
  · have hslot := unpack_evt m' (slot 256 (view m).writeIdx.toNat)
    rw [hring, put, Function.update_self] at hslot
    exact hslot
  · intro k hk hne
    have hslot : (⟨k, hk⟩ : Fin 256) ≠ slot 256 (view m).writeIdx.toNat :=
      fun h => hne (congrArg Fin.val h)
    have hafter := unpack_evt m' ⟨k, hk⟩
    rw [hring, put, Function.update_of_ne hslot] at hafter
    exact ⟨_, unpack_evt m ⟨k, hk⟩, hafter⟩
  · rw [← hpad', ← hpad, hview]
  · rw [← hprev', ← hprev, hview]
  · rw [← hrollover', ← hrollover, hview]

end CanSniffer.ShmLayout
