import Mathlib.Tactic

namespace CanSniffer.Library

/-- A memory of `size` bytes. -/
@[ext] structure ByteRegion (size : Nat) where
  byte : Fin size → UInt8

namespace ByteRegion

variable {size : Nat}

def byteAt (m : ByteRegion size) (off : Nat) : UInt8 :=
  if h : off < size then m.byte ⟨off, h⟩ else 0

def setByte (m : ByteRegion size) (off : Nat) (b : UInt8) : ByteRegion size :=
  ⟨fun i => if i.val = off then b else m.byte i⟩

/-- The little-endian value of the `width` bytes from an offset on. -/
def value (m : ByteRegion size) : Nat → Nat → Nat
  | _, 0 => 0
  | off, width + 1 => (m.byteAt off).toNat + 256 * m.value (off + 1) width

/-- Overwrite `width` bytes from an offset on with a little-endian value. -/
def store (m : ByteRegion size) : Nat → Nat → Nat → ByteRegion size
  | _, 0, _ => m
  | off, width + 1, v => (m.setByte off (UInt8.ofNat v)).store (off + 1) width (v / 256)

def store? (m : ByteRegion size) (off width v : Nat) : Option (ByteRegion size) :=
  if off + width ≤ size then some (m.store off width v) else none

theorem store?_of_le {m : ByteRegion size} {off width : Nat} (h : off + width ≤ size) (v : Nat) :
    m.store? off width v = some (m.store off width v) := by
  rw [store?, if_pos h]

theorem byteAt_setByte_self {m : ByteRegion size} {off : Nat} (h : off < size) (b : UInt8) :
    (m.setByte off b).byteAt off = b := by
  simp [byteAt, setByte, h]

theorem byteAt_setByte_of_ne {m : ByteRegion size} {off i : Nat} (h : i ≠ off) (b : UInt8) :
    (m.setByte off b).byteAt i = m.byteAt i := by
  simp [byteAt, setByte, h]

theorem value_lt (m : ByteRegion size) (off width : Nat) : m.value off width < 256 ^ width := by
  induction width generalizing off with
  | zero => simp [value]
  | succ width ih =>
    have hb := (m.byteAt off).toNat_lt
    have hrest := ih (off + 1)
    rw [value, Nat.pow_succ]
    omega

theorem value_lt_two_pow (m : ByteRegion size) (off width : Nat) :
    m.value off width < 2 ^ (8 * width) := by
  have h := value_lt m off width
  rwa [show 256 = 2 ^ 8 by rfl, ← Nat.pow_mul] at h

theorem value_congr {m n : ByteRegion size} {off width : Nat}
    (h : ∀ i, off ≤ i → i < off + width → m.byteAt i = n.byteAt i) :
    m.value off width = n.value off width := by
  induction width generalizing off with
  | zero => rfl
  | succ width ih =>
    rw [value, value, h off le_rfl (by omega), ih fun i hlo hhi => h i (by omega) (by omega)]

theorem byteAt_store_of_outside {off width i : Nat} (h : i < off ∨ off + width ≤ i)
    (m : ByteRegion size) (v : Nat) : (m.store off width v).byteAt i = m.byteAt i := by
  induction width generalizing off v m with
  | zero => rfl
  | succ width ih =>
    rw [store, ih (by omega), byteAt_setByte_of_ne (by omega)]

theorem value_store_of_disjoint {off width off' width' : Nat}
    (h : off' + width' ≤ off ∨ off + width ≤ off') (m : ByteRegion size) (v : Nat) :
    (m.store off width v).value off' width' = m.value off' width' := by
  apply value_congr
  intro i hlo hhi
  exact byteAt_store_of_outside (by omega) m v

theorem value_store_self {off width : Nat} (h : off + width ≤ size) (m : ByteRegion size) (v : Nat) :
    (m.store off width v).value off width = v % 256 ^ width := by
  induction width generalizing off v m with
  | zero => simp [value, Nat.mod_one]
  | succ width ih =>
    rw [store, value, ih (by omega), byteAt_store_of_outside (by omega),
      byteAt_setByte_self (by omega), UInt8.toNat_ofNat', Nat.pow_succ' (m := 256), Nat.mod_mul]

def values (m : ByteRegion size) : Nat → List Nat → List Nat
  | _, [] => []
  | off, w :: ws => m.value off w :: m.values (off + w) ws

def packedOffset {F : Type} [DecidableEq F] (sizeof : F → Nat) : List F → F → Nat
  | [], _ => 0
  | g :: gs, f => if g = f then 0 else sizeof g + packedOffset sizeof gs f

def packedSize {F : Type} (sizeof : F → Nat) (fields : List F) : Nat := (fields.map sizeof).sum

section Packed

variable {F : Type} [DecidableEq F] (sizeof : F → Nat) {fields : List F} {f g : F}

theorem packedOffset_add_le (hf : f ∈ fields) :
    packedOffset sizeof fields f + sizeof f ≤ packedSize sizeof fields := by
  induction fields with
  | nil => cases hf
  | cons h hs ih =>
    simp only [packedOffset, packedSize, List.map_cons, List.sum_cons]
    by_cases he : h = f
    · rw [if_pos he, he]
      omega
    · have hrest := ih ((List.mem_cons.mp hf).resolve_left (Ne.symm he))
      rw [packedSize] at hrest
      rw [if_neg he]
      omega

theorem packedOffset_disjoint (hf : f ∈ fields) (hg : g ∈ fields) (hne : f ≠ g) :
    packedOffset sizeof fields f + sizeof f ≤ packedOffset sizeof fields g ∨
      packedOffset sizeof fields g + sizeof g ≤ packedOffset sizeof fields f := by
  induction fields with
  | nil => cases hf
  | cons h hs ih =>
    simp only [packedOffset]
    by_cases hhf : h = f
    · subst hhf
      rw [if_pos rfl, if_neg hne]
      omega
    · by_cases hhg : h = g
      · subst hhg
        rw [if_pos rfl, if_neg hhf]
        omega
      · have hrest := ih ((List.mem_cons.mp hf).resolve_left (Ne.symm hhf))
          ((List.mem_cons.mp hg).resolve_left (Ne.symm hhg))
        rw [if_neg hhf, if_neg hhg]
        omega

end Packed

end ByteRegion
end CanSniffer.Library
