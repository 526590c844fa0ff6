import Mathlib.Data.Nat.Digits.Defs
import Mathlib.Tactic

namespace CanSniffer.Library

inductive ByteOrder
  | little | big
  deriving DecidableEq, Repr

namespace PyStruct

def arrange : ByteOrder → List UInt8 → List UInt8
  | .little, bytes => bytes
  | .big, bytes => bytes.reverse

def toBytes : Nat → Nat → List UInt8
  | 0, _ => []
  | width + 1, n => UInt8.ofNat n :: toBytes width (n / 256)

def unsigned (order : ByteOrder) (bytes : List UInt8) : Nat :=
  Nat.ofDigits 256 ((arrange order bytes).map UInt8.toNat)

def packUnsigned (order : ByteOrder) (width n : Nat) : List UInt8 := arrange order (toBytes width n)

def signed (order : ByteOrder) (bytes : List UInt8) : Int :=
  (unsigned order bytes : Int).bmod (256 ^ bytes.length)

def packSigned (order : ByteOrder) (width : Nat) (n : Int) : List UInt8 :=
  packUnsigned order width (n % 256 ^ width).toNat

variable {order : ByteOrder} {width : Nat}

@[simp] theorem arrange_arrange (order : ByteOrder) (bytes : List UInt8) :
    arrange order (arrange order bytes) = bytes := by
  cases order <;> simp [arrange]

@[simp] theorem length_arrange (order : ByteOrder) (bytes : List UInt8) :
    (arrange order bytes).length = bytes.length := by
  cases order <;> simp [arrange]

@[simp] theorem length_toBytes (width n : Nat) : (toBytes width n).length = width := by
  induction width generalizing n with
  | zero => rfl
  | succ width ih => rw [toBytes, List.length_cons, ih]

@[simp] theorem length_packUnsigned (order : ByteOrder) (width n : Nat) :
    (packUnsigned order width n).length = width := by
  simp [packUnsigned]

@[simp] theorem length_packSigned (order : ByteOrder) (width : Nat) (n : Int) :
    (packSigned order width n).length = width := by
  simp [packSigned]

theorem ofDigits_toBytes (width n : Nat) :
    Nat.ofDigits 256 ((toBytes width n).map UInt8.toNat) = n % 256 ^ width := by
  induction width generalizing n with
  | zero => simp [toBytes, Nat.mod_one]
  | succ width ih =>
    rw [toBytes, List.map_cons, Nat.ofDigits_cons, ih, UInt8.toNat_ofNat',
      Nat.pow_succ' (m := 256), Nat.mod_mul]

theorem unsigned_packUnsigned {n : Nat} (h : n < 256 ^ width) :
    unsigned order (packUnsigned order width n) = n := by
  rw [unsigned, packUnsigned, arrange_arrange, ofDigits_toBytes, Nat.mod_eq_of_lt h]

theorem signed_packSigned {n : Int} (hlo : -(256 ^ width : Int) ≤ 2 * n)
    (hhi : 2 * n < (256 ^ width : Int)) : signed order (packSigned order width n) = n := by
  have hpos : (0 : Int) < 256 ^ width := by positivity
  have hmod : (n % 256 ^ width).toNat < 256 ^ width := by
    zify
    rw [Int.toNat_of_nonneg (Int.emod_nonneg n hpos.ne')]
    exact Int.emod_lt_of_pos n hpos
  have hcast : ((n % 256 ^ width).toNat : Int) = n % ((256 ^ width : Nat) : Int) := by
    rw [Int.toNat_of_nonneg (Int.emod_nonneg n hpos.ne')]
    push_cast
    rfl
  rw [signed, packSigned, unsigned_packUnsigned hmod, length_packUnsigned, hcast, Int.emod_bmod]
  apply Int.bmod_eq_of_le_mul_two
  · push_cast
    linarith
  · push_cast
    linarith

end PyStruct
end CanSniffer.Library
