import KittyOs.Lib.ByteMemory

/-!
# Little-endian fields

Numbers as byte sequences, least significant byte first, and the byte sequences a
memory holds.
-/

namespace KittyOs.Lib.LittleEndian

open KittyOs.Lib.ByteMemory

set_option autoImplicit false

/-- The first `count` bytes of a number. -/
def encode : Nat → Nat → List Byte
  | 0, _ => []
  | count + 1, value => BitVec.ofNat 8 value :: encode count (value / 256)

def decode : List Byte → Nat
  | [] => 0
  | byte :: bytes => byte.toNat + 256 * decode bytes

theorem encode_length (count value : Nat) : (encode count value).length = count := by
  induction count generalizing value with
  | zero => rfl
  | succ count ih => rw [encode, List.length_cons, ih]

theorem decode_lt (bytes : List Byte) : decode bytes < 2 ^ (8 * bytes.length) := by
  induction bytes with
  | nil => exact Nat.one_pos
  | cons byte bytes ih =>
      have bound := byte.isLt
      rw [decode, List.length_cons, Nat.mul_succ, pow_add]
      omega

theorem decode_encode {count value : Nat} (bound : value < 256 ^ count) :
    decode (encode count value) = value := by
  induction count generalizing value with
  | zero =>
      rw [pow_zero] at bound
      rw [encode, decode]
      omega
  | succ count ih =>
      have rest : value / 256 < 256 ^ count := by
        rw [pow_succ] at bound
        omega
      rw [encode, decode, ih rest, BitVec.toNat_ofNat]
      omega

theorem decode_encode_bits {width count : Nat} (value : BitVec width)
    (wide : 2 ^ width ≤ 256 ^ count) :
    BitVec.ofNat width (decode (encode count value.toNat)) = value := by
  rw [decode_encode (lt_of_lt_of_le value.isLt wide), BitVec.ofNat_toNat, BitVec.setWidth_eq]

end KittyOs.Lib.LittleEndian
