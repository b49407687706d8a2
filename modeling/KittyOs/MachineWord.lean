import KittyOs.Lib.ByteMemory

/-!
# Machine words and page arithmetic

The kernel computes with 64-bit words that wrap. Page rounding is the mask
`~(PAGE_SIZE - 1)`, which C sign-extends to a word before the conjunction. The
lemmas read each operation as arithmetic on naturals, where every bound is
stated.
-/

namespace KittyOs.MachineWord

set_option autoImplicit false

abbrev U64 := BitVec 64

def pageMask : U64 := ~~~4095#64

/-- `ALIGN_DOWN(addr, PAGE_SIZE)`. -/
def alignDown (address : U64) : U64 := address &&& pageMask

/-- `ALIGN_UP(addr, PAGE_SIZE)`. -/
def alignUp (address : U64) : U64 := (address + 4096 - 1) &&& pageMask

theorem page_mask_shifts (address : U64) :
    address &&& pageMask = (address >>> 12) <<< 12 := by
  apply BitVec.eq_of_getLsbD_eq
  intro index bound
  have lowOnes : (4095#64).getLsbD index = decide (index < 12) := by
    rw [BitVec.getLsbD_ofNat, show (4095 : Nat) = 2 ^ 12 - 1 from rfl,
      Nat.testBit_two_pow_sub_one]
    simp [bound]
  simp only [pageMask, BitVec.getLsbD_and, BitVec.getLsbD_not, lowOnes,
    BitVec.getLsbD_shiftLeft, BitVec.getLsbD_ushiftRight, bound]
  by_cases low : index < 12
  · simp [low]
  · simp [low]
    congr 1
    omega

theorem page_mask_to_nat (address : U64) :
    (address &&& pageMask).toNat = address.toNat / 4096 * 4096 := by
  rw [page_mask_shifts]
  simp only [BitVec.toNat_shiftLeft, BitVec.toNat_ushiftRight, Nat.shiftLeft_eq,
    Nat.shiftRight_eq_div_pow]
  omega

theorem align_down_to_nat (address : U64) :
    (alignDown address).toNat = address.toNat / 4096 * 4096 :=
  page_mask_to_nat address

theorem align_up_to_nat (address : U64) (noWrap : address.toNat + 4095 < 2 ^ 64) :
    (alignUp address).toNat = (address.toNat + 4095) / 4096 * 4096 := by
  unfold alignUp
  rw [page_mask_to_nat]
  have sum : (address + 4096 - 1).toNat = address.toNat + 4095 := by bv_omega
  rw [sum]

/-- Naturals below the word size survive the round trip through a word. -/
theorem of_nat_to_nat {value : Nat} (bound : value < 2 ^ 64) :
    (BitVec.ofNat 64 value).toNat = value := by
  rw [BitVec.toNat_ofNat]
  exact Nat.mod_eq_of_lt bound

/-- An `int` that is not negative keeps its value in 64 bits. -/
theorem sign_extend_small {value : BitVec 32} (small : value.toNat < 2 ^ 31) :
    value.signExtend 64 = BitVec.ofNat 64 value.toNat := by
  have positive : value.msb = false := by
    rw [BitVec.msb_eq_decide, decide_eq_false_iff_not]
    omega
  rw [BitVec.signExtend_eq_setWidth_of_msb_false positive]
  apply BitVec.eq_of_toNat_eq
  simp

end KittyOs.MachineWord
