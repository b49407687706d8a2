import Mathlib.Tactic.Ring
import Mathlib.Data.List.Basic

/-!
# Byte-addressed memory with little-endian words

A memory is a total function from byte addresses to bytes. Words are eight
consecutive bytes, least significant first. Stores, fills and copies are single
layers over the old memory, so that a closed run of them evaluates. The frame
facts are stated bytewise: what an operation does not touch reads as before.
-/

namespace KittyOs.Lib.ByteMemory

set_option autoImplicit false

abbrev Byte := BitVec 8
abbrev Word := BitVec 64
abbrev Memory := Nat → Byte

/-- The half-open span of `count` addresses from `base`. -/
def Within (base count target : Nat) : Prop := base ≤ target ∧ target < base + count

instance (base count target : Nat) : Decidable (Within base count target) :=
  inferInstanceAs (Decidable (_ ∧ _))

def byteOf (value : Word) (index : Nat) : Byte :=
  BitVec.ofNat 8 (value.toNat / 256 ^ index)

def loadWord (mem : Memory) (address : Nat) : Word :=
  BitVec.ofNat 64
    ((mem address).toNat + (mem (address + 1)).toNat * 256 ^ 1 +
      (mem (address + 2)).toNat * 256 ^ 2 + (mem (address + 3)).toNat * 256 ^ 3 +
      (mem (address + 4)).toNat * 256 ^ 4 + (mem (address + 5)).toNat * 256 ^ 5 +
      (mem (address + 6)).toNat * 256 ^ 6 + (mem (address + 7)).toNat * 256 ^ 7)

def storeWord (mem : Memory) (address : Nat) (value : Word) : Memory := fun target =>
  if Within address 8 target then byteOf value (target - address) else mem target

def storeByte (mem : Memory) (address : Nat) (value : Byte) : Memory := fun target =>
  if target = address then value else mem target

def fill (mem : Memory) (base count : Nat) (value : Byte) : Memory := fun target =>
  if Within base count target then value else mem target

/-- A block copy; what it copies are the bytes of the memory before. -/
def copyBlock (mem : Memory) (destination source count : Nat) : Memory := fun target =>
  if Within destination count target then mem (source + (target - destination))
  else mem target

theorem load_word_congr {left right : Memory} {address : Nat}
    (same : ∀ offset, offset < 8 → left (address + offset) = right (address + offset)) :
    loadWord left address = loadWord right address := by
  unfold loadWord
  rw [same 1 (by omega), same 2 (by omega), same 3 (by omega), same 4 (by omega),
    same 5 (by omega), same 6 (by omega), same 7 (by omega)]
  have first := same 0 (by omega)
  rw [Nat.add_zero] at first
  rw [first]

theorem word_of_bytes (value : Word) :
    BitVec.ofNat 64
      ((byteOf value 0).toNat + (byteOf value 1).toNat * 256 ^ 1 +
        (byteOf value 2).toNat * 256 ^ 2 + (byteOf value 3).toNat * 256 ^ 3 +
        (byteOf value 4).toNat * 256 ^ 4 + (byteOf value 5).toNat * 256 ^ 5 +
        (byteOf value 6).toNat * 256 ^ 6 + (byteOf value 7).toNat * 256 ^ 7) = value := by
  apply BitVec.eq_of_toNat_eq
  have bound := value.isLt
  simp only [byteOf, BitVec.toNat_ofNat]
  omega

theorem load_store_same (mem : Memory) (address : Nat) (value : Word) :
    loadWord (storeWord mem address value) address = value := by
  have byteAt : ∀ offset, offset < 8 →
      storeWord mem address value (address + offset) = byteOf value offset := by
    intro offset bound
    have inside : Within address 8 (address + offset) := ⟨by omega, by omega⟩
    simp only [storeWord, if_pos inside, Nat.add_sub_cancel_left]
  unfold loadWord
  rw [byteAt 1 (by omega), byteAt 2 (by omega), byteAt 3 (by omega), byteAt 4 (by omega),
    byteAt 5 (by omega), byteAt 6 (by omega), byteAt 7 (by omega)]
  have first := byteAt 0 (by omega)
  rw [Nat.add_zero] at first
  rw [first]
  exact word_of_bytes value

theorem store_word_outside (mem : Memory) (address target : Nat) (value : Word)
    (outside : ¬Within address 8 target) :
    storeWord mem address value target = mem target := by
  simp only [storeWord, if_neg outside]

theorem load_store_apart (mem : Memory) (address other : Nat) (value : Word)
    (apart : address + 8 ≤ other ∨ other + 8 ≤ address) :
    loadWord (storeWord mem address value) other = loadWord mem other := by
  apply load_word_congr
  intro offset bound
  apply store_word_outside
  intro inside
  unfold Within at inside
  omega

theorem fill_outside (mem : Memory) (base count target : Nat) (value : Byte)
    (outside : ¬Within base count target) : fill mem base count value target = mem target := by
  simp only [fill, if_neg outside]

theorem load_fill_zero (mem : Memory) (base count address : Nat)
    (lower : base ≤ address) (upper : address + 8 ≤ base + count) :
    loadWord (fill mem base count 0) address = 0 := by
  have zeroAt : ∀ offset, offset < 8 → fill mem base count 0 (address + offset) = 0 := by
    intro offset bound
    have inside : Within base count (address + offset) := ⟨by omega, by omega⟩
    simp only [fill, if_pos inside]
  have same : loadWord (fill mem base count 0) address = loadWord (fun _ => 0) address :=
    load_word_congr zeroAt
  rw [same]
  simp [loadWord]

theorem copy_block_outside (mem : Memory) (destination source count target : Nat)
    (outside : ¬Within destination count target) :
    copyBlock mem destination source count target = mem target := by
  simp only [copyBlock, if_neg outside]

theorem copy_block_empty (mem : Memory) (destination source : Nat) :
    copyBlock mem destination source 0 = mem := by
  funext target
  apply copy_block_outside
  intro inside
  have lower := inside.1
  have upper := inside.2
  omega

theorem load_copy_block (mem : Memory) (destination source count offset : Nat)
    (bound : offset + 8 ≤ count) :
    loadWord (copyBlock mem destination source count) (destination + offset) =
      loadWord mem (source + offset) := by
  have byteAt : ∀ index, index < 8 →
      copyBlock mem destination source count (destination + offset + index) =
        mem (source + offset + index) := by
    intro index inWord
    have inside : Within destination count (destination + offset + index) :=
      ⟨by omega, by omega⟩
    simp only [copyBlock, if_pos inside]
    congr 1
    omega
  unfold loadWord
  rw [byteAt 1 (by omega), byteAt 2 (by omega), byteAt 3 (by omega), byteAt 4 (by omega),
    byteAt 5 (by omega), byteAt 6 (by omega), byteAt 7 (by omega)]
  have first := byteAt 0 (by omega)
  simp only [Nat.add_zero] at first
  rw [first]

end KittyOs.Lib.ByteMemory
