import Mathlib.Data.Nat.Bitwise
import Mathlib.Data.List.Pairwise

/-!
# Bit fields of a word

A field is a range of bits. A value is placed in a field by reducing it to the size
of the field and shifting it; a packed word is the disjunction of placed values. From
a word packed of fields that have no bit in common every value can be read back.
-/

namespace KittyOs.Lib.BitFields

set_option autoImplicit false

structure Field where
  shift : Nat
  size : Nat
deriving DecidableEq, Repr

def Field.Has (field : Field) (bit : Nat) : Prop :=
  field.shift ≤ bit ∧ bit < field.shift + field.size

instance (field : Field) (bit : Nat) : Decidable (field.Has bit) :=
  inferInstanceAs (Decidable (_ ∧ _))

/-- Fields without a common bit. An empty field is apart from every field. -/
def Field.Apart (left right : Field) : Prop := ∀ bit, left.Has bit → ¬right.Has bit

def Field.place (field : Field) (value : Nat) : Nat := (value % 2 ^ field.size) <<< field.shift

def Field.read (field : Field) (word : Nat) : Nat := (word >>> field.shift) % 2 ^ field.size

/-- The word with every value in its field. -/
def packed : List (Field × Nat) → Nat
  | [] => 0
  | (field, value) :: rest => field.place value ||| packed rest

variable {field left right : Field} {value : Nat}

theorem Field.Apart.symm (apart : left.Apart right) : right.Apart left := by
  intro bit inRight inLeft
  exact apart bit inLeft inRight

theorem place_bit (field : Field) (value bit : Nat) :
    (field.place value).testBit bit =
      (decide (field.Has bit) && value.testBit (bit - field.shift)) := by
  unfold Field.place Field.Has
  rw [Nat.testBit_shiftLeft, Nat.testBit_mod_two_pow]
  by_cases above : field.shift ≤ bit
  · have bound : bit - field.shift < field.size ↔ bit < field.shift + field.size := by omega
    simp [above, bound]
  · simp [above]

theorem read_bit (field : Field) (word bit : Nat) :
    (field.read word).testBit bit =
      (decide (bit < field.size) && word.testBit (field.shift + bit)) := by
  rw [Field.read, Nat.testBit_mod_two_pow, Nat.testBit_shiftRight]

theorem read_or (field : Field) (first second : Nat) :
    field.read (first ||| second) = field.read first ||| field.read second := by
  apply Nat.eq_of_testBit_eq
  intro bit
  simp only [read_bit, Nat.testBit_or]
  cases decide (bit < field.size) <;> simp

theorem read_place (field : Field) (value : Nat) :
    field.read (field.place value) = value % 2 ^ field.size := by
  apply Nat.eq_of_testBit_eq
  intro bit
  rw [read_bit, place_bit, Nat.testBit_mod_two_pow, Nat.add_sub_cancel_left]
  by_cases inside : bit < field.size
  · have has : field.Has (field.shift + bit) := ⟨by omega, by omega⟩
    simp [inside, has]
  · simp [inside]

theorem read_place_apart (apart : left.Apart right) (value : Nat) :
    left.read (right.place value) = 0 := by
  apply Nat.eq_of_testBit_eq
  intro bit
  rw [read_bit, place_bit, Nat.zero_testBit]
  by_cases inside : bit < left.size
  · have outside := apart (left.shift + bit) ⟨by omega, by omega⟩
    simp [outside]
  · simp [inside]

theorem place_lt (field : Field) (value : Nat) :
    field.place value < 2 ^ (field.shift + field.size) := by
  rw [Field.place, Nat.shiftLeft_eq, pow_add, Nat.mul_comm]
  exact Nat.mul_lt_mul_of_pos_left (Nat.mod_lt _ (Nat.two_pow_pos _)) (Nat.two_pow_pos _)

theorem packed_lt {pieces : List (Field × Nat)} {bits : Nat}
    (inside : ∀ piece ∈ pieces, piece.1.shift + piece.1.size ≤ bits) :
    packed pieces < 2 ^ bits := by
  induction pieces with
  | nil => exact Nat.two_pow_pos bits
  | cons piece rest ih =>
      obtain ⟨here, later⟩ := List.forall_mem_cons.mp inside
      have first := Nat.lt_of_lt_of_le (place_lt piece.1 piece.2)
        (Nat.pow_le_pow_right (by omega) here)
      exact Nat.or_lt_two_pow first (ih later)

theorem read_packed_apart {pieces : List (Field × Nat)}
    (apart : ∀ other ∈ pieces.map Prod.fst, field.Apart other) :
    field.read (packed pieces) = 0 := by
  induction pieces with
  | nil => simp [packed, Field.read]
  | cons piece rest ih =>
      rw [List.map_cons, List.forall_mem_cons] at apart
      rw [packed, read_or, read_place_apart apart.1, ih apart.2, Nat.zero_or]

/-- What was packed can be read back. -/
theorem read_packed {pieces : List (Field × Nat)}
    (apart : (pieces.map Prod.fst).Pairwise Field.Apart) (member : (field, value) ∈ pieces) :
    field.read (packed pieces) = value % 2 ^ field.size := by
  induction pieces with
  | nil => exact absurd member List.not_mem_nil
  | cons piece rest ih =>
      rw [List.map_cons, List.pairwise_cons] at apart
      rcases List.mem_cons.mp member with here | later
      · rw [← here] at apart ⊢
        rw [packed, read_or, read_place, read_packed_apart apart.1, Nat.or_zero]
      · have symmetric := (apart.1 field (List.mem_map_of_mem later)).symm
        rw [packed, read_or, read_place_apart symmetric, ih apart.2 later, Nat.zero_or]

theorem apart_of_ascending {fields : List Field}
    (ascending : fields.Pairwise fun low high => low.shift + low.size ≤ high.shift) :
    fields.Pairwise Field.Apart := by
  apply ascending.imp
  intro low high below bit inLow inHigh
  have upper := inLow.2
  have lower := inHigh.1
  omega

/-! ### Packing by addition -/

/-- The order of the pieces does not matter. -/
theorem packed_perm {pieces others : List (Field × Nat)} (permuted : pieces.Perm others) :
    packed pieces = packed others := by
  induction permuted with
  | nil => rfl
  | cons piece _ ih => rw [packed, packed, ih]
  | swap first second rest => rw [packed, packed, packed, packed, Nat.or_left_comm]
  | trans _ _ ih later => exact ih.trans later

theorem packed_dvd {pieces : List (Field × Nat)} {bits : Nat}
    (above : ∀ piece ∈ pieces, bits ≤ piece.1.shift) : 2 ^ bits ∣ packed pieces := by
  induction pieces with
  | nil => exact Nat.dvd_zero _
  | cons piece rest ih =>
      obtain ⟨here, later⟩ := List.forall_mem_cons.mp above
      have placed : 2 ^ bits ∣ piece.1.place piece.2 := by
        rw [Field.place, Nat.shiftLeft_eq]
        exact Nat.dvd_mul_left_of_dvd (Nat.pow_dvd_pow 2 here) _
      obtain ⟨first, firstEq⟩ := placed
      obtain ⟨second, secondEq⟩ := ih later
      refine ⟨first ||| second, ?_⟩
      rw [packed, firstEq, secondEq, Nat.mul_comm, Nat.mul_comm _ second, Nat.mul_comm _ (_ ||| _),
        ← Nat.shiftLeft_eq, ← Nat.shiftLeft_eq, ← Nat.shiftLeft_eq, Nat.shiftLeft_or_distrib]

/-- Values that fit their fields, one above the other, can be added up as well. -/
theorem packed_eq_sum {pieces : List (Field × Nat)}
    (ascending : pieces.Pairwise fun low high => low.1.shift + low.1.size ≤ high.1.shift)
    (fits : ∀ piece ∈ pieces, piece.2 < 2 ^ piece.1.size) :
    packed pieces = (pieces.map fun piece => piece.2 <<< piece.1.shift).sum := by
  induction pieces with
  | nil => rfl
  | cons piece rest ih =>
      obtain ⟨below, later⟩ := List.pairwise_cons.mp ascending
      obtain ⟨small, others⟩ := List.forall_mem_cons.mp fits
      obtain ⟨high, split⟩ := packed_dvd below
      have placed := place_lt piece.1 piece.2
      rw [List.map_cons, List.sum_cons, ← ih later others, packed, split, Nat.or_comm,
        ← Nat.two_pow_add_eq_or_of_lt placed, Nat.add_comm, Field.place, Nat.mod_eq_of_lt small]

/-! ### Fields of machine words -/

/-- A narrower word shifted into place. -/
theorem shifted_to_nat {word width : Nat} (narrow : BitVec width) {shift : Nat}
    (fits : shift + width ≤ word) :
    (narrow.setWidth word <<< shift).toNat = Field.place ⟨shift, width⟩ narrow.toNat := by
  have small : narrow.toNat < 2 ^ word :=
    Nat.lt_of_lt_of_le narrow.isLt (Nat.pow_le_pow_right (by omega) (by omega))
  have placed := place_lt ⟨shift, width⟩ narrow.toNat
  have whole : Field.place ⟨shift, width⟩ narrow.toNat < 2 ^ word :=
    Nat.lt_of_lt_of_le placed (Nat.pow_le_pow_right (by omega) fits)
  rw [Field.place, Nat.mod_eq_of_lt narrow.isLt] at whole ⊢
  rw [BitVec.toNat_shiftLeft, BitVec.toNat_setWidth, Nat.mod_eq_of_lt small, Nat.mod_eq_of_lt whole]

/-- A word reduced by a mask and shifted into place. -/
theorem masked_to_nat {word : Nat} (value : BitVec word) {mask : BitVec word} {shift size : Nat}
    (ones : mask.toNat = 2 ^ size - 1) (fits : shift + size ≤ word) :
    ((value &&& mask) <<< shift).toNat = Field.place ⟨shift, size⟩ value.toNat := by
  have placed := place_lt ⟨shift, size⟩ value.toNat
  have whole : Field.place ⟨shift, size⟩ value.toNat < 2 ^ word :=
    Nat.lt_of_lt_of_le placed (Nat.pow_le_pow_right (by omega) fits)
  rw [Field.place] at whole ⊢
  rw [BitVec.toNat_shiftLeft, BitVec.toNat_and, ones, Nat.and_two_pow_sub_one_eq_mod,
    Nat.mod_eq_of_lt whole]

theorem test_bit_of_read {word position : Nat} {flag : Bool}
    (read : Field.read ⟨position, 1⟩ word = flag.toNat) : word.testBit position = flag := by
  have bit := read_bit ⟨position, 1⟩ word 0
  rw [read] at bit
  simp only [Nat.lt_one_iff, decide_true, Bool.true_and, Nat.add_zero] at bit
  rw [← bit]
  cases flag <;> rfl

theorem extract_of_read {bits width shift : Nat} {word : BitVec bits} {narrow : BitVec width}
    (read : Field.read ⟨shift, width⟩ word.toNat = narrow.toNat) :
    word.extractLsb' shift width = narrow := by
  apply BitVec.eq_of_toNat_eq
  rw [BitVec.extractLsb'_toNat]
  exact read

end KittyOs.Lib.BitFields
