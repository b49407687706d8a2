import KittyOs.MachineWord
import Mathlib.Data.List.Lex

/-!
# The C runtime

What the kernel uses of `lib/klibc/runtime-blob.cpp`. A NUL-terminated string is
the list of the characters before its terminator; a pointer past the last of them
reads the terminator. `memcpy` copies byte by byte in ascending order, whatever
the two ranges are, so a copy that runs into its own source is modelled too;
`memmove` takes the direction in which that does not happen. The comparisons of
strings are the lexicographic order of their bytes, read as unsigned numbers.
-/

namespace KittyOs.RuntimeBlob

open KittyOs.Lib.ByteMemory KittyOs.MachineWord

set_option autoImplicit false

/-! ### Strings -/

@[ext]
structure CString where
  chars : List Byte
  noNul : 0 ∉ chars
deriving DecidableEq

/-- The loop of `strcmp` over what is left of the two strings. -/
def strcmpFrom : List Byte → List Byte → Int
  | first :: left, second :: right =>
      if first ≠ second then first.toNat - second.toNat else strcmpFrom left right
  | left, right => (left.headD 0).toNat - (right.headD 0).toNat

def strcmp (left right : CString) : Int := strcmpFrom left.chars right.chars

theorem byte_difference_zero {first second : Byte} (zero : (first.toNat : Int) - second.toNat = 0) :
    first = second := by
  apply BitVec.eq_of_toNat_eq
  omega

theorem strcmp_from_zero_iff {left right : List Byte} (leftEnds : 0 ∉ left) (rightEnds : 0 ∉ right) :
    strcmpFrom left right = 0 ↔ left = right := by
  induction left generalizing right with
  | nil =>
      cases right with
      | nil => simp [strcmpFrom]
      | cons second right =>
          simp only [strcmpFrom, List.headD_nil, List.headD_cons, reduceCtorEq, iff_false]
          intro zero
          exact rightEnds (by simp [byte_difference_zero zero])
  | cons first left ih =>
      cases right with
      | nil =>
          simp only [strcmpFrom, List.headD_nil, List.headD_cons, reduceCtorEq, iff_false]
          intro zero
          exact leftEnds (by simp [byte_difference_zero zero])
      | cons second right =>
          have rest := ih (fun member => leftEnds (List.mem_cons_of_mem _ member))
            (fun member => rightEnds (List.mem_cons_of_mem _ member))
          by_cases same : first = second
          · subst same
            simp only [strcmpFrom, ne_eq, not_true_eq_false, if_false, rest, List.cons.injEq,
              true_and]
          · simp only [strcmpFrom, ne_eq, same, not_false_eq_true, if_true, List.cons.injEq,
              false_and, iff_false]
            intro zero
            exact same (byte_difference_zero zero)

theorem strcmp_zero_iff (left right : CString) : strcmp left right = 0 ↔ left = right := by
  rw [strcmp, strcmp_from_zero_iff left.noNul right.noNul, CString.ext_iff]

/-- The loop of `strncmp` over what is left of the two strings. -/
def strncmpFrom : Nat → List Byte → List Byte → Int
  | 0, _, _ => 0
  | n + 1, left, right =>
      if left.headD 0 = 0 ∧ right.headD 0 = 0 then 0
      else if left.headD 0 ≠ right.headD 0 then (left.headD 0).toNat - (right.headD 0).toNat
      else strncmpFrom n left.tail right.tail

def strncmp (left right : CString) (n : U64) : Int :=
  strncmpFrom n.toNat left.chars right.chars

/-- The first characters of a string. -/
def CString.cut (string : CString) (n : Nat) : CString where
  chars := string.chars.take n
  noNul := fun member => string.noNul (List.mem_of_mem_take member)

/-- The unsigned bytes of a string. -/
def CString.bytes (string : CString) : List Nat := string.chars.map BitVec.toNat

theorem strncmp_from_eq (n : Nat) {left right : List Byte} (leftEnds : 0 ∉ left)
    (rightEnds : 0 ∉ right) :
    strncmpFrom n left right = strcmpFrom (left.take n) (right.take n) := by
  induction n generalizing left right with
  | zero => rfl
  | succ n ih =>
      cases left with
      | nil =>
          cases right with
          | nil => rfl
          | cons second right =>
              have nonzero : second ≠ 0 := by
                intro zero
                exact rightEnds (by simp [zero])
              have differ : (0 : Byte) ≠ second := nonzero.symm
              simp only [strncmpFrom, List.headD_nil, List.headD_cons, nonzero, and_false, if_false,
                ne_eq, differ, not_false_eq_true, if_true, List.take_succ_cons, List.take_nil,
                strcmpFrom]
      | cons first left =>
          have nonzero : first ≠ 0 := by
            intro zero
            exact leftEnds (by simp [zero])
          cases right with
          | nil =>
              simp only [strncmpFrom, List.headD_nil, List.headD_cons, nonzero, false_and, if_false,
                ne_eq, not_false_eq_true, if_true, List.take_succ_cons, List.take_nil, strcmpFrom]
          | cons second right =>
              have rest := ih (fun member => leftEnds (List.mem_cons_of_mem _ member))
                (fun member => rightEnds (List.mem_cons_of_mem _ member))
              simp only [strncmpFrom, List.headD_cons, nonzero, false_and, if_false,
                List.tail_cons, rest, List.take_succ_cons, strcmpFrom]

theorem strcmp_from_swap (left right : List Byte) :
    strcmpFrom right left = -strcmpFrom left right := by
  induction left generalizing right with
  | nil => cases right <;> simp [strcmpFrom]
  | cons first left ih =>
      cases right with
      | nil => simp [strcmpFrom]
      | cons second right =>
          by_cases same : first = second
          · simp only [strcmpFrom, same, ne_eq, not_true_eq_false, if_false, ih]
          · have other : second ≠ first := fun equal => same equal.symm
            simp only [strcmpFrom, ne_eq, same, other, not_false_eq_true, if_true]
            omega

theorem strcmp_from_neg_iff {left right : List Byte} (leftEnds : 0 ∉ left)
    (rightEnds : 0 ∉ right) :
    strcmpFrom left right < 0 ↔ left.map BitVec.toNat < right.map BitVec.toNat := by
  induction left generalizing right with
  | nil =>
      cases right with
      | nil => simp [strcmpFrom]
      | cons second right =>
          have positive : 0 < second.toNat := by
            apply Nat.pos_of_ne_zero
            intro zero
            have none : second = 0 := BitVec.eq_of_toNat_eq zero
            exact rightEnds (by simp [none])
          simp [strcmpFrom, positive]
  | cons first left ih =>
      cases right with
      | nil => simp [strcmpFrom]
      | cons second right =>
          have rest := ih (fun member => leftEnds (List.mem_cons_of_mem _ member))
            (fun member => rightEnds (List.mem_cons_of_mem _ member))
          rw [List.map_cons, List.map_cons, List.cons_lt_cons_iff]
          by_cases same : first = second
          · simp only [strcmpFrom, same, ne_eq, not_true_eq_false, if_false, rest, lt_irrefl,
              true_and, false_or]
          · have differ : first.toNat ≠ second.toNat := fun equal =>
              same (BitVec.eq_of_toNat_eq equal)
            simp only [strcmpFrom, ne_eq, same, not_false_eq_true, if_true, differ, false_and,
              or_false]
            omega

/-- How `strcmp` orders two strings. -/
structure OrderedByBytes (left right : CString) : Prop where
  less : strcmp left right < 0 ↔ left.bytes < right.bytes
  same : strcmp left right = 0 ↔ left = right
  more : 0 < strcmp left right ↔ right.bytes < left.bytes

theorem strcmp_ordered (left right : CString) : OrderedByBytes left right where
  less := strcmp_from_neg_iff left.noNul right.noNul
  same := strcmp_zero_iff left right
  more := by
    rw [CString.bytes, CString.bytes, ← strcmp_from_neg_iff right.noNul left.noNul,
      strcmp_from_swap left.chars right.chars, strcmp]
    omega

theorem strcmp_nonpos_iff (left right : CString) :
    strcmp left right ≤ 0 ↔ left.bytes ≤ right.bytes := by
  rw [← not_lt, (strcmp_ordered left right).more, not_lt]

/-- `strncmp` is `strcmp` of the first characters, and `strcmp` is the lexicographic
order of unsigned bytes. -/
theorem comparisons_lexicographic (left right third : CString) (n : U64) :
    strncmp left right n = strcmp (left.cut n.toNat) (right.cut n.toNat) ∧
      OrderedByBytes left right ∧ strcmp right left = -strcmp left right ∧
      (strcmp left right ≤ 0 → strcmp right third ≤ 0 → strcmp left third ≤ 0) := by
  refine ⟨strncmp_from_eq n.toNat left.noNul right.noNul, strcmp_ordered left right,
    strcmp_from_swap left.chars right.chars, ?_⟩
  rw [strcmp_nonpos_iff, strcmp_nonpos_iff, strcmp_nonpos_iff]
  exact le_trans

/-! ### Memory -/

/-- The loop of `memcmp` over the two byte sequences, which have the same length. -/
def memcmp : List Byte → List Byte → Int
  | first :: left, second :: right =>
      if first < second then -1 else if first > second then 1 else memcmp left right
  | _, _ => 0

theorem memcmp_zero_iff {left right : List Byte} (length : left.length = right.length) :
    memcmp left right = 0 ↔ left = right := by
  induction left generalizing right with
  | nil =>
      cases right with
      | nil => simp [memcmp]
      | cons second right => simp at length
  | cons first left ih =>
      cases right with
      | nil => simp at length
      | cons second right =>
          have rest : memcmp left right = 0 ↔ left = right := ih (by simpa using length)
          by_cases below : first < second
          · have differ : first ≠ second := by bv_omega
            simp [memcmp, below, differ]
          · by_cases above : first > second
            · have differ : first ≠ second := by bv_omega
              simp [memcmp, below, above, differ]
            · have same : first = second := by bv_omega
              subst same
              simpa [memcmp] using rest

/-- The addresses of `count` bytes from a pointer on. -/
def spanFrom (start : U64) (count : Nat) : List U64 :=
  (List.range count).map fun index => start + BitVec.ofNat 64 index

def memcpy (mem : Memory) (dest src : U64) : Nat → Memory
  | 0 => mem
  | count + 1 =>
      memcpy (storeByte mem dest.toNat (mem src.toNat)) (dest + 1) (src + 1) count

/-- The loop of `memmove` from the end; both pointers are behind the bytes still to be
copied. -/
def copyBackwards (mem : Memory) (d s : U64) : Nat → Memory
  | 0 => mem
  | count + 1 =>
      copyBackwards (storeByte mem (d - 1).toNat (mem (s - 1).toNat)) (d - 1) (s - 1) count

/-- The pointer returned, and the memory after. The loop forwards is that of `memcpy`. -/
def memmove (mem : Memory) (dest src n : U64) : U64 × Memory :=
  if dest < src || dest ≥ src + n then (dest, memcpy mem dest src n.toNat)
  else (dest, copyBackwards mem (dest + n) (src + n) n.toNat)

/-- A copy that does not come to its own source begins with its first byte. -/
theorem copy_block_first {mem : Memory} {dest src count : Nat}
    (clear : dest ≤ src ∨ src + (count + 1) ≤ dest) :
    copyBlock (storeByte mem dest (mem src)) (dest + 1) (src + 1) count =
      copyBlock mem dest src (count + 1) := by
  funext target
  by_cases first : target = dest
  · subst first
    have behind : ¬Within (target + 1) count target := fun inside => by
      have lower := inside.1
      omega
    have inside : Within target (count + 1) target := ⟨by omega, by omega⟩
    simp [copyBlock, behind, inside, storeByte]
  · by_cases inside : Within (dest + 1) count target
    · have lower := inside.1
      have upper := inside.2
      have wider : Within dest (count + 1) target := ⟨by omega, by omega⟩
      have kept : src + 1 + (target - (dest + 1)) ≠ dest := by omega
      simp only [copyBlock, if_pos inside, if_pos wider, storeByte, if_neg kept]
      congr 1
      omega
    · have outside : ¬Within dest (count + 1) target := by
        intro wider
        have lower := wider.1
        have upper := wider.2
        exact inside ⟨by omega, by omega⟩
      simp only [copyBlock, if_neg inside, if_neg outside, storeByte, if_neg first]

/-- Unless the destination starts inside the source, the loop is a block copy. -/
theorem memcpy_clear (mem : Memory) (dest src : U64) (count : Nat)
    (destFits : dest.toNat + count ≤ 2 ^ 64) (srcFits : src.toNat + count ≤ 2 ^ 64)
    (clear : dest.toNat ≤ src.toNat ∨ src.toNat + count ≤ dest.toNat) :
    memcpy mem dest src count = copyBlock mem dest.toNat src.toNat count := by
  induction count generalizing mem dest src with
  | zero => rw [memcpy, copy_block_empty]
  | succ count ih =>
      rw [memcpy, ← copy_block_first clear]
      cases count with
      | zero => rw [memcpy, copy_block_empty]
      | succ count =>
          have destNext : (dest + 1).toNat = dest.toNat + 1 := by bv_omega
          have srcNext : (src + 1).toNat = src.toNat + 1 := by bv_omega
          rw [ih _ (dest + 1) (src + 1) (by omega) (by omega) (by omega), destNext, srcNext]

/-- A copy from below can begin with its last byte. -/
theorem copy_block_last {mem : Memory} {dest src count : Nat} (below : src ≤ dest) :
    copyBlock (storeByte mem (dest + count) (mem (src + count))) dest src count =
      copyBlock mem dest src (count + 1) := by
  funext target
  by_cases last : target = dest + count
  · subst last
    have behind : ¬Within dest count (dest + count) := fun inside => by
      have upper := inside.2
      omega
    have inside : Within dest (count + 1) (dest + count) := ⟨by omega, by omega⟩
    simp [copyBlock, behind, inside, storeByte]
  · by_cases inside : Within dest count target
    · have lower := inside.1
      have upper := inside.2
      have wider : Within dest (count + 1) target := ⟨by omega, by omega⟩
      have kept : src + (target - dest) ≠ dest + count := by omega
      simp only [copyBlock, if_pos inside, if_pos wider, storeByte, if_neg kept]
    · have outside : ¬Within dest (count + 1) target := by
        intro wider
        have lower := wider.1
        have upper := wider.2
        exact inside ⟨by omega, by omega⟩
      simp only [copyBlock, if_neg inside, if_neg outside, storeByte, if_neg last]

theorem pointer_before (start : U64) (count : Nat) :
    start + BitVec.ofNat 64 (count + 1) - 1 = start + BitVec.ofNat 64 count := by
  have one : BitVec.ofNat 64 1 = 1 := rfl
  rw [BitVec.ofNat_add, one, ← BitVec.add_assoc, BitVec.add_sub_cancel]

theorem copy_backwards_eq (mem : Memory) (dest src : U64) (count : Nat)
    (destFits : dest.toNat + count ≤ 2 ^ 64) (below : src.toNat ≤ dest.toNat) :
    copyBackwards mem (dest + BitVec.ofNat 64 count) (src + BitVec.ofNat 64 count) count =
      copyBlock mem dest.toNat src.toNat count := by
  induction count generalizing mem with
  | zero => rw [copyBackwards, copy_block_empty]
  | succ count ih =>
      have destLast : (dest + BitVec.ofNat 64 count).toNat = dest.toNat + count := by
        rw [BitVec.toNat_add, of_nat_to_nat (by omega)]
        omega
      have srcLast : (src + BitVec.ofNat 64 count).toNat = src.toNat + count := by
        rw [BitVec.toNat_add, of_nat_to_nat (by omega)]
        omega
      rw [copyBackwards, pointer_before, pointer_before, ih _ (by omega), destLast, srcLast,
        copy_block_last below]

/-- The bytes of the source have moved to the destination, and nothing else changed. -/
structure Moved (mem after : Memory) (dest src count : Nat) : Prop where
  bytes : ∀ index, index < count → after (dest + index) = mem (src + index)
  others : ∀ target, ¬Within dest count target → after target = mem target

theorem copy_block_moved (mem : Memory) (dest src count : Nat) :
    Moved mem (copyBlock mem dest src count) dest src count where
  bytes := by
    intro index below
    rw [copyBlock, if_pos ⟨by omega, by omega⟩, Nat.add_sub_cancel_left]
  others := by
    intro target outside
    rw [copyBlock, if_neg outside]

theorem memmove_moves (mem : Memory) {dest src n : U64} (destFits : dest.toNat + n.toNat < 2 ^ 64)
    (srcFits : src.toNat + n.toNat < 2 ^ 64) :
    Moved mem (memmove mem dest src n).2 dest.toNat src.toNat n.toNat := by
  have srcEnd : (src + n).toNat = src.toNat + n.toNat := by
    rw [BitVec.toNat_add, Nat.mod_eq_of_lt srcFits]
  have test : (decide (dest < src) || decide (dest ≥ src + n)) = true ↔
      dest.toNat < src.toNat ∨ src.toNat + n.toNat ≤ dest.toNat := by
    rw [Bool.or_eq_true, decide_eq_true_iff, decide_eq_true_iff, ge_iff_le, BitVec.lt_def,
      BitVec.le_def, srcEnd]
  have block : (memmove mem dest src n).2 = copyBlock mem dest.toNat src.toNat n.toNat := by
    unfold memmove
    by_cases forwards : dest.toNat < src.toNat ∨ src.toNat + n.toNat ≤ dest.toNat
    · rw [if_pos (test.mpr forwards)]
      exact memcpy_clear mem dest src n.toNat (by omega) (by omega) (by omega)
    · rw [if_neg (mt test.mp forwards)]
      have backwards := copy_backwards_eq mem dest src n.toNat (by omega) (by omega)
      rw [BitVec.ofNat_toNat, BitVec.setWidth_eq] at backwards
      exact backwards
  rw [block]
  exact copy_block_moved mem dest.toNat src.toNat n.toNat

/-- Six bytes moved up by two, over their own end. -/
theorem overlapping_move :
    Moved (fun place => BitVec.ofNat 8 place)
      (memmove (fun place => BitVec.ofNat 8 place) 0x1002 0x1000 6).2 0x1002 0x1000 6 :=
  memmove_moves _ (by decide) (by decide)

end KittyOs.RuntimeBlob
