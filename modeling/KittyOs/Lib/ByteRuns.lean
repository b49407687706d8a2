import KittyOs.Lib.LittleEndian

/-!
# Runs of bytes at wrapping addresses

Consecutive bytes from a 64-bit pointer on. The addresses wrap, so a run has no
upper end; what belongs to it is said by the distance from its start.
-/

namespace KittyOs.Lib.ByteRuns

open KittyOs.Lib.ByteMemory

set_option autoImplicit false

/-- The address of a byte of the run. -/
def runAddress (start : Word) (index : Nat) : Nat := (start + BitVec.ofNat 64 index).toNat

def storeRun (mem : Memory) (start : Word) (count : Nat) (bytes : Nat → Byte) : Memory :=
  fun target =>
    if target < 2 ^ 64 ∧ (BitVec.ofNat 64 target - start).toNat < count then
      bytes (BitVec.ofNat 64 target - start).toNat
    else mem target

def readRun (mem : Memory) (start : Word) (count : Nat) : List Byte :=
  (List.range count).map fun index => mem (runAddress start index)

theorem run_distance (start : Word) {index : Nat} (small : index < 2 ^ 64) :
    (BitVec.ofNat 64 (runAddress start index) - start).toNat = index := by
  rw [runAddress, BitVec.ofNat_toNat, BitVec.setWidth_eq, BitVec.add_comm, BitVec.add_sub_cancel,
    BitVec.toNat_ofNat, Nat.mod_eq_of_lt small]

theorem run_address_of_distance (start : Word) {target : Nat} (address : target < 2 ^ 64) :
    runAddress start (BitVec.ofNat 64 target - start).toNat = target := by
  rw [runAddress, BitVec.ofNat_toNat, BitVec.setWidth_eq, BitVec.add_comm, BitVec.sub_add_cancel,
    BitVec.toNat_ofNat, Nat.mod_eq_of_lt address]

theorem store_run_inside (mem : Memory) (start : Word) {count index : Nat} (bytes : Nat → Byte)
    (below : index < count) (small : index < 2 ^ 64) :
    storeRun mem start count bytes (runAddress start index) = bytes index := by
  have place := run_distance start small
  have address : runAddress start index < 2 ^ 64 := (start + BitVec.ofNat 64 index).isLt
  rw [storeRun, if_pos ⟨address, by omega⟩, place]

theorem store_run_outside (mem : Memory) (start : Word) {count target : Nat}
    (bytes : Nat → Byte) (outside : ∀ index, index < count → target ≠ runAddress start index) :
    storeRun mem start count bytes target = mem target := by
  rw [storeRun, if_neg]
  rintro ⟨address, below⟩
  exact outside _ below (run_address_of_distance start address).symm

theorem read_store_run (mem : Memory) (start : Word) {count : Nat} (bytes : Nat → Byte)
    (small : count ≤ 2 ^ 64) :
    readRun (storeRun mem start count bytes) start count = (List.range count).map bytes := by
  apply List.map_congr_left
  intro index member
  have below := List.mem_range.mp member
  exact store_run_inside mem start bytes below (by omega)

/-- A loop that stores one byte after the other stores the run. -/
theorem foldl_store_run (mem : Memory) (start : Word) {count : Nat} (bytes : Nat → Byte)
    (small : count ≤ 2 ^ 64) :
    (List.range count).foldl
        (fun mem index => storeByte mem (runAddress start index) (bytes index)) mem =
      storeRun mem start count bytes := by
  induction count with
  | zero =>
      funext target
      simp [storeRun]
  | succ count ih =>
      rw [List.range_succ, List.foldl_append, ih (by omega)]
      funext target
      simp only [List.foldl_cons, List.foldl_nil, storeByte]
      by_cases last : target = runAddress start count
      · rw [if_pos last, last]
        exact (store_run_inside mem start bytes (Nat.lt_succ_self count) (by omega)).symm
      · rw [if_neg last]
        have same : (BitVec.ofNat 64 target - start).toNat ≠ count ∨ ¬target < 2 ^ 64 := by
          by_contra both
          rw [not_or, not_not, not_not] at both
          apply last
          rw [← both.1, run_address_of_distance start both.2]
        have equivalent : (target < 2 ^ 64 ∧ (BitVec.ofNat 64 target - start).toNat < count) ↔
            (target < 2 ^ 64 ∧ (BitVec.ofNat 64 target - start).toNat < count + 1) := by
          omega
        simp only [storeRun, equivalent]

theorem store_run_zero (mem : Memory) (start : Word) (bytes : Nat → Byte) :
    storeRun mem start 0 bytes = mem := by
  funext target
  simp [storeRun]

theorem store_run_congr (mem : Memory) (start : Word) {count : Nat} {bytes others : Nat → Byte}
    (same : ∀ index, index < count → bytes index = others index) :
    storeRun mem start count bytes = storeRun mem start count others := by
  funext target
  by_cases inside : target < 2 ^ 64 ∧ (BitVec.ofNat 64 target - start).toNat < count
  · rw [storeRun, storeRun, if_pos inside, if_pos inside, same _ inside.2]
  · rw [storeRun, storeRun, if_neg inside, if_neg inside]

theorem store_run_succ (mem : Memory) (start : Word) {count : Nat} (bytes : Nat → Byte)
    (small : count < 2 ^ 64) :
    storeByte (storeRun mem start count bytes) (runAddress start count) (bytes count) =
      storeRun mem start (count + 1) bytes := by
  rw [← foldl_store_run mem start bytes (Nat.le_of_lt small),
    ← foldl_store_run mem start bytes small, List.range_succ, List.foldl_append, List.foldl_cons,
    List.foldl_nil]

/-! ### Parts of a run -/

theorem read_run_length (mem : Memory) (start : Word) (count : Nat) :
    (readRun mem start count).length = count := by
  rw [readRun, List.length_map, List.length_range]

theorem run_address_ne (start : Word) {index other : Nat} (small : index < 2 ^ 64)
    (small' : other < 2 ^ 64) (different : index ≠ other) :
    runAddress start index ≠ runAddress start other := by
  intro same
  have place := run_distance start small
  rw [same, run_distance start small'] at place
  exact different place.symm

theorem encode_eq_map (count value : Nat) :
    LittleEndian.encode count value =
      (List.range count).map fun index => BitVec.ofNat 8 (value / 256 ^ index) := by
  induction count generalizing value with
  | zero => rfl
  | succ count ih =>
      rw [LittleEndian.encode, ih, List.range_succ_eq_map, List.map_cons, List.map_map, pow_zero,
        Nat.div_one]
      congr 1
      apply List.map_congr_left
      intro index _
      rw [Function.comp_apply, Nat.div_div_eq_div_mul, Nat.succ_eq_add_one, pow_succ,
        Nat.mul_comm 256]

end KittyOs.Lib.ByteRuns
