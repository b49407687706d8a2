import Mathlib.Data.BitVec
import Mathlib.Logic.Function.Basic

/-!
# Bitmaps stored as bytes

Bit `position` is bit `position % 8` of byte `position / 8`. A search returns the
first clear bit, byte by byte and bit by bit; setting a bit changes no other.
-/

namespace KittyOs.Lib.ByteBitmap

set_option autoImplicit false

def isSet (bits : Nat → BitVec 8) (position : Nat) : Bool :=
  (bits (position / 8)).getLsbD (position % 8)

def setBit (bits : Nat → BitVec 8) (position : Nat) : Nat → BitVec 8 :=
  Function.update bits (position / 8) (bits (position / 8) ||| 1#8 <<< (position % 8))

/-- The first clear bit of a byte. -/
def clearBit (byte : BitVec 8) : Option Nat :=
  (List.range 8).find? fun j => byte &&& 1#8 <<< j == 0#8

/-- The first clear bit of the first `count` bytes; full bytes are passed over. -/
def firstClear (count : Nat) (bits : Nat → BitVec 8) : Option Nat :=
  (List.range count).findSome? fun i =>
    if bits i ≠ 0xff then (clearBit (bits i)).map fun j => i * 8 + j else none

theorem mask_clear_iff {byte : BitVec 8} {j : Nat} (bound : j < 8) :
    byte &&& 1#8 <<< j = 0#8 ↔ byte.getLsbD j = false := by
  rw [← BitVec.twoPow_eq, BitVec.and_twoPow]
  have nonzero : BitVec.twoPow 8 j ≠ 0#8 := by
    intro zero
    have bit := congrArg (fun word => word.getLsbD j) zero
    simp [bound] at bit
  cases byte.getLsbD j with
  | false => simp
  | true => simp [nonzero]

theorem clear_bit_eq_find {byte : BitVec 8} {wanted : Nat → Bool}
    (same : ∀ j, j < 8 → wanted j = !byte.getLsbD j) :
    clearBit byte = (List.range 8).find? wanted := by
  have each : ∀ j ∈ List.range 8, (byte &&& 1#8 <<< j == 0#8) = wanted j := by
    intro j member
    have bound := List.mem_range.mp member
    rw [same j bound, Bool.eq_iff_iff, beq_iff_eq, Bool.not_eq_true', mask_clear_iff bound]
  unfold clearBit
  generalize List.range 8 = positions at each
  induction positions with
  | nil => rfl
  | cons j rest ih =>
      have later := ih fun other member => each other (List.mem_cons_of_mem _ member)
      rw [List.find?_cons, List.find?_cons, each j List.mem_cons_self, later]

/-- Passing over full bytes leaves nothing out: the search goes bit by bit. -/
theorem first_clear_eq_find (count : Nat) (bits : Nat → BitVec 8) :
    firstClear count bits = (List.range (count * 8)).find? fun position => !isSet bits position := by
  unfold firstClear
  induction count with
  | zero => rfl
  | succ count ih =>
      have byte : (if bits count ≠ 0xff then (clearBit (bits count)).map fun j => count * 8 + j
          else none) = (clearBit (bits count)).map fun j => count * 8 + j := by
        split_ifs with partly
        · rfl
        · rw [not_not.mp partly]
          rfl
      have bit : ∀ j, j < 8 → ((fun position => !isSet bits position) ∘ fun j => count * 8 + j) j =
          !(bits count).getLsbD j := by
        intro j bound
        have whole : (count * 8 + j) / 8 = count := by omega
        have rest : (count * 8 + j) % 8 = j := by omega
        simp only [Function.comp_apply, isSet, whole, rest]
      rw [List.range_succ, List.findSome?_append, List.findSome?_singleton, ih, byte, Nat.succ_mul,
        List.range_add, List.find?_append, List.find?_map, ← clear_bit_eq_find bit]

theorem first_clear_some {count position : Nat} {bits : Nat → BitVec 8}
    (found : firstClear count bits = some position) :
    position < count * 8 ∧ isSet bits position = false ∧
      ∀ lower, lower < position → isSet bits lower = true := by
  rw [first_clear_eq_find, List.find?_range_eq_some] at found
  obtain ⟨clear, member, below⟩ := found
  refine ⟨List.mem_range.mp member, by simpa using clear, ?_⟩
  intro lower before
  simpa using below lower before

theorem first_clear_none {count : Nat} {bits : Nat → BitVec 8} (full : firstClear count bits = none)
    {position : Nat} (bound : position < count * 8) : isSet bits position = true := by
  rw [first_clear_eq_find, List.find?_range_eq_none] at full
  simpa using full position bound

theorem is_set_after_set (bits : Nat → BitVec 8) (position other : Nat) :
    isSet (setBit bits position) other = (isSet bits other || decide (other = position)) := by
  have small : other % 8 < 8 := Nat.mod_lt _ (by omega)
  unfold isSet setBit
  by_cases byte : other / 8 = position / 8
  · rw [byte, Function.update_self, BitVec.getLsbD_or, ← BitVec.twoPow_eq,
      BitVec.getLsbD_twoPow]
    congr 1
    rw [← Bool.decide_and, decide_eq_decide]
    omega
  · rw [Function.update_of_ne byte]
    have apart : other ≠ position := by
      intro same
      exact byte (by rw [same])
    simp [apart]

end KittyOs.Lib.ByteBitmap
