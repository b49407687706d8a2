import Mathlib.Data.BitVec
import Mathlib.Logic.Function.Basic

/-!
# A downward stack of words

Memory by word address and a stack pointer, read as the list of the words from
the pointer upwards. Pushing stores below the pointer and moves it down; popping
moves it up. Lists short of the address space stay apart from what is pushed.
-/

namespace KittyOs.Lib.WordStack

set_option autoImplicit false

abbrev Word := BitVec 64

/-- The words from `pointer` upwards. -/
def Holds (memory : Word → Word) (pointer : Word) (words : List Word) : Prop :=
  ∀ position word, words[position]? = some word →
    memory (pointer + BitVec.ofNat 64 (8 * position)) = word

variable {memory : Word → Word} {pointer word : Word} {words : List Word}

theorem holds_nil (memory : Word → Word) (pointer : Word) : Holds memory pointer [] := by
  intro position word here
  exact absurd here (by simp)

theorem Holds.push (holds : Holds memory pointer words) (short : words.length < 2 ^ 60)
    (word : Word) :
    Holds (Function.update memory (pointer - 8) word) (pointer - 8) (word :: words) := by
  intro position value here
  cases position with
  | zero =>
      rw [List.getElem?_cons_zero] at here
      rw [Nat.mul_zero, BitVec.ofNat_eq_ofNat, BitVec.add_zero, Function.update_self]
      exact Option.some.inj here
  | succ position =>
      rw [List.getElem?_cons_succ] at here
      have bound : position < words.length := (List.getElem?_eq_some_iff.mp here).1
      have shifted : pointer - 8 + BitVec.ofNat 64 (8 * (position + 1)) =
          pointer + BitVec.ofNat 64 (8 * position) := by
        apply BitVec.eq_of_toNat_eq
        bv_omega
      have apart : pointer + BitVec.ofNat 64 (8 * position) ≠ pointer - 8 := by
        intro same
        have value := congrArg BitVec.toNat same
        bv_omega
      rw [shifted, Function.update_of_ne apart]
      exact holds position value here

theorem Holds.top (holds : Holds memory pointer (word :: words)) : memory pointer = word := by
  have first := holds 0 word rfl
  rwa [Nat.mul_zero, BitVec.add_zero] at first

theorem Holds.pop (holds : Holds memory pointer (word :: words)) :
    Holds memory (pointer + 8) words := by
  intro position value here
  have shifted : pointer + 8 + BitVec.ofNat 64 (8 * position) =
      pointer + BitVec.ofNat 64 (8 * (position + 1)) := by
    apply BitVec.eq_of_toNat_eq
    bv_omega
  rw [shifted]
  exact holds (position + 1) value here

theorem Holds.drop (holds : Holds memory pointer words) (count : Nat) :
    Holds memory (pointer + BitVec.ofNat 64 (8 * count)) (words.drop count) := by
  intro position word here
  rw [List.getElem?_drop] at here
  rw [← holds (count + position) word here]
  congr 1
  bv_omega

end KittyOs.Lib.WordStack
