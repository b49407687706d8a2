import Mathlib.Data.Nat.Digits.Defs
import Mathlib.Data.List.TakeWhile
import Mathlib.Tactic.Ring

/-!
# Runs of digits

The digits a text begins with, as far as they go, and the number they write with
the most significant digit first. The number is computed digit by digit from the
left; it never decreases on the way, so a bound that it passes stays passed.
-/

namespace KittyOs.Lib.DigitRuns

set_option autoImplicit false

section Runs

variable {Symbol : Type} (digit : Symbol → Option Nat)

/-- The longest front of the text that has digits only. -/
def runOf (text : List Symbol) : List Symbol := text.takeWhile fun symbol => (digit symbol).isSome

def afterRun (text : List Symbol) : List Symbol :=
  text.dropWhile fun symbol => (digit symbol).isSome

def digitsOf (text : List Symbol) : List Nat := (runOf digit text).filterMap digit

theorem run_length (text : List Symbol) :
    (runOf digit text).length + (afterRun digit text).length = text.length := by
  rw [← List.length_append, runOf, afterRun, List.takeWhile_append_dropWhile]

theorem run_initial (text : List Symbol) : runOf digit text <+: text := List.takeWhile_prefix _

variable {digit}

theorem run_cons {symbol : Symbol} {value : Nat} (read : digit symbol = some value)
    (text : List Symbol) :
    runOf digit (symbol :: text) = symbol :: runOf digit text ∧
      afterRun digit (symbol :: text) = afterRun digit text ∧
      digitsOf digit (symbol :: text) = value :: digitsOf digit text := by
  simp [runOf, afterRun, digitsOf, read]

theorem run_stop {symbol : Symbol} (read : digit symbol = none) (text : List Symbol) :
    runOf digit (symbol :: text) = [] ∧ afterRun digit (symbol :: text) = symbol :: text ∧
      digitsOf digit (symbol :: text) = [] := by
  simp [runOf, afterRun, digitsOf, read]

theorem run_digits {symbol : Symbol} {text : List Symbol} (member : symbol ∈ runOf digit text) :
    (digit symbol).isSome := by
  have accepted := List.mem_takeWhile_imp member
  exact accepted

theorem run_longest {front text : List Symbol} (initial : front <+: text)
    (digits : ∀ symbol ∈ front, (digit symbol).isSome) :
    front.length ≤ (runOf digit text).length := by
  obtain ⟨rest, split⟩ := initial
  subst split
  induction front with
  | nil => exact Nat.zero_le _
  | cons symbol front ih =>
      obtain ⟨value, read⟩ := Option.isSome_iff_exists.mp (digits symbol List.mem_cons_self)
      have rest := ih fun other member => digits other (List.mem_cons_of_mem _ member)
      rw [List.cons_append, (run_cons read _).1, List.length_cons, List.length_cons]
      exact Nat.succ_le_succ rest

end Runs

/-! ### The number of a run -/

/-- The value after the digits, when those before them have the value `start`. -/
def valueFrom (base start : Int) (digits : List Nat) : Int :=
  digits.foldl (fun value (next : Nat) => value * base + next) start

theorem value_from_cons (base start : Int) (next : Nat) (digits : List Nat) :
    valueFrom base start (next :: digits) = valueFrom base (start * base + next) digits := rfl

/-- From zero, this is the positional value of the digits. -/
theorem value_from_zero (base : Int) (digits : List Nat) :
    valueFrom base 0 digits = Nat.ofDigits base digits.reverse := by
  rw [Nat.ofDigits_eq_foldr, List.foldr_reverse, valueFrom]
  have steps : (fun (value : Int) (next : Nat) => value * base + next) =
      fun (value : Int) (next : Nat) => (next : Int) + base * value := by
    funext value next
    ring
  rw [steps]

theorem value_from_ge {base : Int} (positive : 1 ≤ base) {start : Int} (nonneg : 0 ≤ start)
    (digits : List Nat) : start ≤ valueFrom base start digits := by
  induction digits generalizing start with
  | nil => exact le_refl start
  | cons next digits ih =>
      have grows : start ≤ start * base := le_mul_of_one_le_right nonneg positive
      have added : (0 : Int) ≤ next := Int.natCast_nonneg next
      rw [value_from_cons]
      have nonnegNext : 0 ≤ start * base + next := by omega
      have rest := ih nonnegNext
      omega

/-- The test that divides before the multiplication finds exactly the steps that exceed
the limit. -/
theorem division_guard_iff {limit next base : Int} (positive : 1 ≤ base) (digit : next ≤ limit)
    (value : Int) :
    (limit - next).tdiv base < value ↔ limit < value * base + next := by
  rw [Int.tdiv_eq_ediv_of_nonneg (by omega), Int.ediv_lt_iff_lt_mul (by omega)]
  omega

end KittyOs.Lib.DigitRuns
