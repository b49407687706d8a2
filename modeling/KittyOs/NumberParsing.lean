import KittyOs.RuntimeBlob
import KittyOs.Lib.DigitRuns

/-!
# Numbers in strings

`strtol` and `strtoll` of `lib/klibc/runtime-blob.cpp`. A pointer into the string is
what is left of it. `strtoll` tests each step before it multiplies: on a run of
digits it computes the number they write or stops at the first digit that exceeds
the largest `long long`. `strtol` has no such test and skips fewer kinds of
whitespace; the two agree exactly where neither difference shows.
-/

namespace KittyOs.NumberParsing

open KittyOs.Lib.ByteMemory KittyOs.Lib.DigitRuns KittyOs.RuntimeBlob

set_option autoImplicit false

/-! ### The functions -/

def llongMax : Int := 0x7FFFFFFFFFFFFFFF

def llongMin : Int := -0x8000000000000000

/-- The exact result of a signed operation can be stored. -/
def InRange (exact : Int) : Prop := llongMin ≤ exact ∧ exact ≤ llongMax

instance (exact : Int) : Decidable (InRange exact) :=
  inferInstanceAs (Decidable (llongMin ≤ exact ∧ exact ≤ llongMax))

/-- What a 64-bit register holds of an exact result. -/
def wrap (exact : Int) : Int := exact.bmod (2 ^ 64)

/-- What a call returns and the offset it stores through `endptr`; `operations` are the
exact results of its signed operations. -/
structure Parse where
  value : Int
  position : Nat
  operations : List Int
deriving DecidableEq, Repr

/-- The optional sign, and what follows it. -/
def readSign (str : List Byte) : Bool × List Byte :=
  if str.headD 0 = 0x2D then (true, str.tail)
  else if str.headD 0 = 0x2B then (false, str.tail)
  else (false, str)

def isSpace (c : Byte) : Bool :=
  c == 0x20 || c == 0x09 || c == 0x0A || c == 0x0D || c == 0x0C || c == 0x0B

/-- Base 0 leaves the choice to the string. -/
def detectBase (base : Int) (str : List Byte) : Int × List Byte :=
  if base = 0 then
    if str.headD 0 = 0x30 then
      if str.tail.headD 0 = 0x78 ∨ str.tail.headD 0 = 0x58 then (16, str.tail.tail)
      else (8, str.tail)
    else (10, str)
  else (base, str)

/-- The digit tests of `strtoll`; a `char` is signed. -/
def strtollDigit (base : Int) (c : Byte) : Option Int :=
  let digit := c.toInt
  if base = 16 ∧ ((0x30 ≤ digit ∧ digit ≤ 0x39) ∨ (0x61 ≤ digit ∧ digit ≤ 0x66) ∨
      (0x41 ≤ digit ∧ digit ≤ 0x46)) then
    if 0x30 ≤ digit ∧ digit ≤ 0x39 then some (digit - 0x30)
    else if 0x61 ≤ digit ∧ digit ≤ 0x66 then some (digit - (0x61 - 10))
    else some (digit - (0x41 - 10))
  else if base = 8 ∧ (0x30 ≤ digit ∧ digit ≤ 0x37) then some (digit - 0x30)
  else if base = 10 ∧ (0x30 ≤ digit ∧ digit ≤ 0x39) then some (digit - 0x30)
  else none

structure DigitLoop where
  result : Int
  rest : List Byte
  overflow : Bool
  operations : List Int
deriving DecidableEq, Repr

/-- The loop of `strtoll`; the terminator is no digit. -/
def strtollLoop (base result : Int) : List Byte → DigitLoop
  | [] => { result := result, rest := [], overflow := false, operations := [] }
  | c :: str =>
      match strtollDigit base c with
      | none => { result := result, rest := c :: str, overflow := false, operations := [] }
      | some digit =>
          let limit := (llongMax - digit).tdiv base
          if result > limit then
            { result := result
              rest := c :: str
              overflow := true
              operations := [digit, llongMax - digit, limit] }
          else
            let product := result * base
            let sum := wrap product + digit
            let loop := strtollLoop base (wrap sum) str
            { loop with
              operations := [digit, llongMax - digit, limit, product, sum] ++ loop.operations }

/-- Without a string the null pointer itself is stored. -/
def strtoll (str : Option CString) (base : Int) : Parse :=
  match str with
  | none => { value := 0, position := 0, operations := [] }
  | some string =>
      let sign := readSign (string.chars.dropWhile isSpace)
      let detected := detectBase base sign.2
      let loop := strtollLoop detected.1 0 detected.2
      let result := if sign.1 then wrap (-loop.result) else loop.result
      { value :=
          if loop.overflow then if sign.1 then llongMin else llongMax
          else result
        position := string.chars.length - loop.rest.length
        operations := loop.operations ++ if sign.1 then [-loop.result] else [] }

def isBlank (c : Byte) : Bool := c == 0x20 || c == 0x09

def strtolDigit (c : Byte) : Int :=
  let p := c.toInt
  if 0x30 ≤ p ∧ p ≤ 0x39 then p - 0x30
  else if 0x41 ≤ p ∧ p ≤ 0x5A then p - 0x41 + 10
  else if 0x61 ≤ p ∧ p ≤ 0x7A then p - 0x61 + 10
  else -1

/-- The loop of `strtol`: the result, what is left, and the exact results. -/
def strtolLoop (base result : Int) : List Byte → Int × List Byte × List Int
  | [] => (result, [], [])
  | c :: p =>
      let digit := strtolDigit c
      if digit < 0 ∨ digit ≥ base then (result, c :: p, [digit])
      else
        let product := result * base
        let sum := wrap product + digit
        let loop := strtolLoop base (wrap sum) p
        (loop.1, loop.2.1, [digit, product, sum] ++ loop.2.2)

def strtol (nptr : CString) (base : Int) : Parse :=
  let sign := readSign (nptr.chars.dropWhile isBlank)
  let loop := strtolLoop base 0 sign.2
  { value := if sign.1 then wrap (-loop.1) else loop.1
    position := nptr.chars.length - loop.2.1.length
    operations := loop.2.2 ++ if sign.1 then [-loop.1] else [] }

/-! ### Digits -/

/-- The value of a character among the digits and letters. -/
def digitValue (c : Byte) : Option Nat :=
  let code := c.toNat
  if 0x30 ≤ code ∧ code ≤ 0x39 then some (code - 0x30)
  else if 0x41 ≤ code ∧ code ≤ 0x5A then some (code - 0x41 + 10)
  else if 0x61 ≤ code ∧ code ≤ 0x7A then some (code - 0x61 + 10)
  else none

def baseDigit (base : Int) (c : Byte) : Option Nat :=
  (digitValue c).filter fun value => decide ((value : Int) < base)

theorem base_digit_lt {base : Int} {c : Byte} {value : Nat} (read : baseDigit base c = some value) :
    (value : Int) < base := by
  obtain ⟨found, small⟩ := Option.filter_eq_some_iff.mp read
  exact of_decide_eq_true small

theorem strtoll_digit_eq {base : Int} (known : base = 8 ∨ base = 10 ∨ base = 16) (c : Byte) :
    strtollDigit base c = (baseDigit base c).map Int.ofNat := by
  revert c
  rcases known with rfl | rfl | rfl
  · decide
  · decide
  · decide

theorem strtol_digit_eq (c : Byte) :
    strtolDigit c = ((digitValue c).map Int.ofNat).getD (-1) := by
  have bound := c.isLt
  have signed := BitVec.toInt_eq_toNat_cond c
  unfold strtolDigit digitValue
  dsimp only
  split_ifs at signed ⊢ <;> simp only [Option.map_some, Option.map_none, Option.getD_some,
    Option.getD_none, Int.ofNat_eq_natCast] <;> omega

/-! ### The loop of `strtoll` -/

theorem wrap_eq {exact : Int} (fits : InRange exact) : wrap exact = exact := by
  have lower := fits.1
  have upper := fits.2
  unfold llongMin at lower
  unfold llongMax at upper
  exact Int.bmod_eq_of_le (by omega) (by omega)

theorem in_range_of_nonneg {exact : Int} (nonneg : 0 ≤ exact) (upper : exact ≤ llongMax) :
    InRange exact := by
  unfold InRange llongMin
  exact ⟨by omega, upper⟩

theorem in_range_neg {exact : Int} (nonneg : 0 ≤ exact) (upper : exact ≤ llongMax) :
    InRange (-exact) := by
  unfold InRange llongMin
  unfold llongMax at upper ⊢
  omega

/-- The number the digits at the front of the string write, behind digits of the value
`start`. -/
def runNumber (base start : Int) (str : List Byte) : Int :=
  valueFrom base start (digitsOf (baseDigit base) str)

/-- What the loop of `strtoll` makes of a run of digits. -/
structure ReadsRun (base start : Int) (str : List Byte) (loop : DigitLoop) : Prop where
  fits : runNumber base start str ≤ llongMax →
    loop.overflow = false ∧ loop.result = runNumber base start str ∧
      loop.rest = afterRun (baseDigit base) str
  exceeds : llongMax < runNumber base start str →
    loop.overflow = true ∧ (afterRun (baseDigit base) str).length < loop.rest.length ∧
      loop.rest.length ≤ str.length
  result : 0 ≤ loop.result ∧ loop.result ≤ llongMax
  operations : ∀ exact ∈ loop.operations, InRange exact

theorem limit_in_range {base digit : Int} (positive : 1 ≤ base) (nonneg : 0 ≤ digit)
    (small : digit ≤ llongMax) :
    InRange digit ∧ InRange (llongMax - digit) ∧ InRange ((llongMax - digit).tdiv base) := by
  have lower : 0 ≤ (llongMax - digit).tdiv base := Int.tdiv_nonneg (by omega) (by omega)
  have upper : (llongMax - digit).tdiv base ≤ llongMax - digit := by
    rw [Int.tdiv_eq_ediv_of_nonneg (by omega)]
    exact Int.ediv_le_self base (by omega)
  exact ⟨in_range_of_nonneg nonneg small, in_range_of_nonneg (by omega) (by omega),
    in_range_of_nonneg lower (by omega)⟩

section Loop

variable {base : Int} (known : base = 8 ∨ base = 10 ∨ base = 16) {c : Byte} {value : Nat}
  (start : Int) (str : List Byte)
include known

theorem strtoll_loop_stop (read : baseDigit base c = none) :
    strtollLoop base start (c :: str) =
      { result := start, rest := c :: str, overflow := false, operations := [] } := by
  have digit : strtollDigit base c = none := by rw [strtoll_digit_eq known, read]; rfl
  simp only [strtollLoop, digit]

theorem strtoll_loop_overflow (read : baseDigit base c = some value) (small : value ≤ llongMax)
    (exceeds : llongMax < start * base + value) :
    strtollLoop base start (c :: str) =
      { result := start
        rest := c :: str
        overflow := true
        operations := [(value : Int), llongMax - value, (llongMax - value).tdiv base] } := by
  have digit : strtollDigit base c = some (value : Int) := by
    rw [strtoll_digit_eq known, read]
    rfl
  have guard := division_guard_iff (by omega : 1 ≤ base) small start
  simp only [strtollLoop, digit]
  rw [if_pos (guard.mpr exceeds)]

theorem strtoll_loop_step (read : baseDigit base c = some value) (small : value ≤ llongMax)
    (nonneg : 0 ≤ start * base) (fits : start * base + value ≤ llongMax) :
    strtollLoop base start (c :: str) =
      { strtollLoop base (start * base + value) str with
        operations := [(value : Int), llongMax - value, (llongMax - value).tdiv base,
          start * base, start * base + value] ++
            (strtollLoop base (start * base + value) str).operations } := by
  have digit : strtollDigit base c = some (value : Int) := by
    rw [strtoll_digit_eq known, read]
    rfl
  have natural : (0 : Int) ≤ value := Int.natCast_nonneg value
  have guard := division_guard_iff (by omega : 1 ≤ base) small start
  have product : wrap (start * base) = start * base :=
    wrap_eq (in_range_of_nonneg nonneg (by omega))
  have sum : wrap (start * base + value) = start * base + value :=
    wrap_eq (in_range_of_nonneg (by omega) fits)
  simp only [strtollLoop, digit]
  rw [if_neg (mt guard.mp (not_lt.mpr fits)), product, sum]

end Loop

theorem run_number_stop {base : Int} {c : Byte} (read : baseDigit base c = none) (start : Int)
    (str : List Byte) : runNumber base start (c :: str) = start := by
  rw [runNumber, (run_stop read str).2.2]
  rfl

theorem run_number_step {base : Int} {c : Byte} {value : Nat} (read : baseDigit base c = some value)
    (start : Int) (str : List Byte) :
    runNumber base start (c :: str) = runNumber base (start * base + value) str := by
  rw [runNumber, (run_cons read str).2.2, value_from_cons, runNumber]

theorem strtoll_loop_reads {base : Int} (known : base = 8 ∨ base = 10 ∨ base = 16) {start : Int}
    (nonneg : 0 ≤ start) (bounded : start ≤ llongMax) (str : List Byte) :
    ReadsRun base start str (strtollLoop base start str) := by
  have positive : 1 ≤ base := by omega
  induction str generalizing start with
  | nil =>
      exact {
        fits := fun _ => ⟨rfl, rfl, rfl⟩
        exceeds := fun exceeds => absurd bounded (not_le.mpr exceeds)
        result := ⟨nonneg, bounded⟩
        operations := by simp [strtollLoop] }
  | cons c str ih =>
      cases read : baseDigit base c with
      | none =>
          have number := run_number_stop read start str
          rw [strtoll_loop_stop known start str read]
          exact {
            fits := fun _ => ⟨rfl, number.symm, (run_stop read str).2.1.symm⟩
            exceeds := fun exceeds => absurd bounded (not_le.mpr (number ▸ exceeds))
            result := ⟨nonneg, bounded⟩
            operations := by simp }
      | some value =>
          have below := base_digit_lt read
          have natural : (0 : Int) ≤ value := Int.natCast_nonneg value
          have small : (value : Int) ≤ llongMax := by
            unfold llongMax
            omega
          have tests := limit_in_range positive natural small
          have after := (run_cons read str).2.1
          have number := run_number_step read start str
          have product : 0 ≤ start * base := Int.mul_nonneg nonneg (by omega)
          have sum : 0 ≤ start * base + value := by omega
          by_cases exceeds : llongMax < start * base + value
          · have grows : start * base + value ≤ runNumber base (start * base + value) str :=
              value_from_ge positive sum _
            have length := run_length (baseDigit base) str
            rw [strtoll_loop_overflow known start str read small exceeds]
            exact {
              fits := fun fits => absurd exceeds (by omega)
              exceeds := fun _ => ⟨rfl, by rw [after, List.length_cons]; omega, le_refl _⟩
              result := ⟨nonneg, bounded⟩
              operations := by simpa using tests }
          · have sumFits : start * base + value ≤ llongMax := not_lt.mp exceeds
            have reads := ih sum sumFits
            rw [strtoll_loop_step known start str read small product sumFits]
            exact {
              fits := fun fits => by
                rw [number, after]
                exact reads.fits (number ▸ fits)
              exceeds := fun beyond => by
                obtain ⟨overflow, behind, inString⟩ := reads.exceeds (number ▸ beyond)
                rw [after, List.length_cons]
                exact ⟨overflow, behind, Nat.le_succ_of_le inString⟩
              result := reads.result
              operations := by
                have stepped : InRange (start * base) ∧ InRange (start * base + value) :=
                  ⟨in_range_of_nonneg product (by omega), in_range_of_nonneg sum sumFits⟩
                rw [List.forall_mem_append]
                exact ⟨by simpa using ⟨tests.1, tests.2.1, tests.2.2, stepped⟩,
                  reads.operations⟩ }

/-! ### What `strtoll` returns -/

/-- The number after optional whitespace and one optional sign: the sign and the
magnitude. -/
def numberIn (base : Int) (chars : List Byte) : Bool × Int :=
  let sign := readSign (chars.dropWhile isSpace)
  (sign.1, Nat.ofDigits base (digitsOf (baseDigit base) sign.2).reverse)

def signedNumber (base : Int) (chars : List Byte) : Int :=
  if (numberIn base chars).1 then -(numberIn base chars).2 else (numberIn base chars).2

def clamp (exact : Int) : Int := max llongMin (min exact llongMax)

theorem detect_base_known {base : Int} (known : base = 8 ∨ base = 10 ∨ base = 16)
    (str : List Byte) : detectBase base str = (base, str) := by
  rw [detectBase, if_neg (by omega)]

theorem run_number_zero (base : Int) (str : List Byte) :
    runNumber base 0 str = Nat.ofDigits base (digitsOf (baseDigit base) str).reverse :=
  value_from_zero base _

theorem number_nonneg {base : Int} (positive : 1 ≤ base) (chars : List Byte) :
    0 ≤ (numberIn base chars).2 := by
  rw [numberIn, ← run_number_zero]
  exact value_from_ge positive (le_refl 0) _

/-- A number is clamped exactly if its magnitude exceeds the largest `long long`; the
smallest one is its own bound. -/
theorem clamp_signed (negative : Bool) {magnitude : Int} (nonneg : 0 ≤ magnitude) :
    clamp (if negative then -magnitude else magnitude) =
      if magnitude ≤ llongMax then if negative then -magnitude else magnitude
      else if negative then llongMin else llongMax := by
  unfold clamp llongMin llongMax
  split_ifs <;> omega

/-- For a base that is given, `strtoll` returns the number of the run of digits, clamped,
and every signed operation on the way is exact. -/
theorem strtoll_clamped (string : CString) {base : Int} (known : base = 8 ∨ base = 10 ∨ base = 16) :
    (strtoll (some string) base).value = clamp (signedNumber base string.chars) ∧
      ∀ exact ∈ (strtoll (some string) base).operations, InRange exact := by
  have nonneg := number_nonneg (by omega : 1 ≤ base) string.chars
  have reads := strtoll_loop_reads known (le_refl 0) (by decide)
    (readSign (string.chars.dropWhile isSpace)).2
  have negated := in_range_neg reads.result.1 reads.result.2
  have number : runNumber base 0 (readSign (string.chars.dropWhile isSpace)).2 =
      (numberIn base string.chars).2 := run_number_zero base _
  have sign : (readSign (string.chars.dropWhile isSpace)).1 = (numberIn base string.chars).1 := rfl
  constructor
  · rw [signedNumber, clamp_signed _ nonneg]
    simp only [strtoll, detect_base_known known, sign]
    by_cases fits : runNumber base 0 (readSign (string.chars.dropWhile isSpace)).2 ≤ llongMax
    · obtain ⟨overflow, result, -⟩ := reads.fits fits
      have stored : (numberIn base string.chars).2 ≤ llongMax := number ▸ fits
      rw [wrap_eq negated, overflow, result, number, if_pos stored]
      rfl
    · obtain ⟨overflow, -⟩ := reads.exceeds (not_le.mp fits)
      have large : ¬(numberIn base string.chars).2 ≤ llongMax := number ▸ fits
      rw [overflow, if_neg large]
      rfl
  · simp only [strtoll, detect_base_known known, List.forall_mem_append]
    refine ⟨reads.operations, ?_⟩
    split_ifs
    · simpa using negated
    · simp

/-- One below the smallest `long long`. -/
def belowMinimum : CString where
  chars := [0x20, 0x2D, 0x39, 0x32, 0x32, 0x33, 0x33, 0x37, 0x32, 0x30, 0x33, 0x36, 0x38, 0x35,
    0x34, 0x37, 0x37, 0x35, 0x38, 0x30, 0x39]
  noNul := by decide

theorem below_minimum_clamped :
    (strtoll (some belowMinimum) 10).value = llongMin ∧
      ∀ exact ∈ (strtoll (some belowMinimum) 10).operations, InRange exact := by
  have read := strtoll_clamped belowMinimum (Or.inr (Or.inl rfl))
  have number : clamp (signedNumber 10 belowMinimum.chars) = llongMin := by decide
  rw [number] at read
  exact read

/-! ### `strtol` beside `strtoll` -/

theorem strtol_digit_none {base : Int} {c : Byte} (read : baseDigit base c = none) :
    strtolDigit c < 0 ∨ strtolDigit c ≥ base := by
  rw [strtol_digit_eq]
  cases value : digitValue c with
  | none => exact Or.inl (by decide)
  | some found =>
      rw [baseDigit, value, Option.filter_eq_none_iff] at read
      have large := read found rfl
      simp only [decide_eq_true_eq, not_lt] at large
      exact Or.inr large

theorem strtol_digit_some {base : Int} {c : Byte} {value : Nat}
    (read : baseDigit base c = some value) : strtolDigit c = value := by
  obtain ⟨found, -⟩ := Option.filter_eq_some_iff.mp read
  rw [strtol_digit_eq, found]
  rfl

theorem strtol_digit_in_range (c : Byte) : InRange (strtolDigit c) := by
  unfold InRange llongMin llongMax strtolDigit
  dsimp only
  split_ifs <;> omega

theorem strtol_loop_rest (base start : Int) (str : List Byte) :
    (strtolLoop base start str).2.1 = afterRun (baseDigit base) str := by
  induction str generalizing start with
  | nil => rfl
  | cons c str ih =>
      cases read : baseDigit base c with
      | none =>
          rw [strtolLoop, if_pos (strtol_digit_none read), (run_stop read str).2.1]
      | some value =>
          have below := base_digit_lt read
          have digit := strtol_digit_some read
          rw [strtolLoop, if_neg (by omega), (run_cons read str).2.1]
          exact ih _

theorem strtol_loop_reads {base : Int} (positive : 1 ≤ base) {start : Int} (nonneg : 0 ≤ start)
    {str : List Byte} (fits : runNumber base start str ≤ llongMax) :
    (strtolLoop base start str).1 = runNumber base start str ∧
      ∀ exact ∈ (strtolLoop base start str).2.2, InRange exact := by
  induction str generalizing start with
  | nil => exact ⟨rfl, by simp [strtolLoop]⟩
  | cons c str ih =>
      have digitFits := strtol_digit_in_range c
      cases read : baseDigit base c with
      | none =>
          rw [strtolLoop, if_pos (strtol_digit_none read), run_number_stop read]
          exact ⟨rfl, by simpa using digitFits⟩
      | some value =>
          have below := base_digit_lt read
          have digit := strtol_digit_some read
          have natural : (0 : Int) ≤ value := Int.natCast_nonneg value
          have product : 0 ≤ start * base := Int.mul_nonneg nonneg (by omega)
          have sum : 0 ≤ start * base + value := by omega
          rw [run_number_step read] at fits ⊢
          have grows : start * base + value ≤ runNumber base (start * base + value) str :=
            value_from_ge positive sum _
          have productFits : InRange (start * base) := in_range_of_nonneg product (by omega)
          have sumFits : InRange (start * base + value) := in_range_of_nonneg sum (by omega)
          obtain ⟨result, operations⟩ := ih sum fits
          rw [strtolLoop, if_neg (by omega), digit]
          dsimp only
          rw [wrap_eq productFits, wrap_eq sumFits]
          refine ⟨result, ?_⟩
          rw [List.forall_mem_append]
          exact ⟨by simpa using ⟨digit ▸ digitFits, productFits, sumFits⟩, operations⟩

theorem strtol_loop_overflows {base : Int} (positive : 1 ≤ base) {start : Int} (nonneg : 0 ≤ start)
    (bounded : start ≤ llongMax) {str : List Byte} (exceeds : llongMax < runNumber base start str) :
    ∃ exact ∈ (strtolLoop base start str).2.2, ¬InRange exact := by
  induction str generalizing start with
  | nil => exact absurd bounded (not_le.mpr exceeds)
  | cons c str ih =>
      cases read : baseDigit base c with
      | none =>
          rw [run_number_stop read] at exceeds
          exact absurd bounded (not_le.mpr exceeds)
      | some value =>
          have below := base_digit_lt read
          have digit := strtol_digit_some read
          have natural : (0 : Int) ≤ value := Int.natCast_nonneg value
          have product : 0 ≤ start * base := Int.mul_nonneg nonneg (by omega)
          rw [run_number_step read] at exceeds
          rw [strtolLoop, if_neg (by omega), digit]
          dsimp only
          by_cases productFits : start * base ≤ llongMax
          · rw [wrap_eq (in_range_of_nonneg product productFits)]
            by_cases sumFits : start * base + value ≤ llongMax
            · have sum : 0 ≤ start * base + value := by omega
              rw [wrap_eq (in_range_of_nonneg sum sumFits)]
              obtain ⟨exact, member, outside⟩ := ih sum sumFits exceeds
              exact ⟨exact, List.mem_append_right _ member, outside⟩
            · exact ⟨start * base + value, by simp, fun inside => sumFits inside.2⟩
          · exact ⟨start * base, by simp, fun inside => productFits inside.2⟩

/-- `strtol` computes without a signed overflow exactly if the number can be stored. -/
theorem strtol_exact_iff (nptr : CString) {base : Int} (positive : 1 ≤ base) :
    (∀ exact ∈ (strtol nptr base).operations, InRange exact) ↔
      runNumber base 0 (readSign (nptr.chars.dropWhile isBlank)).2 ≤ llongMax := by
  have nonneg : 0 ≤ runNumber base 0 (readSign (nptr.chars.dropWhile isBlank)).2 :=
    value_from_ge positive (le_refl 0) _
  simp only [strtol, List.forall_mem_append]
  constructor
  · intro exact
    by_contra exceeds
    obtain ⟨result, member, outside⟩ := strtol_loop_overflows positive (le_refl 0) (by decide)
      (not_le.mp exceeds)
    exact outside (exact.1 result member)
  · intro fits
    obtain ⟨result, operations⟩ := strtol_loop_reads positive (le_refl 0) fits
    refine ⟨operations, ?_⟩
    rw [result]
    have negated := in_range_neg nonneg fits
    split_ifs
    · simpa using negated
    · simp

theorem space_of_blank {c : Byte} (blank : isBlank c) : isSpace c := by
  unfold isBlank at blank
  simp only [isSpace, blank, Bool.true_or]

theorem space_no_number {c : Byte} (space : isSpace c) :
    digitValue c = none ∧ c ≠ 0x2D ∧ c ≠ 0x2B := by
  simp only [isSpace, Bool.or_eq_true, beq_iff_eq] at space
  rcases space with ((((rfl | rfl) | rfl) | rfl) | rfl) | rfl <;> decide

/-- The two parsers leave the whitespace at the same place, or `strtol` stops at a
character that `strtoll` goes on to skip. -/
theorem skipped_cases (chars : List Byte) :
    ((∀ c ∈ chars.takeWhile isSpace, isBlank c) ∧
        chars.dropWhile isBlank = chars.dropWhile isSpace) ∨
      ¬(∀ c ∈ chars.takeWhile isSpace, isBlank c) ∧
        ∃ c rest, chars.dropWhile isBlank = c :: rest ∧ isSpace c ∧
          (chars.dropWhile isSpace).length ≤ rest.length := by
  induction chars with
  | nil => exact Or.inl ⟨by simp, rfl⟩
  | cons c chars ih =>
      by_cases space : isSpace c
      · by_cases blank : isBlank c
        · simpa [space, blank] using ih
        · have shorter := (List.dropWhile_suffix isSpace (l := chars)).length_le
          exact Or.inr ⟨by simp [space, blank], c, chars, by simp [blank], space,
            by simpa [space] using shorter⟩
      · have blank : ¬isBlank c := fun blank => space (space_of_blank blank)
        exact Or.inl ⟨by simp [space], by simp [space, blank]⟩

theorem read_sign_suffix (str : List Byte) : (readSign str).2 <:+ str := by
  unfold readSign
  split_ifs
  · exact List.tail_suffix str
  · exact List.tail_suffix str
  · exact List.suffix_rfl

theorem strtoll_rest_length {base start : Int} {str : List Byte} {loop : DigitLoop}
    (reads : ReadsRun base start str loop) : loop.rest.length ≤ str.length := by
  have length := run_length (baseDigit base) str
  by_cases fits : runNumber base start str ≤ llongMax
  · rw [(reads.fits fits).2.2]
    omega
  · exact (reads.exceeds (not_le.mp fits)).2.2

/-- A space stops `strtol` where it stands. -/
theorem strtol_position_at_space {nptr : CString} {c : Byte} {rest : List Byte} (base : Int)
    (stopped : nptr.chars.dropWhile isBlank = c :: rest) (space : isSpace c) :
    (strtol nptr base).position = nptr.chars.length - (rest.length + 1) := by
  obtain ⟨noDigit, noMinus, noPlus⟩ := space_no_number space
  have sign : readSign (c :: rest) = (false, c :: rest) := by
    rw [readSign, List.headD_cons, if_neg noMinus, if_neg noPlus]
  have none : baseDigit base c = none := by
    rw [baseDigit, noDigit]
    rfl
  simp only [strtol, stopped, sign, strtol_loop_rest, (run_stop none rest).2.1, List.length_cons]

/-- `strtol` and `strtoll` agree exactly on the strings with no whitespace but spaces and
tabs whose number can be stored. -/
theorem parsers_agree_iff (string : CString) {base : Int}
    (known : base = 8 ∨ base = 10 ∨ base = 16) :
    (strtol string base).value = (strtoll (some string) base).value ∧
        (strtol string base).position = (strtoll (some string) base).position ↔
      (∀ c ∈ string.chars.takeWhile isSpace, isBlank c) ∧
        (numberIn base string.chars).2 ≤ llongMax := by
  have reads := strtoll_loop_reads known (le_refl 0) (by decide)
    (readSign (string.chars.dropWhile isSpace)).2
  have number : runNumber base 0 (readSign (string.chars.dropWhile isSpace)).2 =
      (numberIn base string.chars).2 := run_number_zero base _
  have signLength := (read_sign_suffix (string.chars.dropWhile isSpace)).length_le
  have restLength := strtoll_rest_length reads
  have position : (strtoll (some string) base).position = string.chars.length -
      (strtollLoop base 0 (readSign (string.chars.dropWhile isSpace)).2).rest.length := by
    simp only [strtoll, detect_base_known known]
  rcases skipped_cases string.chars with ⟨blanks, same⟩ | ⟨other, c, rest, stopped, space, behind⟩
  · have strtolPosition : (strtol string base).position = string.chars.length -
        (afterRun (baseDigit base) (readSign (string.chars.dropWhile isSpace)).2).length := by
      simp only [strtol, same, strtol_loop_rest]
    by_cases fits : runNumber base 0 (readSign (string.chars.dropWhile isSpace)).2 ≤ llongMax
    · obtain ⟨overflow, result, rest⟩ := reads.fits fits
      have values : (strtol string base).value = (strtoll (some string) base).value := by
        simp only [strtol, same, (strtol_loop_reads (by omega) (le_refl 0) fits).1, strtoll,
          detect_base_known known, overflow, result, Bool.false_eq_true, if_false]
      rw [position, strtolPosition, rest]
      exact ⟨fun _ => ⟨blanks, number ▸ fits⟩, fun _ => ⟨values, rfl⟩⟩
    · obtain ⟨-, beyond, inString⟩ := reads.exceeds (not_le.mp fits)
      have inChars := (List.dropWhile_suffix isSpace (l := string.chars)).length_le
      rw [position, strtolPosition]
      exact ⟨fun agree => absurd agree.2 (by omega), fun holds => absurd (number ▸ holds.2) fits⟩
  · have strtolPosition := strtol_position_at_space base stopped space
    have inChars := (List.dropWhile_suffix isBlank (l := string.chars)).length_le
    rw [stopped, List.length_cons] at inChars
    rw [position, strtolPosition]
    exact ⟨fun agree => absurd agree.2 (by omega), fun holds => absurd holds.1 other⟩

/-- A tab and the digit seven. -/
def tabSeven : CString where
  chars := [0x09, 0x37]
  noNul := by decide

theorem parsers_agree_on_tab :
    (strtol tabSeven 8).value = (strtoll (some tabSeven) 8).value ∧
      (strtol tabSeven 8).position = (strtoll (some tabSeven) 8).position :=
  (parsers_agree_iff tabSeven (Or.inl rfl)).mpr ⟨by decide, by decide⟩

/-- A newline and the digit one. -/
def newlineOne : CString where
  chars := [0x0A, 0x31]
  noNul := by decide

theorem parsers_differ_on_newline :
    (strtol newlineOne 10).value = 0 ∧ (strtol newlineOne 10).position = 0 ∧
      (strtoll (some newlineOne) 10).value = 1 ∧
      (strtoll (some newlineOne) 10).position = 2 := by
  decide

end KittyOs.NumberParsing
