import KittyOs.NumberParsing

/-!
# Where a number ends

ISO C has `strtoll` store the end of the subject sequence: the longest front of the
string, after its whitespace, that is a number with an optional sign, or the start
of the string if there is none. The forms of a number are given as a grammar here,
the longest of them is computed, and the end that `strtoll` stores is compared with
it. They differ on a number that cannot be stored, on a string without a number
that starts with whitespace or a sign, and about the mark `0x`: base 16 does not
read over it, and base 0 reads over it when no hexadecimal digit follows.
-/

namespace KittyOs.IsoNumbers

open KittyOs.Lib.ByteMemory KittyOs.Lib.DigitRuns KittyOs.RuntimeBlob KittyOs.NumberParsing

set_option autoImplicit false

/-! ### The subject sequence -/

/-- The expected forms of a number without its sign. -/
inductive Numeral : Int → List Byte → Prop
  | digits {base : Int} {run : List Byte} (given : base ≠ 0) (nonempty : run ≠ [])
      (all : ∀ c ∈ run, (baseDigit base c).isSome) : Numeral base run
  | marked {base : Int} {mark : Byte} {run : List Byte} (hexadecimal : base = 16 ∨ base = 0)
      (letter : mark = 0x78 ∨ mark = 0x58) (nonempty : run ≠ [])
      (all : ∀ c ∈ run, (baseDigit 16 c).isSome) : Numeral base (0x30 :: mark :: run)
  | decimal {first : Byte} {run : List Byte} (nonzero : first ≠ 0x30)
      (all : ∀ c ∈ first :: run, (baseDigit 10 c).isSome) : Numeral 0 (first :: run)
  | octal {run : List Byte} (all : ∀ c ∈ run, (baseDigit 8 c).isSome) : Numeral 0 (0x30 :: run)

inductive Subject (base : Int) : List Byte → Prop
  | unsigned {number : List Byte} (form : Numeral base number) : Subject base number
  | signed {sign : Byte} {number : List Byte} (plusOrMinus : sign = 0x2B ∨ sign = 0x2D)
      (form : Numeral base number) : Subject base (sign :: number)

/-- The longest front of the text of that form. -/
structure Longest (Form : List Byte → Prop) (text front : List Byte) : Prop where
  initial : front <+: text
  form : Form front
  longest : ∀ other, other <+: text → Form other → other.length ≤ front.length

/-- The offset that ISO C prescribes. -/
inductive IsoEnd (base : Int) (chars : List Byte) : Nat → Prop
  | converted {subject : List Byte}
      (longest : Longest (Subject base) (chars.dropWhile isSpace) subject) :
      IsoEnd base chars ((chars.takeWhile isSpace).length + subject.length)
  | unconverted (absent : ∀ subject, subject <+: chars.dropWhile isSpace → ¬Subject base subject) :
      IsoEnd base chars 0

/-! ### The longest number -/

/-- The mark of a hexadecimal number, with or without a digit behind it. -/
def startsHex (text : List Byte) : Bool :=
  text.headD 0 == 0x30 && (text.tail.headD 0 == 0x78 || text.tail.headD 0 == 0x58)

/-- The mark with a hexadecimal digit behind it. -/
def hexMarked (text : List Byte) : Bool :=
  startsHex text && (baseDigit 16 (text.tail.tail.headD 0)).isSome

def numeral (base : Int) (text : List Byte) : List Byte :=
  if (base = 16 ∨ base = 0) ∧ hexMarked text then
    text.take 2 ++ runOf (baseDigit 16) (text.drop 2)
  else if base = 0 then
    if text.headD 0 = 0x30 then 0x30 :: runOf (baseDigit 8) text.tail
    else runOf (baseDigit 10) text
  else runOf (baseDigit base) text

theorem head_split {text : List Byte} {c : Byte} (nonzero : c ≠ 0) (head : text.headD 0 = c) :
    text = c :: text.tail := by
  cases text with
  | nil => exact absurd head.symm nonzero
  | cons first rest =>
      rw [List.headD_cons] at head
      rw [head, List.tail_cons]

theorem starts_hex_split {text : List Byte} (starts : startsHex text) :
    ∃ mark rest, text = 0x30 :: mark :: rest ∧ (mark = 0x78 ∨ mark = 0x58) := by
  simp only [startsHex, Bool.and_eq_true, Bool.or_eq_true, beq_iff_eq] at starts
  obtain ⟨zero, letter⟩ := starts
  have first := head_split (by decide) zero
  rcases letter with lower | upper
  · exact ⟨0x78, text.tail.tail, by rw [← head_split (by decide) lower]; exact first, Or.inl rfl⟩
  · exact ⟨0x58, text.tail.tail, by rw [← head_split (by decide) upper]; exact first, Or.inr rfl⟩

theorem starts_hex_of_split {mark : Byte} (letter : mark = 0x78 ∨ mark = 0x58)
    (rest : List Byte) : startsHex (0x30 :: mark :: rest) := by
  rcases letter with rfl | rfl
  · rfl
  · rfl

theorem letter_no_digit {mark : Byte} (letter : mark = 0x78 ∨ mark = 0x58) :
    baseDigit 16 mark = none ∧ baseDigit 8 mark = none := by
  rcases letter with rfl | rfl
  · decide
  · decide

theorem terminator_no_digit (base : Int) : baseDigit base 0 = none := rfl

theorem run_empty_iff {base : Int} {text : List Byte} :
    runOf (baseDigit base) text = [] ↔ baseDigit base (text.headD 0) = none := by
  cases text with
  | nil => exact ⟨fun _ => terminator_no_digit base, fun _ => rfl⟩
  | cons c text =>
      rw [List.headD_cons]
      cases read : baseDigit base c with
      | none => exact ⟨fun _ => rfl, fun _ => (run_stop read text).1⟩
      | some value =>
          rw [(run_cons read text).1]
          exact ⟨fun empty => absurd empty (List.cons_ne_nil _ _), fun stop => nomatch stop⟩

theorem hex_marked_of_initial {mark : Byte} {run text : List Byte}
    (initial : 0x30 :: mark :: run <+: text) (letter : mark = 0x78 ∨ mark = 0x58)
    (nonempty : run ≠ []) (all : ∀ c ∈ run, (baseDigit 16 c).isSome) : hexMarked text := by
  obtain ⟨rest, rfl⟩ := initial
  obtain ⟨first, run, rfl⟩ := List.exists_cons_of_ne_nil nonempty
  have digit := all first List.mem_cons_self
  rw [hexMarked, Bool.and_eq_true]
  exact ⟨starts_hex_of_split letter _, digit⟩

/-- What `numeral` computes: the longest number, or nothing if there is none. -/
structure LongestNumeral (base : Int) (text number : List Byte) : Prop where
  initial : number <+: text
  form : number ≠ [] → Numeral base number
  longest : ∀ other, other <+: text → Numeral base other → other.length ≤ number.length

theorem hex_marked_split {text : List Byte} (marked : hexMarked text) :
    ∃ mark rest, text = 0x30 :: mark :: rest ∧ (mark = 0x78 ∨ mark = 0x58) ∧
      runOf (baseDigit 16) rest ≠ [] := by
  rw [hexMarked, Bool.and_eq_true] at marked
  obtain ⟨mark, rest, rfl, letter⟩ := starts_hex_split marked.1
  refine ⟨mark, rest, rfl, letter, ?_⟩
  intro empty
  have digit : (baseDigit 16 (rest.headD 0)).isSome := marked.2
  rw [run_empty_iff.mp empty] at digit
  exact absurd digit (by decide)

theorem numeral_of_marked {base : Int} {mark : Byte} {rest : List Byte}
    (hexadecimal : base = 16 ∨ base = 0) (marked : hexMarked (0x30 :: mark :: rest)) :
    numeral base (0x30 :: mark :: rest) = 0x30 :: mark :: runOf (baseDigit 16) rest := by
  rw [numeral, if_pos ⟨hexadecimal, marked⟩]
  rfl

theorem run_of_mark {mark : Byte} (letter : mark = 0x78 ∨ mark = 0x58) (rest : List Byte) :
    runOf (baseDigit 16) (0x30 :: mark :: rest) = [0x30] := by
  have zero : baseDigit 16 0x30 = some 0 := by decide
  rw [(run_cons zero _).1, (run_stop (letter_no_digit letter).1 rest).1]

theorem numeral_marked {base : Int} {text : List Byte} (hexadecimal : base = 16 ∨ base = 0)
    (marked : hexMarked text) : LongestNumeral base text (numeral base text) := by
  obtain ⟨mark, rest, rfl, letter, follows⟩ := hex_marked_split marked
  rw [numeral_of_marked hexadecimal marked]
  exact {
    initial := by
      rw [List.cons_prefix_cons, List.cons_prefix_cons]
      exact ⟨rfl, rfl, run_initial _ rest⟩
    form := fun _ => Numeral.marked hexadecimal letter follows fun c member => run_digits member
    longest := by
      intro other initial form
      cases form with
      | digits given nonempty all =>
          have sixteen : base = 16 := hexadecimal.resolve_right given
          subst sixteen
          have bound := run_longest initial all
          rw [run_of_mark letter] at bound
          simp only [List.length_cons, List.length_nil] at bound ⊢
          omega
      | marked hexadecimal' letter' nonempty all =>
          rw [List.cons_prefix_cons, List.cons_prefix_cons] at initial
          have bound := run_longest initial.2.2 all
          simp only [List.length_cons]
          omega
      | decimal nonzero all =>
          rw [List.cons_prefix_cons] at initial
          exact absurd initial.1 nonzero
      | octal all =>
          rw [List.cons_prefix_cons] at initial
          have bound := run_longest initial.2 all
          rw [(run_stop (letter_no_digit letter).2 rest).1] at bound
          simp only [List.length_cons, List.length_nil] at bound ⊢
          omega }

theorem numeral_unmarked {base : Int} {text : List Byte}
    (unmarked : ¬((base = 16 ∨ base = 0) ∧ hexMarked text)) :
    LongestNumeral base text (numeral base text) := by
  rw [numeral, if_neg unmarked]
  by_cases detected : base = 0
  · subst detected
    rw [if_pos rfl]
    by_cases zero : text.headD 0 = 0x30
    · rw [if_pos zero]
      have split := head_split (by decide) zero
      exact {
        initial := by
          nth_rewrite 2 [split]
          rw [List.cons_prefix_cons]
          exact ⟨rfl, run_initial _ text.tail⟩
        form := fun _ => Numeral.octal fun c member => run_digits member
        longest := by
          intro other initial form
          cases form with
          | digits given nonempty all => exact absurd rfl given
          | marked hexadecimal letter nonempty all =>
              have marked := hex_marked_of_initial initial letter nonempty all
              exact absurd ⟨Or.inr rfl, marked⟩ unmarked
          | decimal nonzero all =>
              rw [split, List.cons_prefix_cons] at initial
              exact absurd initial.1 nonzero
          | octal all =>
              rw [split, List.cons_prefix_cons] at initial
              exact Nat.succ_le_succ (run_longest initial.2 all) }
    · rw [if_neg zero]
      have noZero {run : List Byte} (initial : 0x30 :: run <+: text) : False := by
        obtain ⟨rest, rfl⟩ := initial
        exact zero rfl
      exact {
        initial := run_initial _ text
        form := by
          intro nonempty
          obtain ⟨first, run, split⟩ := List.exists_cons_of_ne_nil nonempty
          have digits : ∀ c ∈ first :: run, (baseDigit 10 c).isSome := fun c member =>
            run_digits (split ▸ member)
          have initial := run_initial (baseDigit 10) text
          rw [split] at initial ⊢
          exact Numeral.decimal (fun equal => noZero (equal ▸ initial)) digits
        longest := by
          intro other initial form
          cases form with
          | digits given nonempty all => exact absurd rfl given
          | marked hexadecimal letter nonempty all => exact (noZero initial).elim
          | decimal nonzero all => exact run_longest initial all
          | octal all => exact (noZero initial).elim }
  · rw [if_neg detected]
    exact {
      initial := run_initial _ text
      form := fun nonempty => Numeral.digits detected nonempty fun c member => run_digits member
      longest := by
        intro other initial form
        cases form with
        | digits given nonempty all => exact run_longest initial all
        | marked hexadecimal letter nonempty all =>
            have marked := hex_marked_of_initial initial letter nonempty all
            exact absurd ⟨hexadecimal, marked⟩ unmarked
        | decimal nonzero all => exact absurd rfl detected
        | octal all => exact absurd rfl detected }

theorem numeral_longest (base : Int) (text : List Byte) :
    LongestNumeral base text (numeral base text) := by
  by_cases marked : (base = 16 ∨ base = 0) ∧ hexMarked text
  · exact numeral_marked marked.1 marked.2
  · exact numeral_unmarked marked

/-! ### The end of the subject sequence -/

theorem numeral_first {base : Int} {number : List Byte} (form : Numeral base number) :
    number ≠ [] ∧ (digitValue (number.headD 0)).isSome := by
  have value {base : Int} {c : Byte} (digit : (baseDigit base c).isSome) :
      (digitValue c).isSome := by
    cases read : digitValue c with
    | none =>
        rw [baseDigit, read] at digit
        exact digit
    | some value => rfl
  cases form with
  | digits given nonempty all =>
      obtain ⟨first, run, rfl⟩ := List.exists_cons_of_ne_nil nonempty
      exact ⟨nonempty, value (all first List.mem_cons_self)⟩
  | marked hexadecimal letter nonempty all => exact ⟨List.cons_ne_nil _ _, rfl⟩
  | decimal nonzero all => exact ⟨List.cons_ne_nil _ _, value (all _ List.mem_cons_self)⟩
  | octal all => exact ⟨List.cons_ne_nil _ _, rfl⟩

/-- The part of the string behind the whitespace and the sign. -/
def unsignedPart (chars : List Byte) : List Byte := (readSign (chars.dropWhile isSpace)).2

theorem sign_cases (text : List Byte) :
    (∃ sign, (sign = 0x2B ∨ sign = 0x2D) ∧ text = sign :: (readSign text).2) ∨
      (readSign text).2 = text ∧ text.headD 0 ≠ 0x2B ∧ text.headD 0 ≠ 0x2D := by
  unfold readSign
  split_ifs with minus plus
  · exact Or.inl ⟨0x2D, Or.inr rfl, head_split (by decide) minus⟩
  · exact Or.inl ⟨0x2B, Or.inl rfl, head_split (by decide) plus⟩
  · exact Or.inr ⟨rfl, plus, minus⟩

theorem sign_no_digit {sign : Byte} (plusOrMinus : sign = 0x2B ∨ sign = 0x2D) :
    digitValue sign = none := by
  rcases plusOrMinus with rfl | rfl
  · decide
  · decide

/-- A subject sequence is the sign, if there is one, and a number behind it. -/
theorem subject_initial_iff (base : Int) (text : List Byte) (length : Nat) :
    (∃ subject, subject <+: text ∧ Subject base subject ∧ subject.length = length) ↔
      ∃ number, number <+: (readSign text).2 ∧ Numeral base number ∧
        text.length - (readSign text).2.length + number.length = length := by
  rcases sign_cases text with ⟨sign, plusOrMinus, split⟩ | ⟨same, noPlus, noMinus⟩
  · have noDigit := sign_no_digit plusOrMinus
    have skipped : text.length - (readSign text).2.length = 1 := by
      have lengths := congrArg List.length split
      rw [List.length_cons] at lengths
      omega
    rw [skipped]
    constructor
    · rintro ⟨subject, initial, form, rfl⟩
      rw [split] at initial
      cases form with
      | unsigned form =>
          obtain ⟨nonempty, digit⟩ := numeral_first form
          obtain ⟨first, rest, rfl⟩ := List.exists_cons_of_ne_nil nonempty
          rw [List.cons_prefix_cons] at initial
          rw [List.headD_cons, initial.1, noDigit] at digit
          exact absurd digit (by decide)
      | signed plusOrMinus form =>
          rw [List.cons_prefix_cons] at initial
          exact ⟨_, initial.2, form, by rw [List.length_cons]; omega⟩
    · rintro ⟨number, initial, form, rfl⟩
      refine ⟨sign :: number, ?_, Subject.signed plusOrMinus form, by rw [List.length_cons]; omega⟩
      rw [split, List.cons_prefix_cons]
      exact ⟨rfl, initial⟩
  · rw [same, Nat.sub_self]
    constructor
    · rintro ⟨subject, initial, form, rfl⟩
      cases form with
      | unsigned form => exact ⟨subject, initial, form, Nat.zero_add _⟩
      | signed plusOrMinus form =>
          obtain ⟨rest, rfl⟩ := initial
          rcases plusOrMinus with rfl | rfl
          · exact absurd rfl noPlus
          · exact absurd rfl noMinus
    · rintro ⟨number, initial, form, rfl⟩
      exact ⟨number, initial, Subject.unsigned form, (Nat.zero_add _).symm⟩

/-- The end of the subject sequence, computed. -/
def isoPosition (base : Int) (chars : List Byte) : Nat :=
  if numeral base (unsignedPart chars) = [] then 0
  else chars.length - (unsignedPart chars).length + (numeral base (unsignedPart chars)).length

theorem iso_end_iff (base : Int) (chars : List Byte) (position : Nat) :
    IsoEnd base chars position ↔ position = isoPosition base chars := by
  have found := numeral_longest base (unsignedPart chars)
  have subjects := subject_initial_iff base (chars.dropWhile isSpace)
  have shorter := (read_sign_suffix (chars.dropWhile isSpace)).length_le
  have lengths : (chars.takeWhile isSpace).length + (chars.dropWhile isSpace).length =
      chars.length := by
    rw [← List.length_append, List.takeWhile_append_dropWhile]
  unfold isoPosition
  by_cases empty : numeral base (unsignedPart chars) = []
  · have absent : ∀ subject, subject <+: chars.dropWhile isSpace → ¬Subject base subject := by
      intro subject initial form
      obtain ⟨number, inside, numberForm, -⟩ :=
        (subjects subject.length).mp ⟨subject, initial, form, rfl⟩
      have bound := found.longest number inside numberForm
      rw [empty] at bound
      exact (numeral_first numberForm).1 (List.eq_nil_of_length_eq_zero (Nat.le_zero.mp bound))
    rw [if_pos empty]
    constructor
    · intro ends
      cases ends with
      | converted longest => exact absurd longest.form (absent _ longest.initial)
      | unconverted absent => rfl
    · rintro rfl
      exact IsoEnd.unconverted absent
  · obtain ⟨subject, initial, form, length⟩ := (subjects _).mpr
      ⟨numeral base (unsignedPart chars), found.initial, found.form empty, rfl⟩
    have longest : ∀ other, other <+: chars.dropWhile isSpace → Subject base other →
        other.length ≤ subject.length := by
      intro other inside otherForm
      obtain ⟨number, numberInside, numberForm, numberLength⟩ :=
        (subjects other.length).mp ⟨other, inside, otherForm, rfl⟩
      have bound := found.longest number numberInside numberForm
      omega
    have place : (chars.takeWhile isSpace).length + subject.length =
        chars.length - (unsignedPart chars).length +
          (numeral base (unsignedPart chars)).length := by
      unfold unsignedPart at length ⊢
      omega
    rw [if_neg empty, ← place]
    constructor
    · intro ends
      cases ends with
      | converted other =>
          have upper := longest _ other.initial other.form
          have lower := other.longest subject initial form
          omega
      | unconverted absent => exact absurd form (absent subject initial)
    · rintro rfl
      exact IsoEnd.converted ⟨initial, form, longest⟩

/-! ### The end that `strtoll` stores -/

theorem unsigned_part_suffix (chars : List Byte) : unsignedPart chars <:+ chars :=
  (read_sign_suffix _).trans (List.dropWhile_suffix isSpace)

/-- The end is that of the run of digits exactly if their number can be stored. -/
theorem position_eq_iff {string : CString} {base radix : Int} {text : List Byte}
    (known : radix = 8 ∨ radix = 10 ∨ radix = 16)
    (detected : detectBase base (unsignedPart string.chars) = (radix, text))
    (inside : text.length ≤ string.chars.length) :
    (strtoll (some string) base).position =
        string.chars.length - text.length + (runOf (baseDigit radix) text).length ↔
      runNumber radix 0 text ≤ llongMax := by
  have reads := strtoll_loop_reads known (le_refl 0) (by decide) text
  have length := run_length (baseDigit radix) text
  have position : (strtoll (some string) base).position =
      string.chars.length - (strtollLoop radix 0 text).rest.length := by
    unfold unsignedPart at detected
    simp only [strtoll, detected]
  rw [position]
  by_cases fits : runNumber radix 0 text ≤ llongMax
  · rw [(reads.fits fits).2.2]
    exact ⟨fun _ => fits, fun _ => by omega⟩
  · obtain ⟨-, beyond, inText⟩ := reads.exceeds (not_le.mp fits)
    exact ⟨fun equal => absurd equal (by omega), fun small => absurd small fits⟩

theorem run_number_empty {radix : Int} {text : List Byte}
    (empty : runOf (baseDigit radix) text = []) : runNumber radix 0 text = 0 := by
  rw [runNumber, digitsOf, empty]
  rfl

/-- The string has a number, or it starts where a number should. -/
def Begun (base : Int) (chars : List Byte) : Prop :=
  (baseDigit base ((unsignedPart chars).headD 0)).isSome ∨ unsignedPart chars = chars

/-- When the number is all that stands behind the sign, only a string without digits is a
question. -/
theorem run_end_iff {string : CString} {base radix : Int}
    (known : radix = 8 ∨ radix = 10 ∨ radix = 16)
    (detected : detectBase base (unsignedPart string.chars) = (radix, unsignedPart string.chars))
    (plain : numeral base (unsignedPart string.chars) =
      runOf (baseDigit radix) (unsignedPart string.chars)) :
    (strtoll (some string) base).position = isoPosition base string.chars ↔
      runNumber radix 0 (unsignedPart string.chars) ≤ llongMax ∧ Begun radix string.chars := by
  have suffix := unsigned_part_suffix string.chars
  have shorter := suffix.length_le
  have ends := position_eq_iff known detected shorter
  rw [isoPosition, plain, Begun]
  by_cases empty : runOf (baseDigit radix) (unsignedPart string.chars) = []
  · have fits : runNumber radix 0 (unsignedPart string.chars) ≤ llongMax := by
      rw [run_number_empty empty]
      decide
    have noDigit := run_empty_iff.mp empty
    rw [if_pos empty, ends.mpr fits, empty, noDigit]
    rw [List.length_nil, Nat.add_zero]
    constructor
    · intro start
      exact ⟨fits, Or.inr (suffix.eq_of_length (by omega))⟩
    · intro holds
      rcases holds.2 with digit | whole
      · exact absurd digit (by decide)
      · rw [whole, Nat.sub_self]
  · have digit : (baseDigit radix ((unsignedPart string.chars).headD 0)).isSome := by
      rw [Option.isSome_iff_ne_none]
      exact fun none => empty (run_empty_iff.mpr none)
    rw [if_neg empty, ends]
    exact ⟨fun fits => ⟨fits, Or.inl digit⟩, fun holds => holds.1⟩

/-- The strings on which `strtoll` stores the end that ISO C prescribes. -/
structure EndsAsIso (base : Int) (chars : List Byte) : Prop where
  fits : runNumber (detectBase base (unsignedPart chars)).1 0
    (detectBase base (unsignedPart chars)).2 ≤ llongMax
  begun : Begun (if base = 0 then 10 else base) chars
  unmarked : base = 16 → hexMarked (unsignedPart chars) = false
  completed : base = 0 → startsHex (unsignedPart chars) → hexMarked (unsignedPart chars)

theorem given_base_iff (string : CString) {base : Int}
    (known : base = 8 ∨ base = 10 ∨ base = 16) :
    (strtoll (some string) base).position = isoPosition base string.chars ↔
      EndsAsIso base string.chars := by
  have given : base ≠ 0 := by omega
  have detected := detect_base_known known (unsignedPart string.chars)
  by_cases marked : base = 16 ∧ hexMarked (unsignedPart string.chars)
  · obtain ⟨sixteen, marked⟩ := marked
    have shorter := (unsigned_part_suffix string.chars).length_le
    have ends := position_eq_iff known detected shorter
    obtain ⟨mark, rest, split, letter, follows⟩ := hex_marked_split marked
    have positive := List.length_pos_iff.mpr follows
    subst sixteen
    rw [split] at ends marked
    rw [run_of_mark letter] at ends
    have fits : runNumber 16 0 (0x30 :: mark :: rest) ≤ llongMax := by
      have zero : baseDigit 16 0x30 = some 0 := by decide
      rw [run_number_step zero, run_number_stop (letter_no_digit letter).1]
      decide
    have differ : (strtoll (some string) 16).position ≠ isoPosition 16 string.chars := by
      rw [ends.mpr fits, isoPosition, split, numeral_of_marked (Or.inl rfl) marked,
        if_neg (List.cons_ne_nil _ _)]
      simp only [List.length_cons, List.length_nil]
      omega
    refine ⟨fun equal => absurd equal differ, fun holds => ?_⟩
    have unmarked := holds.unmarked rfl
    rw [split, marked] at unmarked
    exact absurd unmarked (by decide)
  · have plain : numeral base (unsignedPart string.chars) =
        runOf (baseDigit base) (unsignedPart string.chars) := by
      rw [numeral, if_neg (fun both => marked ⟨both.1.resolve_right given, both.2⟩),
        if_neg given]
    rw [run_end_iff known detected plain]
    constructor
    · intro holds
      exact {
        fits := by
          rw [detected]
          exact holds.1
        begun := by
          rw [if_neg given]
          exact holds.2
        unmarked := fun sixteen => Bool.eq_false_iff.mpr fun found => marked ⟨sixteen, found⟩
        completed := fun zero => absurd zero given }
    · intro holds
      have fits := holds.fits
      have begun := holds.begun
      rw [detected] at fits
      rw [if_neg given] at begun
      exact ⟨fits, begun⟩

theorem starts_of_marked {text : List Byte} (marked : hexMarked text) : startsHex text := by
  rw [hexMarked, Bool.and_eq_true] at marked
  exact marked.1

theorem numeral_octal {text : List Byte} (zero : text.headD 0 = 0x30) (unmarked : ¬hexMarked text) :
    numeral 0 text = 0x30 :: runOf (baseDigit 8) text.tail := by
  rw [numeral, if_neg fun both => unmarked both.2, if_pos rfl, if_pos zero]

section Detected

variable {string : CString}

/-- Behind a zero, the mark or an octal number decides. -/
theorem zero_ends_iff (zero : (unsignedPart string.chars).headD 0 = 0x30)
    (complete : startsHex (unsignedPart string.chars) → hexMarked (unsignedPart string.chars)) :
    EndsAsIso 0 string.chars ↔
      runNumber (detectBase 0 (unsignedPart string.chars)).1 0
        (detectBase 0 (unsignedPart string.chars)).2 ≤ llongMax := by
  refine ⟨EndsAsIso.fits, fun fits => ?_⟩
  exact {
    fits := fits
    begun := by
      rw [Begun, if_pos rfl, zero]
      exact Or.inl (by decide)
    unmarked := fun sixteen => absurd sixteen (by decide)
    completed := fun _ => complete }

theorem detected_hex_iff (starts : startsHex (unsignedPart string.chars)) :
    (strtoll (some string) 0).position = isoPosition 0 string.chars ↔
      EndsAsIso 0 string.chars := by
  have shorter := (unsigned_part_suffix string.chars).length_le
  obtain ⟨mark, rest, split, letter⟩ := starts_hex_split starts
  have detected : detectBase 0 (unsignedPart string.chars) = (16, rest) := by
    rw [split]
    exact if_pos letter
  have length : (unsignedPart string.chars).length = rest.length + 2 := by
    rw [split]
    rfl
  have zero : (unsignedPart string.chars).headD 0 = 0x30 := by
    rw [split]
    rfl
  have ends := position_eq_iff (Or.inr (Or.inr rfl)) detected (by omega)
  by_cases marked : hexMarked (unsignedPart string.chars)
  · have place : isoPosition 0 string.chars =
        string.chars.length - rest.length + (runOf (baseDigit 16) rest).length := by
      rw [isoPosition, length, split, numeral_of_marked (Or.inr rfl) (split ▸ marked),
        if_neg (List.cons_ne_nil _ _)]
      simp only [List.length_cons]
      omega
    rw [place, ends, zero_ends_iff zero fun _ => marked, detected]
  · have empty : runOf (baseDigit 16) rest = [] := by
      rw [run_empty_iff, ← Option.not_isSome_iff_eq_none]
      intro digit
      rw [hexMarked, starts, split] at marked
      exact marked digit
    have fits : runNumber 16 0 rest ≤ llongMax := by
      rw [run_number_empty empty]
      decide
    have octal : numeral 0 (unsignedPart string.chars) = [0x30] := by
      rw [numeral_octal zero marked, split, List.tail_cons,
        (run_stop (letter_no_digit letter).2 rest).1]
    have differ : (strtoll (some string) 0).position ≠ isoPosition 0 string.chars := by
      rw [ends.mpr fits, empty, isoPosition, octal, if_neg (List.cons_ne_nil _ _)]
      simp only [List.length_cons, List.length_nil]
      omega
    exact ⟨fun equal => absurd equal differ,
      fun holds => absurd (holds.completed rfl starts) marked⟩

theorem detected_octal_iff (zero : (unsignedPart string.chars).headD 0 = 0x30)
    (other : ¬startsHex (unsignedPart string.chars)) :
    (strtoll (some string) 0).position = isoPosition 0 string.chars ↔
      EndsAsIso 0 string.chars := by
  have shorter := (unsigned_part_suffix string.chars).length_le
  have unmarked := mt starts_of_marked other
  have noMark : ¬((unsignedPart string.chars).tail.headD 0 = 0x78 ∨
      (unsignedPart string.chars).tail.headD 0 = 0x58) := by
    intro letter
    apply other
    rw [startsHex, Bool.and_eq_true, Bool.or_eq_true, beq_iff_eq, beq_iff_eq, beq_iff_eq]
    exact ⟨zero, letter⟩
  have detected : detectBase 0 (unsignedPart string.chars) =
      (8, (unsignedPart string.chars).tail) := by
    rw [detectBase, if_pos rfl, if_pos zero, if_neg noMark]
  have length : (unsignedPart string.chars).length =
      (unsignedPart string.chars).tail.length + 1 :=
    congrArg List.length (head_split (by decide) zero)
  have ends := position_eq_iff (Or.inl rfl) detected (by omega)
  have place : isoPosition 0 string.chars =
      string.chars.length - (unsignedPart string.chars).tail.length +
        (runOf (baseDigit 8) (unsignedPart string.chars).tail).length := by
    rw [isoPosition, numeral_octal zero unmarked, if_neg (List.cons_ne_nil _ _),
      List.length_cons]
    omega
  rw [place, ends, zero_ends_iff zero fun starts => absurd starts other, detected]

theorem detected_decimal_iff (nonzero : (unsignedPart string.chars).headD 0 ≠ 0x30) :
    (strtoll (some string) 0).position = isoPosition 0 string.chars ↔
      EndsAsIso 0 string.chars := by
  have other : ¬startsHex (unsignedPart string.chars) := by
    intro starts
    rw [startsHex, Bool.and_eq_true, beq_iff_eq] at starts
    exact nonzero starts.1
  have unmarked := mt starts_of_marked other
  have detected : detectBase 0 (unsignedPart string.chars) = (10, unsignedPart string.chars) := by
    rw [detectBase, if_pos rfl, if_neg nonzero]
  have plain : numeral 0 (unsignedPart string.chars) =
      runOf (baseDigit 10) (unsignedPart string.chars) := by
    rw [numeral, if_neg fun both => unmarked both.2, if_pos rfl, if_neg nonzero]
  rw [run_end_iff (Or.inr (Or.inl rfl)) detected plain]
  constructor
  · intro holds
    exact {
      fits := by
        rw [detected]
        exact holds.1
      begun := holds.2
      unmarked := fun sixteen => absurd sixteen (by decide)
      completed := fun _ starts => absurd starts other }
  · intro holds
    have fits := holds.fits
    rw [detected] at fits
    exact ⟨fits, holds.begun⟩

end Detected

/-- The end that `strtoll` stores is the one ISO C prescribes exactly if the number can be
stored, there is one or nothing before it, base 16 meets no mark of a hexadecimal number,
and base 0 meets none without a digit. -/
theorem strtoll_end_iff (string : CString) {base : Int}
    (known : base = 0 ∨ base = 8 ∨ base = 10 ∨ base = 16) :
    IsoEnd base string.chars (strtoll (some string) base).position ↔
      EndsAsIso base string.chars := by
  rw [iso_end_iff]
  rcases known with rfl | known
  · by_cases starts : startsHex (unsignedPart string.chars)
    · exact detected_hex_iff starts
    · by_cases zero : (unsignedPart string.chars).headD 0 = 0x30
      · exact detected_octal_iff zero starts
      · exact detected_decimal_iff zero
  · exact given_base_iff string known

/-- A space, a minus sign, and 77 in octal. -/
def minusOctal : CString where
  chars := [0x20, 0x2D, 0x30, 0x37, 0x37]
  noNul := by decide

theorem minus_octal_end : IsoEnd 0 minusOctal.chars (strtoll (some minusOctal) 0).position :=
  (strtoll_end_iff minusOctal (Or.inl rfl)).mpr
    { fits := by decide
      begun := Or.inl (by decide)
      unmarked := fun _ => by decide
      completed := fun _ => by decide }

/-- The mark, a hexadecimal digit and nothing else. -/
def hexOne : CString where
  chars := [0x30, 0x78, 0x31]
  noNul := by decide

/-- The mark alone. -/
def markAlone : CString where
  chars := [0x30, 0x78]
  noNul := by decide

/-- A space alone. -/
def spaceAlone : CString where
  chars := [0x20]
  noNul := by decide

/-- One more than the largest `long long`, in hexadecimal. -/
def aboveMaximum : CString where
  chars := [0x38, 0x30, 0x30, 0x30, 0x30, 0x30, 0x30, 0x30, 0x30, 0x30, 0x30, 0x30, 0x30, 0x30,
    0x30, 0x30]
  noNul := by decide

/-- Base 16 stops behind the zero, base 0 reads over a mark without a digit, a space
without a number is skipped, and the last digit of a large number is left. -/
theorem ends_unlike_iso :
    ¬IsoEnd 16 hexOne.chars (strtoll (some hexOne) 16).position ∧
      ¬IsoEnd 0 markAlone.chars (strtoll (some markAlone) 0).position ∧
      ¬IsoEnd 10 spaceAlone.chars (strtoll (some spaceAlone) 10).position ∧
      ¬IsoEnd 16 aboveMaximum.chars (strtoll (some aboveMaximum) 16).position := by
  simp only [iso_end_iff]
  decide

end KittyOs.IsoNumbers
