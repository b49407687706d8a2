import KittyOs.RuntimeBlob
import KittyOs.Lib.LittleEndian

/-!
# Formatted output

`lib/npf/nanoprintf.h` with every kind of format specifier switched on, as
`lib/npf/nanoprintf.cpp` includes it, and `dbg/log.cpp`. A format is the text up to its
terminator, and a pointer into it is what is left of it. A width or precision that
leaves the range of an `int` while it is read is undefined: such a call gives `none`,
and so does one whose arguments do not match its format. The pads and the number of
characters put out are counted without a bound. A floating-point argument is given by
its bits.
-/

namespace KittyOs.PrintfModel

open KittyOs.Lib KittyOs.Lib.ByteMemory KittyOs.MachineWord KittyOs.RuntimeBlob

set_option autoImplicit false

def ch (char : Char) : Byte := BitVec.ofNat 8 char.toNat

def intMax : Int := 0x7FFFFFFF

/-- `NANOPRINTF_CONVERSION_BUFFER_SIZE`. -/
def conversionBufferSize : Nat := 23

/-! ### Format specifiers -/

inductive Opt where
  | none
  | literal
  | star
deriving DecidableEq, Repr

inductive LengthModifier where
  | none
  | short
  | longDouble
  | char
  | long
  | largeLongLong
  | largeIntmax
  | largeSizet
  | largePtrdifft
deriving DecidableEq, Repr

inductive Conversion where
  | percent
  | char
  | string
  | signedInt
  | binary
  | octal
  | hexInt
  | unsignedInt
  | pointer
  | writeback
  | floatDec
  | floatSci
  | floatShortest
  | floatHex
deriving DecidableEq, Repr

def Conversion.isFloat : Conversion → Bool
  | .floatDec => true
  | .floatSci => true
  | .floatShortest => true
  | .floatHex => true
  | _ => false

/-- The `prepend` character is 0 if there is none. -/
structure Flags where
  leftJustified : Bool
  leadingZeroPad : Bool
  prepend : Byte
  altForm : Bool
deriving DecidableEq, Repr

structure FormatSpec where
  fieldWidth : Int
  fieldWidthOpt : Opt
  leftJustified : Bool
  leadingZeroPad : Bool
  prec : Int
  precOpt : Opt
  prepend : Byte
  altForm : Bool
  caseAdjust : Byte
  lengthModifier : LengthModifier
  convSpec : Conversion
deriving DecidableEq, Repr

def parseFlags (flags : Flags) : List Byte → Flags × List Byte
  | [] => (flags, [])
  | c :: cur =>
      if c = ch '-' then
        parseFlags { flags with leftJustified := true, leadingZeroPad := false } cur
      else if c = ch '0' then
        parseFlags { flags with leadingZeroPad := !flags.leftJustified } cur
      else if c = ch '+' then parseFlags { flags with prepend := ch '+' } cur
      else if c = ch ' ' then
        parseFlags { flags with prepend := if flags.prepend = 0 then ch ' ' else flags.prepend } cur
      else if c = ch '#' then parseFlags { flags with altForm := true } cur
      else (flags, c :: cur)

/-- The loops over decimal digits. -/
def parseNumber (value : Int) : List Byte → Option (Int × List Byte)
  | [] => some (value, [])
  | c :: cur =>
      if ch '0' ≤ c ∧ c ≤ ch '9' then
        let next := value * 10 + (c.toNat - (ch '0').toNat : Int)
        if next > intMax then none else parseNumber next cur
      else some (value, c :: cur)

def parseWidth (cur : List Byte) : Option (Opt × Int × List Byte) :=
  if cur.headD 0 = ch '*' then some (.star, 0, cur.tail)
  else
    (parseNumber 0 cur).map fun (width, rest) =>
      (if rest.length < cur.length then .literal else .none, width, rest)

/-- After a point and a minus sign the digits count although no precision is noted. -/
def parsePrecision (cur : List Byte) : Option (Opt × Int × List Byte) :=
  if cur.headD 0 = ch '.' then
    let cur := cur.tail
    if cur.headD 0 = ch '*' then some (.star, 0, cur.tail)
    else if cur.headD 0 = ch '-' then
      (parseNumber 0 cur.tail).map fun (prec, rest) => (.none, prec, rest)
    else (parseNumber 0 cur).map fun (prec, rest) => (.literal, prec, rest)
  else some (.none, 0, cur)

def parseLength (cur : List Byte) : LengthModifier × List Byte :=
  let c := cur.headD 0
  let rest := cur.tail
  if c = ch 'h' then
    if rest.headD 0 = ch 'h' then (.char, rest.tail) else (.short, rest)
  else if c = ch 'l' then
    if rest.headD 0 = ch 'l' then (.largeLongLong, rest.tail) else (.long, rest)
  else if c = ch 'L' then (.longDouble, rest)
  else if c = ch 'j' then (.largeIntmax, rest)
  else if c = ch 'z' then (.largeSizet, rest)
  else if c = ch 't' then (.largePtrdifft, rest)
  else (.none, cur)

/-- `'a' - 'A'`. -/
def lowerCase : Byte := 0x20

/-- The last character of a specifier; `none` if it is no conversion. -/
def parseConversion (fs : FormatSpec) (c : Byte) : Option FormatSpec :=
  let integer (conversion : Conversion) (caseAdjust : Byte) : FormatSpec :=
    { fs with
      convSpec := conversion
      caseAdjust := caseAdjust
      leadingZeroPad := if fs.precOpt ≠ .none then false else fs.leadingZeroPad }
  let float (conversion : Conversion) (caseAdjust : Byte) : FormatSpec :=
    { fs with
      convSpec := conversion
      caseAdjust := caseAdjust
      prec := if fs.precOpt = .none then 6 else fs.prec }
  if c = ch '%' then some { fs with convSpec := .percent, precOpt := .none }
  else if c = ch 'c' then some { fs with convSpec := .char, precOpt := .none }
  else if c = ch 's' then some { fs with convSpec := .string, leadingZeroPad := false }
  else if c = ch 'i' ∨ c = ch 'd' then some (integer .signedInt lowerCase)
  else if c = ch 'o' then some (integer .octal lowerCase)
  else if c = ch 'u' then some (integer .unsignedInt lowerCase)
  else if c = ch 'X' then some (integer .hexInt 0)
  else if c = ch 'x' then some (integer .hexInt lowerCase)
  else if c = ch 'F' then some (float .floatDec 0)
  else if c = ch 'f' then some (float .floatDec lowerCase)
  else if c = ch 'E' then some (float .floatSci 0)
  else if c = ch 'e' then some (float .floatSci lowerCase)
  else if c = ch 'G' then some (float .floatShortest 0)
  else if c = ch 'g' then some (float .floatShortest lowerCase)
  else if c = ch 'A' then some (float .floatHex 0)
  else if c = ch 'a' then some (float .floatHex lowerCase)
  else if c = ch 'n' then some { fs with convSpec := .writeback, precOpt := .none }
  else if c = ch 'p' then some { fs with convSpec := .pointer, precOpt := .none }
  else if c = ch 'B' then some { fs with convSpec := .binary, caseAdjust := 0 }
  else if c = ch 'b' then some { fs with convSpec := .binary }
  else none

inductive ParseResult where
  | undefined
  | noSpec
  | spec (fs : FormatSpec) (rest : List Byte)
deriving DecidableEq, Repr

/-- `npf_parse_format_spec` on what follows the percent sign. -/
def parseFormatSpec (cur : List Byte) : ParseResult :=
  let (flags, cur) := parseFlags ⟨false, false, 0, false⟩ cur
  match parseWidth cur with
  | none => .undefined
  | some (fieldWidthOpt, fieldWidth, cur) =>
      match parsePrecision cur with
      | none => .undefined
      | some (precOpt, prec, cur) =>
          let (lengthModifier, cur) := parseLength cur
          let fs : FormatSpec :=
            { fieldWidth, fieldWidthOpt, prec, precOpt, lengthModifier
              leftJustified := flags.leftJustified
              leadingZeroPad := flags.leadingZeroPad
              prepend := flags.prepend
              altForm := flags.altForm
              caseAdjust := lowerCase
              convSpec := .percent }
          match parseConversion fs (cur.headD 0) with
          | none => .noSpec
          | some fs => .spec fs cur.tail

/-! ### Integers -/

def digitChar (caseAdj : Byte) (d : Nat) : Byte :=
  (if d < 10 then ch '0' else ch 'A' - 10 + caseAdj) + BitVec.ofNat 8 d

/-- `npf_utoa_rev`, the least significant digit first; 64 rounds are enough for every
value and base. -/
def utoaRev (base : Nat) (caseAdj : Byte) : Nat → Nat → List Byte
  | 0, _ => []
  | rounds + 1, val =>
      digitChar caseAdj (val % base) ::
        if val / base = 0 then [] else utoaRev base caseAdj rounds (val / base)

def npfUtoaRev (val : U64) (base : Nat) (caseAdj : Byte) : List Byte :=
  utoaRev base caseAdj 64 val.toNat

def npfBinLen (u : U64) : Nat := if u = 0 then 1 else Nat.log2 u.toNat + 1

/-- The bits of a binary conversion, the most significant first. -/
def binaryDigits (val : U64) : List Byte :=
  ((List.range (npfBinLen val)).map fun index =>
    ch '0' + BitVec.ofNat 8 (val.toNat / 2 ^ index % 2)).reverse

/-! ### Floating point -/

/-- The conversion buffer and the indices written so far. -/
structure CharBuffer where
  chars : Nat → Byte
  writes : List Nat

def CharBuffer.put (buf : CharBuffer) (index : Nat) (c : Byte) : CharBuffer :=
  ⟨Function.update buf.chars index c, buf.writes ++ [index]⟩

def CharBuffer.empty : CharBuffer := ⟨fun _ => 0, []⟩

def manBits : Nat := 2 ^ 32

/-- The variables of the loop that scales the integer part; `dec` is an 8-bit index. -/
structure Scaling where
  man : Nat
  carry : Nat
  dec : Nat
  buf : CharBuffer

/-- The outcome of a loop that may go to the label `exit`. -/
inductive Stage (State : Type) where
  | next (state : State)
  | exit (buf : CharBuffer)

def Stage.andThen {State Other : Type} (stage : Stage State) (step : State → Stage Other) :
    Stage Other :=
  match stage with
  | .next state => step state
  | .exit buf => .exit buf

/-- Scale the integer part from base 2 to base 10. -/
def scaleInteger : Nat → Scaling → Stage Scaling
  | 0, state => .next state
  | rounds + 1, state =>
      if state.man < 2 ^ 31 then
        scaleInteger rounds { state with man := state.man * 2 + state.carry, carry := 0 }
      else if state.dec ≥ conversionBufferSize then .exit state.buf
      else
        scaleInteger rounds
          { man := state.man / 5
            carry := if state.man % 5 + state.carry > 2 then 1 else 0
            dec := (state.dec + 1) % 256
            buf := state.buf.put state.dec (ch '0') }

/-- Print the integer; ten rounds are enough for 32 bits. The index behind the last digit
is `end`. -/
def printInteger : Nat → Nat → Nat → CharBuffer → Stage (Nat × CharBuffer)
  | 0, _, last, buf => .next (last, buf)
  | rounds + 1, man, last, buf =>
      if last ≥ conversionBufferSize then .exit buf
      else
        let buf := buf.put last (ch '0' + BitVec.ofNat 8 (man % 10))
        if man / 10 = 0 then .next (last + 1, buf) else printInteger rounds (man / 10) (last + 1) buf

structure Fraction where
  man : Nat
  carry : Nat
  decF : Nat
  expF : Int
  digit : Nat
  buf : CharBuffer

/-- Scale the fraction from base 2 to base 10 and prepare its first digit. -/
def scaleFraction : Nat → Fraction → Fraction
  | 0, state => state
  | rounds + 1, state =>
      if state.decF ≠ 0 ∧ state.expF < 4 then
        if state.man > (manBits - 4) / 5 ∨ state.digit ≠ 0 then
          scaleFraction rounds
            { state with carry := state.man % 2, man := state.man / 2, expF := state.expF + 1 }
        else
          let man := state.man * 5 % manBits
          let man := if state.carry ≠ 0 then (man + 3) % manBits else man
          if state.expF < 0 then
            scaleFraction rounds
              { state with
                man := man
                carry := 0
                decF := state.decF - 1
                expF := state.expF + 1
                buf := state.buf.put (state.decF - 1) (ch '0') }
          else
            scaleFraction rounds
              { state with man := man, carry := 0, expF := state.expF + 1, digit := state.digit + 1 }
      else state

/-- Print `decF` digits of the fraction; what is left of it is the second component. -/
def printFraction : Nat → Nat → CharBuffer → Nat × CharBuffer
  | 0, man, buf => (man, buf)
  | decF + 1, man, buf =>
      let buf := buf.put decF (ch '0' + BitVec.ofNat 8 (man / 2 ^ 28))
      let man := man % 2 ^ 28
      if decF = 0 then (man * 16 % manBits, buf) else printFraction decF (man * 10 % manBits) buf

/-- Round the number, from the index `dec` on; the buffer ends at `last`. -/
def roundUp : Nat → Nat → Nat → CharBuffer → Stage (Nat × CharBuffer)
  | 0, _, last, buf => .next (last, buf)
  | rounds + 1, dec, last, buf =>
      if dec ≥ conversionBufferSize then .exit buf
      else
        let buf := if dec ≥ last then buf.put last (ch '0') else buf
        let last := if dec ≥ last then last + 1 else last
        if buf.chars dec = ch '.' then roundUp rounds (dec + 1) last buf
        else if buf.chars dec = ch '9' then
          roundUp rounds (dec + 1) last (buf.put dec (ch '0'))
        else .next (last, buf.put dec (buf.chars dec + 1))

/-- The text written from the front of the buffer, where there is no number to print. -/
def exitText (caseAdjust : Byte) (text : List Byte) (buf : CharBuffer) : Nat × CharBuffer :=
  (text.length, (List.range text.length).foldl
    (fun buf index => buf.put index (text.getD index 0 + caseAdjust)) buf)

/-- `exp` of a finite number. -/
def exponentOf (bits : U64) : Int :=
  let biased : Nat := bits.toNat / 2 ^ 52 % 2 ^ 11
  (if biased = 0 then 1 else (biased : Int)) - 1023

def mantissaOf (bits : U64) : Nat :=
  bits.toNat % 2 ^ 52 + if bits.toNat / 2 ^ 52 % 2 ^ 11 = 0 then 0 else 2 ^ 52

/-- The integer part: the exponent as the fraction part finds it, the carry, the index
behind the point, the index behind the integer and the buffer. -/
structure IntegerPart where
  exp : Int
  carry : Nat
  dec : Nat
  last : Nat
  buf : CharBuffer

def convertInteger (exp : Int) (bin dec : Nat) (buf : CharBuffer) : Stage IntegerPart :=
  if exp ≥ 0 then
    let shiftI := (min exp 31).toNat
    let expI := exp.toNat - shiftI
    let shift := 52 - shiftI
    let carry := if expI ≠ 0 ∧ shift ≠ 0 then bin / 2 ^ (shift - 1) % 2 else 0
    (scaleInteger expI ⟨bin / 2 ^ shift % manBits, carry, dec, buf⟩).andThen fun scaled =>
      (printInteger 10 scaled.man scaled.dec scaled.buf).andThen fun (last, buf) =>
        .next ⟨if expI ≠ 0 then 52 else exp, scaled.carry, scaled.dec, last, buf⟩
  else
    (printInteger 10 0 dec buf).andThen fun (last, buf) => .next ⟨exp, 0, dec, last, buf⟩

/-- The carry into the digits, the index it is added at, and the buffer. -/
def convertFraction (part : IntegerPart) (bin precision : Nat) : Nat × Nat × CharBuffer :=
  if part.exp < 52 then
    let shiftF : Int := if part.exp < 0 then -1 else part.exp
    let binF := bin * 2 ^ (12 + shiftF).toNat % 2 ^ 64
    let expF := part.exp - shiftF
    let scaled := scaleFraction (4 - expF).toNat
      ⟨binF / 2 ^ 32, binF / 2 ^ 31 % 2, precision, expF, 0, part.buf⟩
    let man := (scaled.man + scaled.carry) % manBits
    let (man, buf) := printFraction scaled.decF man scaled.buf
    (if scaled.expF ≥ 0 ∧ man / 2 ^ 31 = 1 then 1 else 0, 0, buf)
  else
    let (_, buf) := printFraction precision 0 part.buf
    (part.carry, part.dec, buf)

/-- `npf_ftoa_rev`: the length of the text, and the buffer that holds it reversed. -/
def npfFtoaRev (prec : Int) (altForm : Bool) (caseAdjust : Byte) (bits : U64) : Nat × CharBuffer :=
  if bits.toNat / 2 ^ 52 % 2 ^ 11 = 2047 then
    exitText caseAdjust
      (if bits.toNat % 2 ^ 52 ≠ 0 then [ch 'N', ch 'A', ch 'N'] else [ch 'F', ch 'N', ch 'I'])
      CharBuffer.empty
  else
    let failed := exitText caseAdjust [ch 'R', ch 'R', ch 'E']
    if prec > conversionBufferSize - 2 then failed CharBuffer.empty
    else
      let precision := (prec % 256).toNat
      let pointed := precision ≠ 0 ∨ altForm
      let buf := if pointed then CharBuffer.empty.put precision (ch '.') else CharBuffer.empty
      let dec := if pointed then (precision + 1) % 256 else precision
      match convertInteger (exponentOf bits) (mantissaOf bits) dec buf with
      | .exit buf => failed buf
      | .next part =>
          let (carry, dec, buf) := convertFraction part (mantissaOf bits) precision
          if carry = 0 then (part.last, buf)
          else
            match roundUp (conversionBufferSize + 1) dec part.last buf with
            | .exit buf => failed buf
            | .next (last, buf) => (last, buf)

/-! ### Arguments -/

/-- An argument of integer or pointer type, with the text it points to if it is one. -/
structure Word where
  bits : U64
  text : Option CString

/-- Integers and pointers are passed apart from floating-point values. A `long double` is
given by the `double` it is converted to. -/
structure Args where
  words : List Word
  doubles : List U64
  longDoubles : List U64

def Args.word (args : Args) : Option (Word × Args) :=
  match args.words with
  | [] => none
  | word :: words => some (word, { args with words })

def Args.double (args : Args) (modifier : LengthModifier) : Option (U64 × Args) :=
  if modifier = .longDouble then
    match args.longDoubles with
    | [] => none
    | value :: longDoubles => some (value, { args with longDoubles })
  else
    match args.doubles with
    | [] => none
    | value :: doubles => some (value, { args with doubles })

def Args.int (args : Args) : Option (Int × Args) :=
  args.word.map fun (word, args) => ((word.bits.setWidth 32).toInt, args)

/-- The number of bits an integer conversion takes of its argument. -/
def LengthModifier.width : LengthModifier → Nat
  | .none => 32
  | .short => 16
  | .longDouble => 32
  | .char => 8
  | .long => 64
  | .largeLongLong => 64
  | .largeIntmax => 64
  | .largeSizet => 64
  | .largePtrdifft => 64

def signedValue (modifier : LengthModifier) (bits : U64) : Int :=
  (bits.setWidth modifier.width).toInt

def unsignedValue (modifier : LengthModifier) (bits : U64) : U64 :=
  (bits.setWidth modifier.width).setWidth 64

def starWidth (fs : FormatSpec) (args : Args) : Option (FormatSpec × Args) :=
  if fs.fieldWidthOpt = .star then
    args.int.bind fun (width, args) =>
      if width < 0 then
        if -width > intMax then none
        else some ({ fs with fieldWidth := -width, leftJustified := true }, args)
      else some ({ fs with fieldWidth := width }, args)
  else some (fs, args)

/-- A negative precision stays in `prec`. -/
def starPrecision (fs : FormatSpec) (args : Args) : Option (FormatSpec × Args) :=
  if fs.precOpt = .star then
    args.int.map fun (prec, args) =>
      ({ fs with prec := prec, precOpt := if prec < 0 then .none else .star }, args)
  else some (fs, args)

/-- The widths and precisions that are arguments. -/
def starArgs (fs : FormatSpec) (args : Args) : Option (FormatSpec × Args) :=
  (starWidth fs args).bind fun (fs, args) => starPrecision fs args

/-! ### One conversion -/

/-- What the conversion of an argument leaves for the output: the text in its order, the
characters `sign_c` and `need_0x` (0 for none), the `zero` flag, the precision, and the
indices of the conversion buffer that were written. -/
structure Converted where
  payload : List Byte
  signC : Byte
  need0x : Byte
  zero : Bool
  prec : Int
  writes : List Nat
deriving DecidableEq, Repr

def baseOf : Conversion → Nat
  | .octal => 8
  | .hexInt => 16
  | _ => 10

def convertSigned (fs : FormatSpec) (val : Int) : Converted :=
  let magnitude : U64 := BitVec.ofNat 64 val.natAbs
  let cbuf :=
    if val = 0 ∧ fs.precOpt ≠ .none ∧ fs.prec = 0 then []
    else npfUtoaRev magnitude 10 fs.caseAdjust
  { payload := cbuf.reverse
    signC := if val < 0 then ch '-' else fs.prepend
    need0x := 0
    zero := val = 0
    prec := fs.prec
    writes := List.range cbuf.length }

/-- Binary digits do not go through the conversion buffer. -/
def convertUnsigned (fs : FormatSpec) (val : U64) : Converted :=
  let empty := val = 0 ∧ fs.precOpt ≠ .none ∧ fs.prec = 0
  let prec := if empty ∧ fs.convSpec = .octal ∧ fs.altForm then 1 else fs.prec
  let marked := val ≠ 0 ∧ fs.altForm
  if fs.convSpec = .binary then
    { payload := if empty then [] else binaryDigits val
      signC := 0
      need0x := if marked then ch 'B' + fs.caseAdjust else 0
      zero := val = 0
      prec := prec
      writes := [] }
  else
    let digits := if empty then [] else npfUtoaRev val (baseOf fs.convSpec) fs.caseAdjust
    let cbuf := if marked ∧ fs.convSpec = .octal then digits ++ [ch '0'] else digits
    { payload := cbuf.reverse
      signC := 0
      need0x := if marked ∧ fs.convSpec = .hexInt then ch 'X' + fs.caseAdjust else 0
      zero := val = 0
      prec := prec
      writes := List.range cbuf.length }

def convertPointer (fs : FormatSpec) (bits : U64) : Converted :=
  let cbuf := npfUtoaRev bits 16 lowerCase
  { payload := cbuf.reverse
    signC := 0
    need0x := ch 'x'
    zero := false
    prec := fs.prec
    writes := List.range cbuf.length }

/-- The value is below zero, and it is zero, as the comparisons of doubles have it. -/
def isNegative (bits : U64) : Bool :=
  bits.toNat ≥ 2 ^ 63 && bits.toNat % 2 ^ 63 ≠ 0 && bits.toNat % 2 ^ 63 ≤ 2047 * 2 ^ 52

def isZero (bits : U64) : Bool := bits.toNat % 2 ^ 63 = 0

def convertFloat (fs : FormatSpec) (bits : U64) : Converted :=
  let (length, buf) := npfFtoaRev fs.prec fs.altForm fs.caseAdjust bits
  { payload := ((List.range length).map buf.chars).reverse
    signC := if isNegative bits then ch '-' else fs.prepend
    need0x := 0
    zero := isZero bits
    prec := fs.prec
    writes := buf.writes }

def convertChars (fs : FormatSpec) (text : List Byte) (writes : List Nat) : Converted :=
  { payload := text, signC := 0, need0x := 0, zero := false, prec := fs.prec, writes }

/-- What a call does with the outside: characters put out, and the stores of `%n`. -/
inductive Emit where
  | put (c : Byte)
  | store (pointer : U64) (width : Nat) (count : Nat)
deriving DecidableEq, Repr

/-- The conversion of one argument; `count` characters have been put out before. A count
stored as a `double` is left out. -/
def convert (fs : FormatSpec) (args : Args) (count : Nat) :
    Option (Converted × List Emit × Args) :=
  match fs.convSpec with
  | .percent => some (convertChars fs [ch '%'] [0], [], args)
  | .char =>
      args.word.map fun (word, args) => (convertChars fs [word.bits.setWidth 8] [0], [], args)
  | .string =>
      match args.word with
      | none => none
      | some (word, args) =>
          word.text.map fun text =>
            let shown := if fs.precOpt = .none then text.chars else text.chars.take fs.prec.toNat
            (convertChars fs shown [], [], args)
  | .signedInt =>
      args.word.map fun (word, args) =>
        (convertSigned fs (signedValue fs.lengthModifier word.bits), [], args)
  | .binary | .octal | .hexInt | .unsignedInt =>
      args.word.map fun (word, args) =>
        (convertUnsigned fs (unsignedValue fs.lengthModifier word.bits), [], args)
  | .pointer => args.word.map fun (word, args) => (convertPointer fs word.bits, [], args)
  | .writeback =>
      if fs.lengthModifier = .longDouble then none
      else
        args.word.map fun (word, args) =>
          (convertChars fs [] [], [.store word.bits (fs.lengthModifier.width / 8) count], args)
  | .floatDec | .floatSci | .floatShortest | .floatHex =>
      (args.double fs.lengthModifier).map fun (bits, args) => (convertFloat fs bits, [], args)

/-! ### Padding -/

/-- The pad character of the field, 0 for none. -/
def padChar (fs : FormatSpec) (converted : Converted) : Byte :=
  if fs.fieldWidthOpt = .none then 0
  else if fs.leadingZeroPad then
    if fs.convSpec = .string ∨ fs.convSpec = .char ∨ fs.convSpec = .percent then 0
    else if fs.precOpt ≠ .none ∧ converted.prec = 0 ∧ converted.zero then ch ' '
    else ch '0'
  else ch ' '

def precPad (fs : FormatSpec) (converted : Converted) : Nat :=
  if fs.convSpec = .string ∨ fs.convSpec.isFloat then 0
  else (converted.prec - converted.payload.length).toNat

def signText (converted : Converted) : List Byte :=
  if converted.signC = 0 then [] else [converted.signC]

def markText (converted : Converted) : List Byte :=
  if converted.need0x = 0 then [] else [ch '0', converted.need0x]

def fieldPad (fs : FormatSpec) (converted : Converted) : Nat :=
  (fs.fieldWidth - converted.payload.length - (signText converted).length -
    (markText converted).length - precPad fs converted).toNat

/-- The output of one conversion. -/
def render (fs : FormatSpec) (converted : Converted) : List Byte :=
  let padC := padChar fs converted
  let pad := List.replicate (fieldPad fs converted) padC
  let digits := List.replicate (precPad fs converted) (ch '0') ++ converted.payload
  let sign := signText converted
  let mark := markText converted
  if fs.leftJustified = false ∧ padC ≠ 0 then
    if padC = ch '0' then sign ++ mark ++ pad ++ digits
    else pad ++ mark ++ sign ++ digits
  else mark ++ sign ++ digits ++ if padC ≠ 0 then pad else []

/-! ### Whole formats -/

def putCount (emits : List Emit) : Nat :=
  emits.countP fun emit => match emit with
    | .put _ => true
    | .store _ _ _ => false

/-- What has been done so far: the emissions, the arguments that are left, and the writes
to the conversion buffer. -/
structure Progress where
  emits : List Emit
  args : Args
  writes : List Nat

/-- The loop of `npf_vpprintf`; `skip` characters of a specifier are still to be passed. -/
def formatLoop : Nat → List Byte → Progress → Option Progress
  | _, [], progress => some progress
  | skip + 1, _ :: cur, progress => formatLoop skip cur progress
  | 0, c :: cur, progress =>
      let echoed := { progress with emits := progress.emits ++ [.put c] }
      if c ≠ ch '%' then formatLoop 0 cur echoed
      else
        match parseFormatSpec cur with
        | .undefined => none
        | .noSpec => formatLoop 0 cur echoed
        | .spec fs rest =>
            match starArgs fs progress.args with
            | none => none
            | some (fs, args) =>
                match convert fs args (putCount progress.emits) with
                | none => none
                | some (converted, stores, args) =>
                    formatLoop (cur.length - rest.length) cur
                      { emits := progress.emits ++ stores ++ (render fs converted).map .put
                        args := args
                        writes := progress.writes ++ converted.writes }

def npfVpprintf (format : CString) (args : Args) : Option Progress :=
  formatLoop 0 format.chars ⟨[], args, []⟩

/-- `npf_bufputc`, and the stores of `%n`; the second component is `cur`. -/
def bufEmit (dst : U64) (len : Nat) (state : Memory × Nat) : Emit → Memory × Nat
  | .put c =>
      if state.2 < len then
        (storeByte state.1 (dst + BitVec.ofNat 64 state.2).toNat c, state.2 + 1)
      else state
  | .store pointer width count =>
      (fun target =>
        if Within pointer.toNat width target then
          (LittleEndian.encode width count).getD (target - pointer.toNat) 0
        else state.1 target, state.2)

/-- `npf_vsnprintf`: the number returned and the memory after. -/
def npfVsnprintf (mem : Memory) (buffer bufsz : U64) (format : CString) (args : Args) :
    Option (BitVec 32 × Memory) :=
  (npfVpprintf format args).map fun progress =>
    let len := if buffer = 0 then 0 else bufsz.toNat
    let (mem, _) := (progress.emits ++ [.put 0]).foldl (bufEmit buffer len) (mem, 0)
    let mem :=
      if buffer ≠ 0 ∧ bufsz ≠ 0 then storeByte mem (buffer + bufsz - 1).toNat 0 else mem
    (BitVec.ofNat 32 (putCount progress.emits), mem)

/-- The bytes a call of `debug_puts` sends to port 0xE9, at most `count` of them. -/
def debugPuts (mem : Memory) (msg : U64) : Nat → List Byte
  | 0 => []
  | count + 1 => if mem msg.toNat = 0 then [] else mem msg.toNat :: debugPuts mem (msg + 1) count

/-- `debug_print` with its buffer of 1024 bytes on the stack. -/
def debugPrint (mem : Memory) (buffer : U64) (fmt : CString) (args : Args) :
    Option (List Byte × Memory) :=
  (npfVsnprintf mem buffer 1024 fmt args).map fun (_, mem) => (debugPuts mem buffer 1024, mem)

end KittyOs.PrintfModel
