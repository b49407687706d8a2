import KittyOs.RtcSnapshot

/-!
# The four modes of the real-time clock

Bits 1 and 2 of status register B choose how the chip shows a moment: in binary or
in BCD, by a 24-hour clock or by a 12-hour clock with a PM flag in bit 7 of the
hour. `get_system_date` converts BCD before it looks at the flag. In BCD with a
12-hour clock the flag is then eight tens, and no hour of the afternoon is read
back; every other moment is, in every mode.
-/

namespace KittyOs.RtcModes

open KittyOs.Lib.ByteMemory KittyOs.RtcModel KittyOs.RtcSnapshot

set_option autoImplicit false

/-! ### Moments and how the chip shows them -/

def isLeap (year : Nat) : Bool := year % 4 == 0 && (year % 100 != 0 || year % 400 == 0)

/-- A moment of the hundred years that begin with 1970. -/
structure Moment where
  year : Nat
  month : Nat
  day : Nat
  hour : Nat
  minute : Nat
  second : Nat
  yearFirst : 1970 ≤ year
  yearLast : year ≤ 2069
  monthFirst : 1 ≤ month
  monthLast : month ≤ 12
  dayFirst : 1 ≤ day
  dayLast : day ≤ daysInMonth isLeap year month
  hourBound : hour < 24
  minuteBound : minute < 60
  secondBound : second < 60

def Moment.date (moment : Moment) : SystemDate where
  year := BitVec.ofNat 64 moment.year
  month := BitVec.ofNat 64 moment.month
  day := BitVec.ofNat 64 moment.day
  hour := BitVec.ofNat 64 moment.hour
  minute := BitVec.ofNat 64 moment.minute
  second := BitVec.ofNat 64 moment.second

structure Mode where
  binary : Bool
  hours24 : Bool
deriving DecidableEq, Repr

/-- The mode that status register B selects. -/
def modeOf (statusB : Byte) : Mode where
  binary := statusB.getLsbD 2
  hours24 := statusB.getLsbD 1

/-- Two decimal digits, four bits each. -/
def toBcd (value : Nat) : Byte := BitVec.ofNat 8 (value / 10 * 16 + value % 10)

def Mode.field (mode : Mode) (value : Nat) : Byte :=
  if mode.binary then BitVec.ofNat 8 value else toBcd value

/-- The hour on a 12-hour clock: noon and midnight are 12. -/
def hourOf12 (hour : Nat) : Nat := if hour % 12 = 0 then 12 else hour % 12

def Mode.hour (mode : Mode) (hour : Nat) : Byte :=
  if mode.hours24 then mode.field hour
  else if hour < 12 then mode.field (hourOf12 hour)
  else mode.field (hourOf12 hour) ||| 0x80

/-- The registers at that moment; `other` holds those that show no part of it. -/
def shown (statusB : Byte) (other : Cmos) (moment : Moment) : Cmos := fun reg =>
  match reg.toNat with
  | 0x00 => (modeOf statusB).field moment.second
  | 0x02 => (modeOf statusB).field moment.minute
  | 0x04 => (modeOf statusB).hour moment.hour
  | 0x07 => (modeOf statusB).field moment.day
  | 0x08 => (modeOf statusB).field moment.month
  | 0x09 => (modeOf statusB).field (moment.year % 100)
  | 0x0B => statusB
  | _ => other reg

/-! ### What the driver makes of a register -/

/-- The conversion of a register that is no hour. -/
def Mode.decode (mode : Mode) (value : Byte) : Byte :=
  if mode.binary then value else bcdToBinary value

/-- The conversion of the hour: BCD first, then the clock. -/
def Mode.decodeHour (mode : Mode) (value : Byte) : Byte :=
  if mode.hours24 then mode.decode value else convertTo24Hour (mode.decode value)

theorem bcd_read_back :
    ∀ value, value < 100 → bcdToBinary (toBcd value) = BitVec.ofNat 8 value := by
  decide

theorem field_read_back (mode : Mode) {value : Nat} (bound : value < 100) :
    mode.decode (mode.field value) = BitVec.ofNat 8 value := by
  unfold Mode.decode Mode.field
  cases mode.binary with
  | true => rfl
  | false => exact bcd_read_back value bound

theorem hour_read_back (mode : Mode) {hour : Nat} (bound : hour < 24) :
    mode.decodeHour (mode.hour hour) = BitVec.ofNat 8 hour ↔
      ¬(mode.binary = false ∧ mode.hours24 = false ∧ 12 ≤ hour) := by
  have table : ∀ binary hours24 : Bool, ∀ hour, hour < 24 →
      (Mode.decodeHour ⟨binary, hours24⟩ (Mode.hour ⟨binary, hours24⟩ hour) =
          BitVec.ofNat 8 hour ↔ ¬(binary = false ∧ hours24 = false ∧ 12 ≤ hour)) := by
    decide
  exact table mode.binary mode.hours24 hour bound

theorem century_read_back {year : Nat} (first : 1970 ≤ year) (last : year ≤ 2069) :
    fullYear (BitVec.ofNat 64 (year % 100)) = BitVec.ofNat 64 year := by
  have table : ∀ passed, passed < 100 →
      fullYear (BitVec.ofNat 64 ((1970 + passed) % 100)) = BitVec.ofNat 64 (1970 + passed) := by
    decide
  have counted : 1970 + (year - 1970) = year := by omega
  have entry := table (year - 1970) (by omega)
  rwa [counted] at entry

theorem bcd_mode_of (statusB : Byte) : (statusB &&& 0x04 == 0) = !(modeOf statusB).binary := by
  revert statusB
  decide

theorem hours24_mode_of (statusB : Byte) : (statusB &&& 0x02 != 0) = (modeOf statusB).hours24 := by
  revert statusB
  decide

/-! ### Reading a moment -/

section Reading

variable (statusB : Byte) (other : Cmos) (moment : Moment)

theorem date_of_shown :
    getSystemDate (fun _ => shown statusB other moment) =
      { moment.date with
        hour := ((modeOf statusB).decodeHour
          ((modeOf statusB).hour moment.hour)).setWidth 64 } := by
  have days := days_in_month_bound isLeap moment.year moment.month
  have dayLast := moment.dayLast
  have monthLast := moment.monthLast
  have minuteBound := moment.minuteBound
  have secondBound := moment.secondBound
  have field (value : Nat) (bound : value < 100) :
      ((modeOf statusB).decode ((modeOf statusB).field value)).setWidth 64 =
        BitVec.ofNat 64 value := by
    rw [field_read_back _ bound, byte_value (by omega)]
  have decoded (value : Byte) :
      (if (statusB &&& 0x04 == 0) = true then bcdToBinary value else value) =
        (modeOf statusB).decode value := by
    rw [bcd_mode_of, Mode.decode]
    cases (modeOf statusB).binary <;> rfl
  have hour (value : Byte) : (if (!(statusB &&& 0x02 != 0)) = true then
      convertTo24Hour ((modeOf statusB).decode value) else (modeOf statusB).decode value) =
        (modeOf statusB).decodeHour value := by
    rw [hours24_mode_of, Mode.decodeHour]
    cases (modeOf statusB).hours24 <;> rfl
  have read : getSystemDate (fun _ => shown statusB other moment) =
      { year := fullYear (((modeOf statusB).decode
          ((modeOf statusB).field (moment.year % 100))).setWidth 64)
        month := ((modeOf statusB).decode ((modeOf statusB).field moment.month)).setWidth 64
        day := ((modeOf statusB).decode ((modeOf statusB).field moment.day)).setWidth 64
        hour := ((modeOf statusB).decodeHour ((modeOf statusB).hour moment.hour)).setWidth 64
        minute := ((modeOf statusB).decode ((modeOf statusB).field moment.minute)).setWidth 64
        second := ((modeOf statusB).decode
          ((modeOf statusB).field moment.second)).setWidth 64 } := by
    rw [← hour]
    simp only [← decoded]
    rfl
  rw [read, field _ (by omega), field _ (by omega), field _ (by omega), field _ (by omega),
    field _ (by omega), century_read_back moment.yearFirst moment.yearLast]
  rfl

/-- A moment is read back from its registers unless it is an afternoon shown in BCD by a
12-hour clock. -/
theorem system_date_read_back_iff :
    getSystemDate (fun _ => shown statusB other moment) = moment.date ↔
      ¬((modeOf statusB).binary = false ∧ (modeOf statusB).hours24 = false ∧
        12 ≤ moment.hour) := by
  have hourBound := moment.hourBound
  have widened : (BitVec.ofNat 8 moment.hour).setWidth 64 = BitVec.ofNat 64 moment.hour :=
    byte_value (by omega)
  rw [date_of_shown, ← hour_read_back (modeOf statusB) hourBound, Moment.date, SystemDate.mk.injEq,
    ← widened]
  constructor
  · intro equal
    have wide := equal.2.2.2.1
    apply BitVec.eq_of_toNat_eq
    have values := congrArg BitVec.toNat wide
    simp only [BitVec.toNat_setWidth] at values
    omega
  · intro equal
    rw [equal]
    exact ⟨rfl, rfl, rfl, rfl, rfl, rfl⟩

end Reading

/-- An afternoon of a leap day. -/
def leapDayAfternoon : Moment where
  year := 2000
  month := 2
  day := 29
  hour := 13
  minute := 30
  second := 15
  yearFirst := by decide
  yearLast := by decide
  monthFirst := by decide
  monthLast := by decide
  dayFirst := by decide
  dayLast := by decide
  hourBound := by decide
  minuteBound := by decide
  secondBound := by decide

/-- In BCD with a 12-hour clock it is read as hour 81. -/
theorem leap_day_misread :
    (getSystemDate fun _ => shown 0 (fun _ => 0) leapDayAfternoon).hour = 81 ∧
      (getSystemDate fun _ => shown 0 (fun _ => 0) leapDayAfternoon) ≠ leapDayAfternoon.date := by
  decide

end KittyOs.RtcModes
