import KittyOs.MachineWord

/-!
# The real-time clock

`get_system_date` of `clock/rtc.cpp`, and the clock chip it reads. The chip goes on
while the registers are read one after another, so the function takes the register
file each of its reads finds. An update advances the time by one second, all
registers at once; which years the chip takes for leap years is left open.
-/

namespace KittyOs.RtcModel

open KittyOs.Lib.ByteMemory KittyOs.MachineWord

set_option autoImplicit false

/-! ### The driver -/

abbrev Cmos := Byte → Byte

/-- The value the data port gives after the register was selected. -/
def readCmosRegister (cmos : Cmos) (reg : Byte) : Byte := cmos reg

def bcdToBinary (bcd : Byte) : Byte := (bcd &&& 0x0F) + (bcd >>> 4) * 10

def isBcdMode (cmos : Cmos) : Bool := readCmosRegister cmos 0x0B &&& 0x04 == 0

def is24HourMode (cmos : Cmos) : Bool := readCmosRegister cmos 0x0B &&& 0x02 != 0

def convertTo24Hour (hour : Byte) : Byte :=
  let isPm := hour &&& 0x80 != 0
  let hour := hour &&& 0x7F
  if isPm && hour != 12 then hour + 12
  else if !isPm && hour == 12 then 0
  else hour

structure SystemDate where
  year : U64
  month : U64
  day : U64
  hour : U64
  minute : U64
  second : U64
deriving DecidableEq, Repr

/-- The century of a two-digit year. -/
def fullYear (year : U64) : U64 := if year < 70 then year + 2000 else year + 1900

/-- `seen index` is the register file at the read with that number. -/
def getSystemDate (seen : Nat → Cmos) : SystemDate :=
  let bcdMode := isBcdMode (seen 0)
  let hour24Mode := is24HourMode (seen 1)
  let decode (value : Byte) : Byte := if bcdMode then bcdToBinary value else value
  let second := decode (readCmosRegister (seen 2) 0x00)
  let minute := decode (readCmosRegister (seen 3) 0x02)
  let hour := decode (readCmosRegister (seen 4) 0x04)
  let day := decode (readCmosRegister (seen 5) 0x07)
  let month := decode (readCmosRegister (seen 6) 0x08)
  let year := decode (readCmosRegister (seen 7) 0x09)
  let hour := if !hour24Mode then convertTo24Hour hour else hour
  { year := fullYear (year.setWidth 64)
    month := month.setWidth 64
    day := day.setWidth 64
    hour := hour.setWidth 64
    minute := minute.setWidth 64
    second := second.setWidth 64 }

/-! ### The chip -/

/-- A time the chip can hold, with a year of two digits. -/
structure Time where
  second : Nat
  minute : Nat
  hour : Nat
  day : Nat
  month : Nat
  year : Nat
  secondBound : second < 60
  minuteBound : minute < 60
  hourBound : hour < 24
  dayBound : day ≤ 31
  monthBound : month ≤ 12
  yearBound : year < 100
deriving DecidableEq

def daysInMonth (leap : Nat → Bool) (year month : Nat) : Nat :=
  if month = 2 then if leap year then 29 else 28
  else if month = 4 ∨ month = 6 ∨ month = 9 ∨ month = 11 then 30
  else 31

theorem days_in_month_bound (leap : Nat → Bool) (year month : Nat) :
    daysInMonth leap year month ≤ 31 := by
  unfold daysInMonth
  split_ifs <;> omega

def nextDay (leap : Nat → Bool) (time : Time) : Time :=
  if inMonth : time.day < daysInMonth leap time.year time.month then
    { time with
      day := time.day + 1
      dayBound := by have := days_in_month_bound leap time.year time.month; omega }
  else if inYear : time.month < 12 then
    { time with day := 1, month := time.month + 1, dayBound := by omega, monthBound := by omega }
  else
    { time with
      day := 1
      month := 1
      year := (time.year + 1) % 100
      dayBound := by omega
      monthBound := by omega
      yearBound := by omega }

/-- One update of the chip. -/
def tick (leap : Nat → Bool) (time : Time) : Time :=
  if inMinute : time.second + 1 < 60 then
    { time with second := time.second + 1, secondBound := inMinute }
  else
    let time : Time := { time with second := 0, secondBound := by omega }
    if inHour : time.minute + 1 < 60 then
      { time with minute := time.minute + 1, minuteBound := inHour }
    else
      let time : Time := { time with minute := 0, minuteBound := by omega }
      if inDay : time.hour + 1 < 24 then
        { time with hour := time.hour + 1, hourBound := inDay }
      else nextDay leap { time with hour := 0, hourBound := by omega }

/-- The registers in binary 24-hour mode; those that are not read are left blank. -/
def registers (statusB : Byte) (time : Time) : Cmos := fun reg =>
  match reg.toNat with
  | 0x00 => BitVec.ofNat 8 time.second
  | 0x02 => BitVec.ofNat 8 time.minute
  | 0x04 => BitVec.ofNat 8 time.hour
  | 0x07 => BitVec.ofNat 8 time.day
  | 0x08 => BitVec.ofNat 8 time.month
  | 0x09 => BitVec.ofNat 8 time.year
  | 0x0B => statusB
  | _ => 0

/-- The rule of years divisible by four. -/
def everyFourth (year : Nat) : Bool := year % 4 == 0

/-- 25 January 2025, 12:00:59. -/
def beforeTheMinute : Time :=
  ⟨59, 0, 12, 25, 1, 25, by decide, by decide, by decide, by decide, by decide, by decide⟩

end KittyOs.RtcModel
