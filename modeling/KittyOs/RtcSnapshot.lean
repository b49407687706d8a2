import KittyOs.RtcModel
import Mathlib.Order.Monotone.Basic
import Mathlib.Logic.Function.Iterate

/-!
# What a read of the running clock yields

The eight register reads of `get_system_date` see the chip after a growing number
of updates. The date they make up was held by the chip if and only if it was held a
whole number of minutes from the read of the seconds, with every other register
showing then what its own read found; within one minute, if and only if no register
changed between the read of the seconds and its own read.
-/

namespace KittyOs.RtcSnapshot

open KittyOs.Lib.ByteMemory KittyOs.RtcModel

set_option autoImplicit false

/-- The date a time of the chip stands for. -/
def dateOf (time : Time) : SystemDate where
  year := fullYear (BitVec.ofNat 64 time.year)
  month := BitVec.ofNat 64 time.month
  day := BitVec.ofNat 64 time.day
  hour := BitVec.ofNat 64 time.hour
  minute := BitVec.ofNat 64 time.minute
  second := BitVec.ofNat 64 time.second

section Reads

variable (leap : Nat → Bool) (start : Time) (statusB : Byte) (elapsed : Nat → Nat)

/-- The time after a number of updates. -/
def timeAfter (updates : Nat) : Time := (tick leap)^[updates] start

/-- The date read while the updates go on: read `index` comes after `elapsed index` of them. -/
def dateRead : SystemDate :=
  getSystemDate fun index => registers statusB (timeAfter leap start (elapsed index))

/-- The date read is one the chip held between the first and the last read. -/
def HeldBetween : Prop :=
  ∃ moment, elapsed 0 ≤ moment ∧ moment ≤ elapsed 7 ∧
    dateRead leap start statusB elapsed = dateOf (timeAfter leap start moment)

/-- At that moment the registers above the seconds show what their reads found. -/
structure Agrees (moment : Nat) : Prop where
  minute : (timeAfter leap start (elapsed 3)).minute = (timeAfter leap start moment).minute
  hour : (timeAfter leap start (elapsed 4)).hour = (timeAfter leap start moment).hour
  day : (timeAfter leap start (elapsed 5)).day = (timeAfter leap start moment).day
  month : (timeAfter leap start (elapsed 6)).month = (timeAfter leap start moment).month
  year : (timeAfter leap start (elapsed 7)).year = (timeAfter leap start moment).year

/-! ### The seconds -/

theorem next_day_second (time : Time) : (nextDay leap time).second = time.second := by
  unfold nextDay
  split_ifs <;> rfl

theorem tick_second (time : Time) : (tick leap time).second = (time.second + 1) % 60 := by
  have bound := time.secondBound
  unfold tick
  dsimp only
  split_ifs with inMinute
  · exact (Nat.mod_eq_of_lt inMinute).symm
  · dsimp only
    omega
  · dsimp only
    omega
  · rw [next_day_second]
    dsimp only
    omega

theorem time_after_second (updates : Nat) :
    (timeAfter leap start updates).second = (start.second + updates) % 60 := by
  induction updates with
  | zero => exact (Nat.mod_eq_of_lt start.secondBound).symm
  | succ updates ih =>
      have next : timeAfter leap start (updates + 1) = tick leap (timeAfter leap start updates) :=
        Function.iterate_succ_apply' _ _ _
      rw [next, tick_second, ih]
      omega

/-! ### The date -/

theorem byte_value {value : Nat} (bound : value < 256) :
    (BitVec.ofNat 8 value).setWidth 64 = BitVec.ofNat 64 value := by
  apply BitVec.eq_of_toNat_eq
  simp only [BitVec.toNat_setWidth, BitVec.toNat_ofNat]
  omega

theorem value_inj {left right : Nat} (leftBound : left < 256) (rightBound : right < 256) :
    BitVec.ofNat 64 left = BitVec.ofNat 64 right ↔ left = right := by
  constructor
  · intro same
    have values := congrArg BitVec.toNat same
    simp only [BitVec.toNat_ofNat] at values
    omega
  · exact congrArg _

theorem full_year_inj {left right : Nat} (leftBound : left < 100) (rightBound : right < 100) :
    fullYear (BitVec.ofNat 64 left) = fullYear (BitVec.ofNat 64 right) ↔ left = right := by
  constructor
  · intro same
    unfold fullYear at same
    split_ifs at same <;> bv_omega
  · intro same
    rw [same]

variable {statusB}

theorem date_read_binary (binary : statusB &&& 0x04 ≠ 0) (hours24 : statusB &&& 0x02 ≠ 0) :
    dateRead leap start statusB elapsed =
      { year := fullYear (BitVec.ofNat 64 (timeAfter leap start (elapsed 7)).year)
        month := BitVec.ofNat 64 (timeAfter leap start (elapsed 6)).month
        day := BitVec.ofNat 64 (timeAfter leap start (elapsed 5)).day
        hour := BitVec.ofNat 64 (timeAfter leap start (elapsed 4)).hour
        minute := BitVec.ofNat 64 (timeAfter leap start (elapsed 3)).minute
        second := BitVec.ofNat 64 (timeAfter leap start (elapsed 2)).second } := by
  have notBcd : isBcdMode (registers statusB (timeAfter leap start (elapsed 0))) = false :=
    beq_eq_false_iff_ne.mpr binary
  have full : is24HourMode (registers statusB (timeAfter leap start (elapsed 1))) = true :=
    bne_iff_ne.mpr hours24
  have yearByte := (timeAfter leap start (elapsed 7)).yearBound
  have monthByte := (timeAfter leap start (elapsed 6)).monthBound
  have dayByte := (timeAfter leap start (elapsed 5)).dayBound
  have hourByte := (timeAfter leap start (elapsed 4)).hourBound
  have minuteByte := (timeAfter leap start (elapsed 3)).minuteBound
  have secondByte := (timeAfter leap start (elapsed 2)).secondBound
  simp only [dateRead, getSystemDate, notBcd, full, Bool.false_eq_true, if_false, Bool.not_true]
  simp only [readCmosRegister, registers]
  rw [SystemDate.mk.injEq]
  exact ⟨congrArg fullYear (byte_value (by omega)), byte_value (by omega), byte_value (by omega),
    byte_value (by omega), byte_value (by omega), byte_value (by omega)⟩

/-- The seconds tell the moment up to whole minutes. -/
theorem date_read_eq_iff (binary : statusB &&& 0x04 ≠ 0) (hours24 : statusB &&& 0x02 ≠ 0)
    (moment : Nat) :
    dateRead leap start statusB elapsed = dateOf (timeAfter leap start moment) ↔
      moment % 60 = elapsed 2 % 60 ∧ Agrees leap start elapsed moment := by
  have seconds : (timeAfter leap start (elapsed 2)).second = (timeAfter leap start moment).second ↔
      moment % 60 = elapsed 2 % 60 := by
    rw [time_after_second, time_after_second]
    omega
  have month := value_inj (lt_of_le_of_lt (timeAfter leap start (elapsed 6)).monthBound (by decide))
    (lt_of_le_of_lt (timeAfter leap start moment).monthBound (by decide))
  have day := value_inj (lt_of_le_of_lt (timeAfter leap start (elapsed 5)).dayBound (by decide))
    (lt_of_le_of_lt (timeAfter leap start moment).dayBound (by decide))
  have hour := value_inj (lt_trans (timeAfter leap start (elapsed 4)).hourBound (by decide))
    (lt_trans (timeAfter leap start moment).hourBound (by decide))
  have minute := value_inj (lt_trans (timeAfter leap start (elapsed 3)).minuteBound (by decide))
    (lt_trans (timeAfter leap start moment).minuteBound (by decide))
  have second := value_inj (lt_trans (timeAfter leap start (elapsed 2)).secondBound (by decide))
    (lt_trans (timeAfter leap start moment).secondBound (by decide))
  rw [date_read_binary leap start elapsed binary hours24, dateOf, SystemDate.mk.injEq,
    full_year_inj (Time.yearBound _) (Time.yearBound _), month, day, hour, minute, second, seconds]
  constructor
  · rintro ⟨year, month, day, hour, minute, aligned⟩
    exact ⟨aligned, minute, hour, day, month, year⟩
  · rintro ⟨aligned, minute, hour, day, month, year⟩
    exact ⟨year, month, day, hour, minute, aligned⟩

/-- Reads that take less than a minute give a date the clock held exactly if no register
read after the seconds has changed since. Slower reads may also give that of another
minute. -/
theorem held_iff_registers_agree (binary : statusB &&& 0x04 ≠ 0) (hours24 : statusB &&& 0x02 ≠ 0)
    (ordered : Monotone elapsed) :
    (elapsed 7 < elapsed 0 + 60 →
      (HeldBetween leap start statusB elapsed ↔ Agrees leap start elapsed (elapsed 2))) ∧
    (HeldBetween leap start statusB elapsed ↔
      ∃ moment, elapsed 0 ≤ moment ∧ moment ≤ elapsed 7 ∧ moment % 60 = elapsed 2 % 60 ∧
        Agrees leap start elapsed moment) := by
  have general : HeldBetween leap start statusB elapsed ↔
      ∃ moment, elapsed 0 ≤ moment ∧ moment ≤ elapsed 7 ∧ moment % 60 = elapsed 2 % 60 ∧
        Agrees leap start elapsed moment := by
    simp only [HeldBetween, date_read_eq_iff leap start elapsed binary hours24]
  refine ⟨?_, general⟩
  intro quick
  have lower : elapsed 0 ≤ elapsed 2 := ordered (by decide)
  have upper : elapsed 2 ≤ elapsed 7 := ordered (by decide)
  rw [general]
  constructor
  · rintro ⟨moment, after, before, aligned, agrees⟩
    have same : moment = elapsed 2 := by omega
    rw [← same]
    exact agrees
  · intro agrees
    exact ⟨elapsed 2, lower, upper, rfl, agrees⟩

end Reads

/-- One update, after all reads but that of the year. -/
theorem late_update_held :
    HeldBetween everyFourth beforeTheMinute 0x06 fun index => if index < 7 then 0 else 1 := by
  refine ((held_iff_registers_agree everyFourth beforeTheMinute _ (by decide) (by decide) ?_).1
    (by decide)).mpr ⟨rfl, rfl, rfl, rfl, rfl⟩
  intro first last le
  dsimp only
  split_ifs <;> omega

/-- One update right after the read of the seconds: the date read is 12:01:59. -/
theorem torn_minute :
    ¬HeldBetween everyFourth beforeTheMinute 0x06 fun index => if index < 3 then 0 else 1 := by
  rintro ⟨moment, _, late, same⟩
  have bound : moment ≤ 1 := late
  have early : moment = 0 ∨ moment = 1 := by omega
  rcases early with rfl | rfl
  · exact absurd same (by decide)
  · exact absurd same (by decide)

end KittyOs.RtcSnapshot
