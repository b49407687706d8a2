import Mathlib.Tactic.IntervalCases
import KittyOs.Lib.AccessPrograms
import KittyOs.RtcModel

/-!
# The clock chip behind its two ports

`clock/rtc.cpp` at the level of `outb` and `inb`. Port 0x70 selects a register of the
chip and port 0x71 reads or writes the one that is selected. Before each of these
instructions the chip may go on, and the handler of IRQ 8 may run, which selects and
reads register C. After an access through the data port some chips keep the register
selected and others go back to register D.
-/

namespace KittyOs.CmosPorts

open KittyOs.Lib.AccessPrograms KittyOs.Lib.ByteMemory KittyOs.RtcModel

set_option autoImplicit false

/-! ### The chip -/

inductive AfterAccess where
  | keeps
  | resets
deriving DecidableEq, Repr

def AfterAccess.index : AfterAccess → Byte → Byte
  | .keeps, index => index
  | .resets, _ => 0x0D

structure Chip where
  index : Byte
  registers : Cmos

/-- Bit 7 of port 0x70 masks the NMI and does not select. -/
def Chip.select (chip : Chip) (value : Byte) : Chip := { chip with index := value &&& 0x7F }

/-- Reading register C clears it. -/
def Chip.load (mode : AfterAccess) (chip : Chip) : Byte × Chip :=
  (chip.registers chip.index,
    { index := mode.index chip.index
      registers :=
        if chip.index = 0x0C then Function.update chip.registers 0x0C 0 else chip.registers })

/-- Bit 7 of register A and registers C and D cannot be written. -/
def Chip.store (mode : AfterAccess) (chip : Chip) (value : Byte) : Chip :=
  { index := mode.index chip.index
    registers :=
      if chip.index = 0x0C ∨ chip.index = 0x0D then chip.registers
      else if chip.index = 0x0A then
        Function.update chip.registers 0x0A ((value &&& 0x7F) ||| (chip.registers 0x0A &&& 0x80))
      else Function.update chip.registers chip.index value }

inductive PortAccess where
  | outb (port : BitVec 16) (value : Byte)
  | inb (port : BitVec 16)
deriving DecidableEq, Repr

def respond (mode : AfterAccess) (chip : Chip) : PortAccess → Byte × Chip
  | .outb port value =>
      if port = 0x70 then (0, chip.select value)
      else if port = 0x71 then (0, chip.store mode value)
      else (0, chip)
  | .inb port => if port = 0x71 then chip.load mode else (0, chip)

/-! ### The driver -/

abbrev PortProgram := Program PortAccess Byte

def outb (port : BitVec 16) (value : Byte) : PortProgram Unit := do
  let _ ← Program.request (.outb port value)
  pure ()

def inb (port : BitVec 16) : PortProgram Byte := Program.request (.inb port)

def readCmosRegister (reg : Byte) : PortProgram Byte := do
  outb 0x70 reg
  inb 0x71

def isBcdMode : PortProgram Bool := do
  let statusB ← readCmosRegister 0x0B
  pure (statusB &&& 0x04 == 0)

def is24HourMode : PortProgram Bool := do
  let statusB ← readCmosRegister 0x0B
  pure (statusB &&& 0x02 != 0)

def getSystemDate : PortProgram SystemDate := do
  let bcdMode ← isBcdMode
  let hour24Mode ← is24HourMode
  let second ← readCmosRegister 0x00
  let minute ← readCmosRegister 0x02
  let hour ← readCmosRegister 0x04
  let day ← readCmosRegister 0x07
  let month ← readCmosRegister 0x08
  let year ← readCmosRegister 0x09
  let decode (value : Byte) : Byte := if bcdMode then bcdToBinary value else value
  let hour := if !hour24Mode then convertTo24Hour (decode hour) else decode hour
  pure
    { year := fullYear ((decode year).setWidth 64)
      month := (decode month).setWidth 64
      day := (decode day).setWidth 64
      hour := hour.setWidth 64
      minute := (decode minute).setWidth 64
      second := (decode second).setWidth 64 }

def irqHandler : PortProgram Unit := do
  outb 0x70 0x0C
  let _ ← inb 0x71
  pure ()

/-- `hooked` is whether `hook_irq` succeeds; where it does not, the function halts. -/
def initializeRtc (hooked : Bool) : PortProgram (Option Unit) := do
  outb 0x70 0x8A
  outb 0x71 0x20
  if hooked then
    outb 0x70 0x8B
    let prev ← inb 0x71
    outb 0x70 0x8B
    outb 0x71 (prev ||| 0x40)
    pure (some ())
  else pure none

/-! ### What happens between two instructions -/

/-- A step of the chip's own. It leaves register B alone, and of register A it changes
the update bit only. -/
structure ChipStep where
  change : Cmos → Cmos
  keepsB : ∀ cmos, change cmos 0x0B = cmos 0x0B
  keepsA : ∀ cmos, change cmos 0x0A &&& 0x7F = cmos 0x0A &&& 0x7F

/-- The end of an update: the next second is shown and the update bit cleared. -/
def clockUpdate (leap : Nat → Bool) (time : Time) : ChipStep where
  change := fun cmos reg =>
    if reg = 0x0A then cmos 0x0A &&& 0x7F
    else if reg ∈ [0x00, 0x02, 0x04, 0x07, 0x08, 0x09] then
      registers (cmos 0x0B) (tick leap time) reg
    else cmos reg
  keepsB := fun _ => by simp
  keepsA := fun _ => by simp [BitVec.and_assoc]

inductive Event where
  | irq8
  | chip (step : ChipStep)

def Event.isIrq8 : Event → Bool
  | .irq8 => true
  | .chip _ => false

/-- The handler runs with interrupts masked, so nothing runs between its instructions. -/
def Event.apply (mode : AfterAccess) (chip : Chip) : Event → Chip
  | .irq8 => (irqHandler.runAlone (respond mode) chip).2
  | .chip step => { chip with registers := step.change chip.registers }

def applyAll (mode : AfterAccess) (events : List Event) (chip : Chip) : Chip :=
  events.foldl (Event.apply mode) chip

/-! ### Reading the date -/

section Reads

variable (mode : AfterAccess) (meanwhile : Nat → Chip → Chip)

/-- The chip as the data port finds it in a read that starts with the access `count`. -/
def chipAtRead (reg : Byte) (count : Nat) (chip : Chip) : Chip :=
  meanwhile (count + 1) ((meanwhile count chip).select reg)

def chipsAtReads : List Byte → Nat → Chip → List Chip
  | [], _, _ => []
  | reg :: regs, count, chip =>
      let found := chipAtRead meanwhile reg count chip
      found :: chipsAtReads regs (count + 2) (found.load mode).2

theorem run_read_cmos_register (reg : Byte) (count : Nat) (chip : Chip) :
    (readCmosRegister reg).run (respond mode) meanwhile count chip =
      (((chipAtRead meanwhile reg count chip).load mode).1, count + 2,
        ((chipAtRead meanwhile reg count chip).load mode).2) := by
  rfl

end Reads

def dateRegisters : List Byte := [0x0B, 0x0B, 0x00, 0x02, 0x04, 0x07, 0x08, 0x09]

/-- Each value of the date is what the selected register holds when its data port is read. -/
theorem run_get_system_date (mode : AfterAccess) (meanwhile : Nat → Chip → Chip) (chip : Chip) :
    (getSystemDate.run (respond mode) meanwhile 0 chip).1 =
      RtcModel.getSystemDate fun index _ =>
        (((chipsAtReads mode meanwhile dateRegisters 0 chip).getD index chip).load mode).1 := by
  simp only [getSystemDate, isBcdMode, is24HourMode, Program.run_bind, run_read_cmos_register,
    Program.run_pure]
  rfl

theorem irq8_apply (mode : AfterAccess) (chip : Chip) :
    Event.irq8.apply mode chip = ((chip.select 0x0C).load mode).2 := by
  rfl

theorem apply_all_index (mode : AfterAccess) (events : List Event) (chip : Chip) :
    (applyAll mode events chip).index =
      if events.any Event.isIrq8 then mode.index 0x0C else chip.index := by
  induction events generalizing chip with
  | nil => rfl
  | cons event events ih =>
      rw [applyAll, List.foldl_cons, ← applyAll, ih, List.any_cons]
      cases event with
      | irq8 => simp [Event.isIrq8, irq8_apply, Chip.load, Chip.select]
      | chip step => simp [Event.isIrq8, Event.apply]

theorem chips_at_reads_index (mode : AfterAccess) (events : Nat → List Event) (regs : List Byte)
    (count : Nat) (chip other : Chip) {index : Nat} (inside : index < regs.length) :
    ((chipsAtReads mode (fun moment => applyAll mode (events moment)) regs count chip).getD index
        other).index =
      if (events (count + 2 * index + 1)).any Event.isIrq8 then mode.index 0x0C
      else regs[index] &&& 0x7F := by
  induction regs generalizing count chip index with
  | nil => exact absurd inside (Nat.not_lt_zero index)
  | cons reg regs ih =>
      cases index with
      | zero =>
          rw [chipsAtReads, List.getD_cons_zero, chipAtRead, apply_all_index]
          rfl
      | succ index =>
          rw [chipsAtReads, List.getD_cons_succ, ih _ _ (Nat.lt_of_succ_lt_succ inside)]
          rw [show count + 2 + 2 * index + 1 = count + 2 * (index + 1) + 1 by omega]
          rfl

/-- The date depends on one register of each of the eight files only. -/
theorem system_date_congr {seen other : Nat → Cmos}
    (same : ∀ index (inside : index < dateRegisters.length),
      seen index dateRegisters[index] = other index dateRegisters[index]) :
    RtcModel.getSystemDate seen = RtcModel.getSystemDate other := by
  have bcd : RtcModel.isBcdMode (seen 0) = RtcModel.isBcdMode (other 0) := by
    rw [RtcModel.isBcdMode, RtcModel.isBcdMode, RtcModel.readCmosRegister]
    exact congrArg (fun value : Byte => value &&& 0x04 == 0) (same 0 (by decide))
  have hour24 : RtcModel.is24HourMode (seen 1) = RtcModel.is24HourMode (other 1) := by
    rw [RtcModel.is24HourMode, RtcModel.is24HourMode, RtcModel.readCmosRegister]
    exact congrArg (fun value : Byte => value &&& 0x02 != 0) (same 1 (by decide))
  have second : RtcModel.readCmosRegister (seen 2) 0x00 =
      RtcModel.readCmosRegister (other 2) 0x00 := same 2 (by decide)
  have minute : RtcModel.readCmosRegister (seen 3) 0x02 =
      RtcModel.readCmosRegister (other 3) 0x02 := same 3 (by decide)
  have hour : RtcModel.readCmosRegister (seen 4) 0x04 =
      RtcModel.readCmosRegister (other 4) 0x04 := same 4 (by decide)
  have day : RtcModel.readCmosRegister (seen 5) 0x07 =
      RtcModel.readCmosRegister (other 5) 0x07 := same 5 (by decide)
  have month : RtcModel.readCmosRegister (seen 6) 0x08 =
      RtcModel.readCmosRegister (other 6) 0x08 := same 6 (by decide)
  have year : RtcModel.readCmosRegister (seen 7) 0x09 =
      RtcModel.readCmosRegister (other 7) 0x09 := same 7 (by decide)
  simp only [RtcModel.getSystemDate, bcd, hour24, second, minute, hour, day, month, year]

theorem date_registers_select :
    ∀ index (inside : index < dateRegisters.length),
      dateRegisters[index] &&& 0x7F = dateRegisters[index] := by
  decide

theorem date_register_ne_c :
    ∀ index (inside : index < dateRegisters.length), dateRegisters[index] ≠ 0x0C := by
  decide

/-- Whatever the chip and the handler of IRQ 8 do between the instructions, each value
read is that of the register asked for, as it stood when it was read, unless the handler
ran between the two instructions of the read: then it is that of register C or D. -/
theorem date_through_ports (mode : AfterAccess) (events : Nat → List Event) (chip : Chip) :
    (getSystemDate.run (respond mode) (fun moment => applyAll mode (events moment)) 0 chip).1 =
      RtcModel.getSystemDate fun index reg =>
        ((chipsAtReads mode (fun moment => applyAll mode (events moment)) dateRegisters 0
          chip).getD index chip).registers
            (if (events (2 * index + 1)).any Event.isIrq8 then mode.index 0x0C else reg) := by
  rw [run_get_system_date]
  apply system_date_congr
  intro index inside
  rw [Chip.load, chips_at_reads_index mode events dateRegisters 0 chip chip inside,
    date_registers_select index inside, Nat.zero_add]

/-- An update between the reads of the seconds and of the minutes. -/
theorem date_over_an_update :
    (getSystemDate.run (respond .keeps) (fun moment => applyAll .keeps
      (if moment = 6 then [.chip (clockUpdate everyFourth beforeTheMinute)] else [])) 0
        ⟨0, registers 0x06 beforeTheMinute⟩).1 = ⟨2025, 1, 25, 12, 1, 59⟩ := by
  rw [date_through_ports]
  decide

/-! ### Interrupts only -/

/-- Registers in binary 24-hour mode with one value among zeros. -/
def probe (target value : Byte) : Cmos := fun reg =>
  if reg = 0x0B then 0x06 else if reg = target then value else 0

/-- The date shows every read that gives 0 in place of the register. -/
theorem disturbed_read_shows (disturbed : Nat → Bool) {index : Nat} (inside : index < 8)
    (hit : disturbed index = true) :
    ∃ target value, probe target value 0x0C = 0 ∧ probe target value 0x0D = 0 ∧
      RtcModel.getSystemDate (fun read reg => if disturbed read then 0 else probe target value reg) ≠
        RtcModel.getSystemDate fun _ => probe target value := by
  have shown : ∀ {Field : Type} (field : SystemDate → Field) {seen other : Nat → Cmos},
      field (RtcModel.getSystemDate seen) ≠ field (RtcModel.getSystemDate other) →
      RtcModel.getSystemDate seen ≠ RtcModel.getSystemDate other := by
    intro Field field seen other different same
    exact different (congrArg field same)
  interval_cases index
  · refine ⟨0x00, 0x10, rfl, rfl, shown SystemDate.second ?_⟩
    cases second : disturbed 2 <;>
      simp only [RtcModel.getSystemDate, RtcModel.isBcdMode, RtcModel.readCmosRegister,
        hit, second, if_true, if_false, Bool.false_eq_true] <;>
      decide
  · refine ⟨0x04, 0x0C, rfl, rfl, shown SystemDate.hour ?_⟩
    cases bcd : disturbed 0 <;> cases hour : disturbed 4 <;>
      simp only [RtcModel.getSystemDate, RtcModel.isBcdMode, RtcModel.is24HourMode,
        RtcModel.readCmosRegister,
        hit, bcd, hour, if_true, if_false, Bool.false_eq_true] <;>
      decide
  · refine ⟨0x00, 0x01, rfl, rfl, shown SystemDate.second ?_⟩
    cases bcd : disturbed 0 <;>
      simp only [RtcModel.getSystemDate, RtcModel.isBcdMode, RtcModel.readCmosRegister,
        hit, bcd, if_true, if_false, Bool.false_eq_true] <;>
      decide
  · refine ⟨0x02, 0x01, rfl, rfl, shown SystemDate.minute ?_⟩
    cases bcd : disturbed 0 <;>
      simp only [RtcModel.getSystemDate, RtcModel.isBcdMode, RtcModel.readCmosRegister,
        hit, bcd, if_true, if_false, Bool.false_eq_true] <;>
      decide
  · refine ⟨0x04, 0x01, rfl, rfl, shown SystemDate.hour ?_⟩
    cases bcd : disturbed 0 <;> cases hour24 : disturbed 1 <;>
      simp only [RtcModel.getSystemDate, RtcModel.isBcdMode, RtcModel.is24HourMode,
        RtcModel.readCmosRegister,
        hit, bcd, hour24, if_true, if_false, Bool.false_eq_true] <;>
      decide
  · refine ⟨0x07, 0x01, rfl, rfl, shown SystemDate.day ?_⟩
    cases bcd : disturbed 0 <;>
      simp only [RtcModel.getSystemDate, RtcModel.isBcdMode, RtcModel.readCmosRegister,
        hit, bcd, if_true, if_false, Bool.false_eq_true] <;>
      decide
  · refine ⟨0x08, 0x01, rfl, rfl, shown SystemDate.month ?_⟩
    cases bcd : disturbed 0 <;>
      simp only [RtcModel.getSystemDate, RtcModel.isBcdMode, RtcModel.readCmosRegister,
        hit, bcd, if_true, if_false, Bool.false_eq_true] <;>
      decide
  · refine ⟨0x09, 0x01, rfl, rfl, shown SystemDate.year ?_⟩
    cases bcd : disturbed 0 <;>
      simp only [RtcModel.getSystemDate, RtcModel.isBcdMode, RtcModel.readCmosRegister,
        hit, bcd, if_true, if_false, Bool.false_eq_true] <;>
      decide

/-- The registers are the same, but for register C if it was not clear. -/
def Same (chip other : Chip) : Prop :=
  ∀ reg, reg ≠ 0x0C ∨ chip.registers 0x0C = 0 → other.registers reg = chip.registers reg

theorem Same.trans {chip other third : Chip} (first : Same chip other) (second : Same other third) :
    Same chip third := by
  intro reg kept
  have later : reg ≠ 0x0C ∨ other.registers 0x0C = 0 := by
    rcases kept with different | cleared
    · exact Or.inl different
    · exact Or.inr ((first 0x0C (Or.inr cleared)).trans cleared)
  exact (second reg later).trans (first reg kept)

theorem same_load (mode : AfterAccess) (chip : Chip) : Same chip (chip.load mode).2 := by
  intro reg kept
  rw [Chip.load]
  dsimp only
  split_ifs
  · by_cases same : reg = 0x0C
    · rw [same, Function.update_self, kept.resolve_left fun different => different same]
    · rw [Function.update_of_ne same]
  · rfl

theorem same_irqs (mode : AfterAccess) (count : Nat) (chip : Chip) :
    Same chip (applyAll mode (List.replicate count .irq8) chip) := by
  induction count generalizing chip with
  | zero => exact fun _ _ => rfl
  | succ count ih =>
      rw [List.replicate_succ, applyAll, List.foldl_cons, ← applyAll, irq8_apply]
      exact Same.trans (same_load mode (chip.select 0x0C)) (ih _)

/-- IRQ 8 handled the given number of times before each access. -/
def interrupted (mode : AfterAccess) (counts : Nat → Nat) (moment : Nat) : Chip → Chip :=
  applyAll mode (List.replicate (counts moment) .irq8)

theorem same_at_reads (mode : AfterAccess) (counts : Nat → Nat) (regs : List Byte) (count : Nat)
    (chip other : Chip) {index : Nat} (inside : index < regs.length) :
    Same chip ((chipsAtReads mode (interrupted mode counts) regs count chip).getD index other) := by
  induction regs generalizing count chip index with
  | nil => exact absurd inside (Nat.not_lt_zero index)
  | cons reg regs ih =>
      have found : Same chip (chipAtRead (interrupted mode counts) reg count chip) :=
        Same.trans (same_irqs mode (counts count) chip)
          (same_irqs mode (counts (count + 1)) (Chip.select _ reg))
      cases index with
      | zero => exact found
      | succ index =>
          exact (found.trans (same_load mode _)).trans (ih _ _ (Nat.lt_of_succ_lt_succ inside))

theorem interrupted_date (mode : AfterAccess) (counts : Nat → Nat) (chip : Chip) :
    (getSystemDate.run (respond mode) (interrupted mode counts) 0 chip).1 =
      RtcModel.getSystemDate fun index reg =>
        if counts (2 * index + 1) != 0 then
          ((chipsAtReads mode (interrupted mode counts) dateRegisters 0 chip).getD index
            chip).registers (mode.index 0x0C)
        else chip.registers reg := by
  have read := date_through_ports mode (fun moment => List.replicate (counts moment) .irq8) chip
  refine Eq.trans read (system_date_congr ?_)
  intro index inside
  have same : Same chip ((chipsAtReads mode (interrupted mode counts) dateRegisters 0 chip).getD
      index chip) := same_at_reads mode counts dateRegisters 0 chip chip inside
  have disturbed : (List.replicate (counts (2 * index + 1)) Event.irq8).any Event.isIrq8 =
      (counts (2 * index + 1) != 0) := by
    cases counts (2 * index + 1) <;> simp [List.replicate_succ, Event.isIrq8]
  rw [disturbed]
  cases counts (2 * index + 1) != 0
  · exact same _ (Or.inl (date_register_ne_c index inside))
  · rfl

/-- The date is the one in the registers, whatever these are, exactly if IRQ 8 is never
handled between the two instructions of a read. -/
theorem date_right_iff_reads_undisturbed (mode : AfterAccess) (counts : Nat → Nat) :
    (∀ chip : Chip,
      (getSystemDate.run (respond mode) (interrupted mode counts) 0 chip).1 =
        RtcModel.getSystemDate fun _ => chip.registers) ↔
      ∀ index < 8, counts (2 * index + 1) = 0 := by
  constructor
  · intro right index inside
    by_contra hit
    obtain ⟨target, value, clearC, clearD, differs⟩ :=
      disturbed_read_shows (fun index => counts (2 * index + 1) != 0) inside (bne_iff_ne.mpr hit)
    apply differs
    rw [← right ⟨0, probe target value⟩, interrupted_date]
    apply system_date_congr
    intro window within
    have same := same_at_reads mode counts dateRegisters 0 ⟨0, probe target value⟩
      ⟨0, probe target value⟩ within
    have clear : probe target value (mode.index 0x0C) = 0 := by
      cases mode
      · exact clearC
      · exact clearD
    rw [same _ (Or.inr clearC)]
    dsimp only
    rw [clear]
  · intro clear chip
    rw [interrupted_date]
    apply system_date_congr
    intro window within
    rw [clear window within]
    rfl

/-! ### Starting the clock -/

/-- While interrupts are masked IRQ 8 waits. -/
def masked (events : List Event) : List Event := events.filter fun event => !event.isIrq8

/-- Interrupts are masked up to the end of `hook_irq`, which enables them, and so for the
first two accesses only. -/
def startup (mode : AfterAccess) (events : Nat → List Event) (moment : Nat) : Chip → Chip :=
  applyAll mode (if moment < 2 then masked (events moment) else events moment)

/-- The rate in register A and the modes in register B. -/
def Chip.settings (chip : Chip) : Byte × Byte := (chip.registers 0x0A &&& 0x7F, chip.registers 0x0B)

theorem event_keeps_settings (mode : AfterAccess) (chip : Chip) (event : Event) :
    (event.apply mode chip).settings = chip.settings := by
  cases event with
  | irq8 => rfl
  | chip step => exact Prod.ext (step.keepsA chip.registers) (step.keepsB chip.registers)

theorem apply_all_keeps_settings (mode : AfterAccess) (events : List Event) (chip : Chip) :
    (applyAll mode events chip).settings = chip.settings := by
  induction events generalizing chip with
  | nil => rfl
  | cons event events ih =>
      rw [applyAll, List.foldl_cons, ← applyAll, ih, event_keeps_settings]

theorem startup_keeps_settings (mode : AfterAccess) (events : Nat → List Event) (moment : Nat)
    (chip : Chip) : (startup mode events moment chip).settings = chip.settings :=
  apply_all_keeps_settings mode _ chip

theorem startup_index (mode : AfterAccess) (events : Nat → List Event) (moment : Nat) (chip : Chip) :
    (startup mode events moment chip).index =
      if 2 ≤ moment ∧ (events moment).any Event.isIrq8 then mode.index 0x0C else chip.index := by
  rw [startup, apply_all_index]
  by_cases early : moment < 2
  · have none : (masked (events moment)).any Event.isIrq8 = false := by
      simp [masked]
    rw [if_pos early, none, if_neg Bool.false_ne_true, if_neg fun late => absurd late.1 (by omega)]
  · rw [if_neg early]
    simp [Nat.le_of_not_lt early]

theorem load_keeps_settings (mode : AfterAccess) (chip : Chip) :
    (chip.load mode).2.settings = chip.settings := by
  rw [Chip.load]
  dsimp only
  split_ifs <;> rfl

theorem rate_written (value old : Byte) :
    ((value &&& 0x7F) ||| (old &&& 0x80)) &&& 0x7F = value &&& 0x7F := by
  have clear : old &&& 0x80 &&& 0x7F = 0#8 := by
    rw [BitVec.and_assoc, show (0x80 : Byte) &&& 0x7F = 0#8 by decide, BitVec.and_zero]
  rw [BitVec.and_comm, BitVec.and_or_distrib_left, BitVec.and_comm _ (old &&& 0x80), clear,
    BitVec.or_zero, BitVec.and_comm, BitVec.and_assoc, BitVec.and_self]

theorem store_settings (mode : AfterAccess) (chip : Chip) (value : Byte) :
    (chip.store mode value).settings =
      if chip.index = 0x0A then (value &&& 0x7F, chip.settings.2)
      else if chip.index = 0x0B then (chip.settings.1, value)
      else chip.settings := by
  by_cases rate : chip.index = 0x0A
  · rw [if_pos rate, Chip.settings, Chip.store, rate, if_neg (by decide), if_pos rfl]
    exact Prod.ext (rate_written value (chip.registers 0x0A)) rfl
  · rw [if_neg rate, Chip.settings, Chip.store]
    dsimp only
    rw [if_neg rate]
    by_cases status : chip.index = 0x0B
    · rw [if_pos status, status, if_neg (by decide)]
      rfl
    · rw [if_neg status]
      split_ifs
      · rfl
      · exact Prod.ext (by rw [Function.update_of_ne (Ne.symm rate)]; rfl)
          (Function.update_of_ne (Ne.symm status) _ _)

/-- The chip as `initialize_rtc` reads register B. -/
def chipAtStatusRead (mode : AfterAccess) (events : Nat → List Event) (chip : Chip) : Chip :=
  let rated := startup mode events 1 ((startup mode events 0 chip).select 0x8A)
  chipAtRead (startup mode events) 0x8B 2 (rated.store mode 0x20)

theorem chip_at_status_read_settings (mode : AfterAccess) (events : Nat → List Event)
    (chip : Chip) : (chipAtStatusRead mode events chip).settings = (0x20, chip.registers 0x0B) := by
  have selected : (startup mode events 1 ((startup mode events 0 chip).select 0x8A)).index =
      0x0A := by
    rw [startup_index]
    rfl
  have rated : (startup mode events 1 ((startup mode events 0 chip).select 0x8A)).settings =
      chip.settings := by
    rw [startup_keeps_settings]
    exact startup_keeps_settings mode events 0 chip
  calc (chipAtStatusRead mode events chip).settings
      = ((startup mode events 2 _).select 0x8B).settings := startup_keeps_settings mode events 3 _
    _ = _ := startup_keeps_settings mode events 2 _
    _ = (0x20, chip.registers 0x0B) := by
      rw [store_settings, if_pos selected, rated]
      rfl

theorem chip_at_status_read_index (mode : AfterAccess) (events : Nat → List Event) (chip : Chip) :
    (chipAtStatusRead mode events chip).index =
      if (events 3).any Event.isIrq8 then mode.index 0x0C else 0x0B := by
  rw [chipAtStatusRead, chipAtRead, startup_index]
  simp [Chip.select]

/-- `initialize_rtc` sets the rate, and of register B the bit for periodic interrupts
only, whatever happens between its instructions, but for the handler of IRQ 8 between
the selection of register B and the read or the write that follows. Before the read it
makes the function take register C or D for register B, before the write it makes the
write go to one of these, which cannot be written. -/
theorem rtc_settings_after_startup (mode : AfterAccess) (events : Nat → List Event) (chip : Chip) :
    ((initializeRtc true).run (respond mode) (startup mode events) 0 chip).2.2.settings =
      (0x20,
        if (events 5).any Event.isIrq8 then chip.registers 0x0B
        else (if (events 3).any Event.isIrq8 then
            (chipAtStatusRead mode events chip).registers (mode.index 0x0C)
          else chip.registers 0x0B) ||| 0x40) := by
  have settings := chip_at_status_read_settings mode events chip
  have statusIndex := chip_at_status_read_index mode events chip
  have ran : ((initializeRtc true).run (respond mode) (startup mode events) 0 chip).2.2 =
      (startup mode events 5 ((startup mode events 4
        ((chipAtStatusRead mode events chip).load mode).2).select 0x8B)).store mode
          (((chipAtStatusRead mode events chip).load mode).1 ||| 0x40) := rfl
  generalize chipAtStatusRead mode events chip = status at *
  have writeSettings : (startup mode events 5 ((startup mode events 4
      (status.load mode).2).select 0x8B)).settings = (0x20, chip.registers 0x0B) := by
    rw [← settings, ← load_keeps_settings mode status, startup_keeps_settings]
    exact startup_keeps_settings mode events 4 _
  have writeIndex : (startup mode events 5 ((startup mode events 4
      (status.load mode).2).select 0x8B)).index =
        if (events 5).any Event.isIrq8 then mode.index 0x0C else 0x0B := by
    rw [startup_index]
    simp [Chip.select]
  have value : (status.load mode).1 = if (events 3).any Event.isIrq8 then
      status.registers (mode.index 0x0C) else chip.registers 0x0B := by
    rw [Chip.load]
    dsimp only
    rw [statusIndex]
    split_ifs
    · rfl
    · exact congrArg Prod.snd settings
  rw [ran, store_settings, writeIndex, writeSettings, value]
  cases (events 5).any Event.isIrq8
  · rfl
  · cases mode <;> rfl

end KittyOs.CmosPorts
