import KittyOs.IrqModel
import KittyOs.Lib.BitFields

/-!
# Redirection entries

An entry is packed of fields that have no bit in common and stored in two registers
of its own. What `ioapic_set_redirection` was given is therefore what
`ioapic_get_redirection` reads back, but for the destination: in physical mode only
four bits of it are stored.
-/

namespace KittyOs.RedirectionEntries

open KittyOs.Lib.BitFields KittyOs.MachineWord KittyOs.IrqModel

set_option autoImplicit false

/-! ### The two registers of an entry -/

theorem index_to_nat (irq : BitVec 8) :
    (lowIndex irq).toNat = 16 + 2 * irq.toNat ∧ (highIndex irq).toNat = 17 + 2 * irq.toNat := by
  have bound := irq.isLt
  unfold lowIndex highIndex redirectionBase
  constructor <;> bv_omega

theorem join_halves (word : U64) :
    (((word >>> 32).setWidth 32).setWidth 64 <<< 32) |||
      ((word &&& 0xFFFFFFFF).setWidth 32).setWidth 64 = word := by
  have bound := word.isLt
  have mask : (0xFFFFFFFF : U64).toNat = 2 ^ 32 - 1 := rfl
  apply BitVec.eq_of_toNat_eq
  simp only [BitVec.toNat_or, BitVec.toNat_shiftLeft, BitVec.toNat_setWidth,
    BitVec.toNat_ushiftRight, BitVec.toNat_and, mask, Nat.and_two_pow_sub_one_eq_mod,
    Nat.shiftRight_eq_div_pow]
  rw [Nat.mod_eq_of_lt (show word.toNat / 2 ^ 32 % 2 ^ 32 < 2 ^ 64 by omega),
    Nat.mod_eq_of_lt (show word.toNat / 2 ^ 32 < 2 ^ 32 by omega),
    Nat.mod_eq_of_lt (show (word.toNat / 2 ^ 32) <<< 32 < 2 ^ 64 by
      rw [Nat.shiftLeft_eq]; omega),
    Nat.mod_mod, Nat.mod_eq_of_lt (show word.toNat % 2 ^ 32 < 2 ^ 64 by omega),
    ← Nat.shiftLeft_add_eq_or_of_lt (show word.toNat % 2 ^ 32 < 2 ^ 32 by omega),
    Nat.shiftLeft_eq]
  omega

/-- The two writes at the end of `ioapic_set_redirection`. -/
def writeEntry (devices : IoApics) (pin : Pin) (word : U64) : IoApics :=
  ioapicWrite (ioapicWrite devices pin.base (highIndex pin.index) ((word >>> 32).setWidth 32))
    pin.base (lowIndex pin.index) ((word &&& 0xFFFFFFFF).setWidth 32)

theorem write_entry_registers (devices : IoApics) (pin : Pin) (word base : U64)
    (reg : BitVec 32) :
    writeEntry devices pin word base reg =
      if base = pin.base ∧ reg = lowIndex pin.index then (word &&& 0xFFFFFFFF).setWidth 32
      else if base = pin.base ∧ reg = highIndex pin.index then (word >>> 32).setWidth 32
      else devices base reg := by
  simp only [writeEntry, ioapicWrite, Function.update_apply, if_true]
  by_cases sameBase : base = pin.base
  · simp only [sameBase, if_true, Function.update_apply, true_and]
  · simp only [sameBase, if_false, false_and]

theorem get_written (devices : IoApics) (pin : Pin) (word : U64) :
    ioapicGetRedirection (writeEntry devices pin word) pin.base pin.index = word := by
  have indexes := index_to_nat pin.index
  have apart : highIndex pin.index ≠ lowIndex pin.index := by
    intro same
    rw [same] at indexes
    omega
  simp only [ioapicGetRedirection, ioapicRead, write_entry_registers, apart, and_self,
    and_false, if_true, if_false]
  exact join_halves word

/-- A register that is not one of the pin's two keeps its value. -/
theorem write_entry_elsewhere (devices : IoApics) (pin : Pin) (word base : U64)
    {reg : BitVec 32} (elsewhere : base = pin.base →
      reg.toNat ≠ 16 + 2 * pin.index.toNat ∧ reg.toNat ≠ 17 + 2 * pin.index.toNat) :
    writeEntry devices pin word base reg = devices base reg := by
  obtain ⟨low, high⟩ := index_to_nat pin.index
  rw [write_entry_registers, if_neg, if_neg]
  · intro both
    apply (elsewhere both.1).2
    rw [both.2, high]
  · intro both
    apply (elsewhere both.1).1
    rw [both.2, low]

theorem get_other (devices : IoApics) {pin other : Pin} (word : U64) (different : other ≠ pin) :
    ioapicGetRedirection (writeEntry devices pin word) other.base other.index =
      ioapicGetRedirection devices other.base other.index := by
  obtain ⟨low, high⟩ := index_to_nat other.index
  have apart : other.base = pin.base → other.index.toNat ≠ pin.index.toNat := by
    intro sameBase sameIndex
    apply different
    cases pin
    cases other
    simp only [Pin.mk.injEq]
    exact ⟨sameBase, BitVec.eq_of_toNat_eq sameIndex⟩
  have lowKept : writeEntry devices pin word other.base (lowIndex other.index) =
      devices other.base (lowIndex other.index) := by
    apply write_entry_elsewhere
    intro sameBase
    have distinct := apart sameBase
    rw [low]
    omega
  have highKept : writeEntry devices pin word other.base (highIndex other.index) =
      devices other.base (highIndex other.index) := by
    apply write_entry_elsewhere
    intro sameBase
    have distinct := apart sameBase
    rw [high]
    omega
  simp only [ioapicGetRedirection, ioapicRead, lowKept, highKept]

/-- The version register is not one of an entry, so the number of pins stays. -/
theorem written_redirections (devices : IoApics) (pin : Pin) (word base : U64) :
    getIoapicMaxRedirections (writeEntry devices pin word) base =
      getIoapicMaxRedirections devices base := by
  have version : writeEntry devices pin word base 0x01 = devices base 0x01 := by
    apply write_entry_elsewhere
    intro _
    have one : (0x01 : BitVec 32).toNat = 1 := rfl
    omega
  simp only [getIoapicMaxRedirections, ioapicRead, version]

/-! ### The fields of an entry -/

def vectorField : Field := ⟨0, 8⟩
def deliveryModeField : Field := ⟨8, 3⟩
def destinationModeField : Field := ⟨11, 1⟩
def deliveryStatusField : Field := ⟨12, 1⟩
def pinPolarityField : Field := ⟨13, 1⟩
def remoteIrrField : Field := ⟨14, 1⟩
def triggerModeField : Field := ⟨15, 1⟩
def maskField : Field := ⟨16, 1⟩
def destinationField : Field := ⟨56, 8⟩

def entryPieces (entry : IoapicEntry) : List (Field × Nat) :=
  [(vectorField, entry.vector.toNat),
    (deliveryModeField, entry.deliveryMode.toNat),
    (destinationModeField, entry.destinationMode.toNat),
    (deliveryStatusField, entry.deliveryStatus.toNat),
    (pinPolarityField, entry.pinPolarity.toNat),
    (remoteIrrField, entry.remoteIrr.toNat),
    (triggerModeField, entry.triggerMode.toNat),
    (maskField, entry.mask.toNat),
    (destinationField, entry.destination.toNat)]

theorem flag_to_nat (flag : Bool) {shift : Nat} (fits : shift + 1 ≤ 64) :
    (flagBit flag <<< shift).toNat = Field.place ⟨shift, 1⟩ flag.toNat := by
  have bit : flagBit flag = (BitVec.ofBool flag).setWidth 64 := by cases flag <;> rfl
  rw [bit, shifted_to_nat _ fits, BitVec.toNat_ofBool]

theorem redirection_to_nat (entry : IoapicEntry) :
    entry.redirection.toNat = packed (entryPieces entry) := by
  have vector : (entry.vector.setWidth 64).toNat = vectorField.place entry.vector.toNat := by
    rw [← BitVec.shiftLeft_zero (entry.vector.setWidth 64)]
    exact shifted_to_nat entry.vector (by omega)
  simp only [IoapicEntry.redirection, BitVec.toNat_or, vector, Nat.or_assoc,
    flag_to_nat _ (show 11 + 1 ≤ 64 by omega), flag_to_nat _ (show 12 + 1 ≤ 64 by omega),
    flag_to_nat _ (show 13 + 1 ≤ 64 by omega), flag_to_nat _ (show 14 + 1 ≤ 64 by omega),
    flag_to_nat _ (show 15 + 1 ≤ 64 by omega), flag_to_nat _ (show 16 + 1 ≤ 64 by omega),
    shifted_to_nat entry.deliveryMode (show 8 + 3 ≤ 64 by omega),
    shifted_to_nat entry.destination (show 56 + 8 ≤ 64 by omega)]
  simp only [entryPieces, packed, Nat.or_zero]
  rfl

theorem entry_fields_apart (entry : IoapicEntry) :
    ((entryPieces entry).map Prod.fst).Pairwise Field.Apart := by
  apply apart_of_ascending
  simp only [entryPieces, List.map_cons, List.map_nil]
  decide

/-- Every field of an entry can be read from its word. -/
theorem redirection_field (entry : IoapicEntry) {field : Field} {value : Nat}
    (member : (field, value) ∈ entryPieces entry) :
    field.read entry.redirection.toNat = value % 2 ^ field.size := by
  rw [redirection_to_nat]
  exact read_packed (entry_fields_apart entry) member

/-! ### Setting an entry and getting it back -/

/-- The arguments of `ioapic_set_redirection` besides the pin. -/
structure Redirection where
  destination : U64
  vector : BitVec 8
  deliveryMode : BitVec 8
  levelTriggered : Bool
  physicalDestination : Bool
  deliveryStatus : Bool
  pinPolarity : Bool
  maskIrq : Bool
deriving DecidableEq, Repr

/-- The entry the arguments make. -/
def Redirection.entry (given : Redirection) : IoapicEntry where
  vector := given.vector
  deliveryMode := given.deliveryMode.setWidth 3
  destinationMode := !given.physicalDestination
  deliveryStatus := given.deliveryStatus
  pinPolarity := given.pinPolarity
  remoteIrr := false
  triggerMode := given.levelTriggered
  mask := given.maskIrq
  destination :=
    if given.physicalDestination then (given.destination &&& 0x0F).setWidth 8
    else (given.destination &&& 0xFF).setWidth 8

def Redirection.set (given : Redirection) (devices : IoApics) (pin : Pin) : IoApics :=
  ioapicSetRedirection devices pin.base pin.index given.destination given.vector
    given.deliveryMode given.levelTriggered given.physicalDestination given.deliveryStatus
    given.pinPolarity given.maskIrq

theorem set_eq_write (given : Redirection) (devices : IoApics) (pin : Pin) :
    given.set devices pin = writeEntry devices pin given.entry.redirection := rfl

/-- What `hook_irq` asks for. -/
def hookRedirection (cpuId : U64) (vector : Nat) : Redirection :=
  ⟨cpuId, (BitVec.ofNat 64 vector).setWidth 8, 0, false, true, false, false, false⟩

theorem entry_destination_to_nat (given : Redirection) :
    given.entry.destination.toNat =
      given.destination.toNat % (if given.physicalDestination then 16 else 256) := by
  have low : (0x0F : U64).toNat = 2 ^ 4 - 1 := rfl
  have byte : (0xFF : U64).toNat = 2 ^ 8 - 1 := rfl
  unfold Redirection.entry
  cases given.physicalDestination with
  | false =>
      simp only [Bool.false_eq_true, if_false, BitVec.toNat_setWidth, BitVec.toNat_and, byte,
        Nat.and_two_pow_sub_one_eq_mod]
      omega
  | true =>
      simp only [if_true, BitVec.toNat_setWidth, BitVec.toNat_and, low,
        Nat.and_two_pow_sub_one_eq_mod]
      omega

/-- The fields of the word, read as the I/O APIC lays them out, are the arguments. -/
structure Redirection.DecodedBy (given : Redirection) (word : U64) : Prop where
  vector : vectorField.read word.toNat = given.vector.toNat
  deliveryMode : deliveryModeField.read word.toNat = given.deliveryMode.toNat
  destinationMode : destinationModeField.read word.toNat = (!given.physicalDestination).toNat
  pinPolarity : pinPolarityField.read word.toNat = given.pinPolarity.toNat
  triggerMode : triggerModeField.read word.toNat = given.levelTriggered.toNat
  mask : maskField.read word.toNat = given.maskIrq.toNat
  destination : destinationField.read word.toNat = given.destination.toNat

theorem flag_mod (flag : Bool) : flag.toNat % 2 ^ 1 = flag.toNat := by
  cases flag <;> rfl

theorem entry_word_destination (given : Redirection) :
    destinationField.read given.entry.redirection.toNat =
      given.destination.toNat % (if given.physicalDestination then 16 else 256) := by
  have member : (destinationField, given.entry.destination.toNat) ∈ entryPieces given.entry := by
    simp [entryPieces]
  rw [redirection_field given.entry member, ← entry_destination_to_nat]
  exact Nat.mod_eq_of_lt given.entry.destination.isLt

theorem hook_redirection_vector (cpuId : U64) {vector : Nat} (bound : vector < 256) :
    vectorField.read (hookRedirection cpuId vector).entry.redirection.toNat = vector := by
  have member : (vectorField, ((BitVec.ofNat 64 vector).setWidth 8).toNat) ∈
      entryPieces (hookRedirection cpuId vector).entry := List.mem_cons_self
  rw [redirection_field _ member, BitVec.toNat_setWidth, BitVec.toNat_ofNat,
    Nat.mod_eq_of_lt (show vector < 2 ^ 64 by omega)]
  exact (Nat.mod_mod _ _).trans (Nat.mod_eq_of_lt bound)

/-- All but the destination decodes to what was given. -/
theorem decoded_iff_destination (given : Redirection) (mode : given.deliveryMode.toNat < 8) :
    given.DecodedBy given.entry.redirection ↔
      destinationField.read given.entry.redirection.toNat = given.destination.toNat := by
  constructor
  · intro decoded
    exact decoded.destination
  · intro destination
    have vector : (vectorField, given.vector.toNat) ∈ entryPieces given.entry := by
      simp [entryPieces, Redirection.entry]
    have deliveryMode :
        (deliveryModeField, (given.deliveryMode.setWidth 3).toNat) ∈ entryPieces given.entry := by
      simp [entryPieces, Redirection.entry]
    have destinationMode :
        (destinationModeField, (!given.physicalDestination).toNat) ∈ entryPieces given.entry := by
      simp [entryPieces, Redirection.entry]
    have pinPolarity :
        (pinPolarityField, given.pinPolarity.toNat) ∈ entryPieces given.entry := by
      simp [entryPieces, Redirection.entry]
    have triggerMode :
        (triggerModeField, given.levelTriggered.toNat) ∈ entryPieces given.entry := by
      simp [entryPieces, Redirection.entry]
    have mask : (maskField, given.maskIrq.toNat) ∈ entryPieces given.entry := by
      simp [entryPieces, Redirection.entry]
    constructor
    · exact (redirection_field _ vector).trans (Nat.mod_eq_of_lt given.vector.isLt)
    · rw [redirection_field _ deliveryMode, BitVec.toNat_setWidth]
      exact (Nat.mod_mod _ _).trans (Nat.mod_eq_of_lt mode)
    · exact (redirection_field _ destinationMode).trans (flag_mod _)
    · exact (redirection_field _ pinPolarity).trans (flag_mod _)
    · exact (redirection_field _ triggerMode).trans (flag_mod _)
    · exact (redirection_field _ mask).trans (flag_mod _)
    · exact destination

/-- Getting the entry of the pin gives back what was set, and the entries of all
other pins are as they were. -/
def SetThenGet (given : Redirection) (devices : IoApics) (pin : Pin) : Prop :=
  given.DecodedBy (ioapicGetRedirection (given.set devices pin) pin.base pin.index) ∧
    ∀ other : Pin, other ≠ pin →
      ioapicGetRedirection (given.set devices pin) other.base other.index =
        ioapicGetRedirection devices other.base other.index

theorem set_then_get_iff_destination_kept (given : Redirection) (devices : IoApics) (pin : Pin)
    (mode : given.deliveryMode.toNat < 8) (byte : given.destination.toNat < 256) :
    SetThenGet given devices pin ↔
      (given.physicalDestination = true → given.destination.toNat < 16) := by
  unfold SetThenGet
  rw [set_eq_write, get_written, decoded_iff_destination given mode, entry_word_destination]
  have others : ∀ other : Pin, other ≠ pin →
      ioapicGetRedirection (writeEntry devices pin given.entry.redirection) other.base
          other.index = ioapicGetRedirection devices other.base other.index :=
    fun other different => get_other devices given.entry.redirection different
  rw [and_iff_left others]
  cases given.physicalDestination with
  | false =>
      simp only [Bool.false_eq_true, if_false, false_implies, iff_true]
      exact Nat.mod_eq_of_lt byte
  | true =>
      simp only [if_true, true_implies]
      exact Nat.mod_eq_iff_lt (by omega)

theorem logical_destination_returned :
    SetThenGet ⟨0xA5, 0x31, 1, true, false, false, true, true⟩ (fun _ _ => 0)
      ⟨0xffff8000fec00000, 3⟩ := by
  rw [set_then_get_iff_destination_kept _ _ _ (by decide) (by decide)]
  intro physical
  exact absurd physical (by decide)

/-- The interrupt meant for processor 16 goes to processor 0. -/
theorem physical_destination_truncated :
    ¬SetThenGet ⟨16, 0x31, 0, false, true, false, false, false⟩ (fun _ _ => 0)
      ⟨0xffff8000fec00000, 3⟩ := by
  intro returned
  exact absurd returned.1.destination (by decide)

end KittyOs.RedirectionEntries
