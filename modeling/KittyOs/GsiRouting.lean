import KittyOs.RedirectionEntries
import KittyOs.VectorLeaks

/-!
# From an interrupt line to the entry that is programmed

`hook_irq` searches twice for a first match: the overrides for the line, and the
I/O APICs for the resulting interrupt. Here both searches are said in terms of the
lists and of natural numbers, and what a hook does to the devices is said in terms
of the entry of one pin.
-/

namespace KittyOs.GsiRouting

open KittyOs.Lib.ByteBitmap KittyOs.MachineWord KittyOs.IrqModel
open KittyOs.IrqVectors KittyOs.RedirectionEntries KittyOs.VectorLeaks

set_option autoImplicit false

/-! ### The interrupt of a line -/

def Overrides (iso : InterruptSourceOverrideEntry) (irq : U64) : Prop :=
  iso.bus = 0 ∧ iso.source.toNat = irq.toNat

/-- The interrupt of the first override on bus 0, or the number of the line itself. -/
inductive LineGsi (isos : List InterruptSourceOverrideEntry) (irq : U64) : U64 → Prop
  | overridden {before after : List InterruptSourceOverrideEntry}
      {iso : InterruptSourceOverrideEntry} (split : isos = before ++ iso :: after)
      (here : Overrides iso irq)
      (first : ∀ earlier ∈ before, ¬Overrides earlier irq) :
      LineGsi isos irq (iso.globalSystemInterrupt.setWidth 64)
  | same (unlisted : ∀ iso ∈ isos, ¬Overrides iso irq) :
      LineGsi isos irq irq

theorem matches_iff_overrides (iso : InterruptSourceOverrideEntry) (irq : U64) :
    (iso.source.setWidth 64 == irq && iso.bus == 0) = true ↔ Overrides iso irq := by
  have widened : iso.source.setWidth 64 = irq ↔ iso.source.toNat = irq.toNat := by
    rw [← BitVec.toNat_inj, BitVec.toNat_setWidth]
    have bound := iso.source.isLt
    rw [Nat.mod_eq_of_lt (by omega)]
  rw [Bool.and_eq_true, beq_iff_eq, beq_iff_eq, widened, and_comm]
  exact Iff.rfl

theorem resolved_line (platform : Platform) (irq : U64) :
    LineGsi platform.isos irq (resolveIrq platform false irq) := by
  unfold resolveIrq
  rw [if_neg (by simp)]
  split
  · next iso found =>
      obtain ⟨here, before, after, split, first⟩ := List.find?_eq_some_iff_append.mp found
      apply LineGsi.overridden split ((matches_iff_overrides iso irq).mp here)
      intro earlier member listed
      have missed := first earlier member
      rw [(matches_iff_overrides earlier irq).mpr listed] at missed
      exact absurd missed (by simp)
  · next missing =>
      apply LineGsi.same
      intro iso member listed
      exact List.find?_eq_none.mp missing iso member ((matches_iff_overrides iso irq).mpr listed)

/-! ### The I/O APIC of an interrupt -/

def mappedBase (ioApic : IoApicEntry) (hhdm : U64) : U64 :=
  ioApic.ioApicAddress.setWidth 64 + hhdm

/-- The number of pins, one more than the version register says. -/
def pinCount (devices : IoApics) (base : U64) : Nat := (devices base 0x01).toNat / 2 ^ 16 % 256 + 1

def Covers (platform : Platform) (devices : IoApics) (gsi : U64) (ioApic : IoApicEntry) : Prop :=
  ioApic.globalSystemInterruptBase.toNat ≤ gsi.toNat ∧
    gsi.toNat < ioApic.globalSystemInterruptBase.toNat +
      pinCount devices (mappedBase ioApic platform.hhdm)

/-- I/O APICs at distinct addresses whose interrupts have 32-bit numbers. -/
structure Wired (platform : Platform) (devices : IoApics) : Prop where
  distinct : platform.ioApics.Pairwise fun first second =>
    first.ioApicAddress ≠ second.ioApicAddress
  fits : ∀ ioApic ∈ platform.ioApics, ioApic.globalSystemInterruptBase.toNat +
    pinCount devices (mappedBase ioApic platform.hhdm) < 2 ^ 32
  few : ∀ ioApic ∈ platform.ioApics,
    pinCount devices (mappedBase ioApic platform.hhdm) ≤ 255

def FirstCovering (platform : Platform) (devices : IoApics) (gsi : U64) (ioApic : IoApicEntry) :
    Prop :=
  ∃ before after, platform.ioApics = before ++ ioApic :: after ∧
    Covers platform devices gsi ioApic ∧
    ∀ earlier ∈ before, ¬Covers platform devices gsi earlier

theorem max_redirections_to_nat {devices : IoApics} {base : U64}
    (few : pinCount devices base ≤ 255) :
    (getIoapicMaxRedirections devices base).toNat = pinCount devices base := by
  have mask : (0xFF : BitVec 32).toNat = 2 ^ 8 - 1 := rfl
  have one : (1 : BitVec 8).toNat = 1 := rfl
  unfold pinCount at few ⊢
  simp only [getIoapicMaxRedirections, ioapicRead, BitVec.toNat_add, BitVec.toNat_setWidth,
    BitVec.toNat_and, BitVec.toNat_ushiftRight, Nat.shiftRight_eq_div_pow, mask, one,
    Nat.and_two_pow_sub_one_eq_mod]
  omega

def gsiPin (platform : Platform) (gsi : U64) (ioApic : IoApicEntry) : Pin :=
  ⟨mappedBase ioApic platform.hhdm,
    BitVec.ofNat 8 (gsi.toNat - ioApic.globalSystemInterruptBase.toNat)⟩

open Classical in
/-- The test of the loop, in natural numbers. -/
theorem pin_on_eq {platform : Platform} {devices : IoApics} (wired : Wired platform devices)
    (gsi : U64) {ioApic : IoApicEntry} (member : ioApic ∈ platform.ioApics) :
    pinOn platform devices gsi ioApic =
      if Covers platform devices gsi ioApic then some (gsiPin platform gsi ioApic) else none := by
  have fits := wired.fits ioApic member
  have count := max_redirections_to_nat (wired.few ioApic member)
  have baseBound := ioApic.globalSystemInterruptBase.isLt
  have base : (ioApic.globalSystemInterruptBase.setWidth 64).toNat =
      ioApic.globalSystemInterruptBase.toNat := by
    rw [BitVec.toNat_setWidth]
    omega
  have gsiEnd : ((ioApic.globalSystemInterruptBase +
      (getIoapicMaxRedirections devices (mappedBase ioApic platform.hhdm)).setWidth
        32).setWidth 64).toNat = ioApic.globalSystemInterruptBase.toNat +
          pinCount devices (mappedBase ioApic platform.hhdm) := by
    rw [BitVec.toNat_setWidth, BitVec.toNat_add, BitVec.toNat_setWidth, count]
    omega
  have test : (decide (gsi ≥ ioApic.globalSystemInterruptBase.setWidth 64) &&
      decide (gsi < (ioApic.globalSystemInterruptBase +
        (getIoapicMaxRedirections devices (mappedBase ioApic platform.hhdm)).setWidth
          32).setWidth 64)) = true ↔ Covers platform devices gsi ioApic := by
    rw [Bool.and_eq_true, decide_eq_true_iff, decide_eq_true_iff, ge_iff_le, BitVec.le_def,
      BitVec.lt_def, base, gsiEnd]
    exact Iff.rfl
  have unfolded : pinOn platform devices gsi ioApic =
      if (decide (gsi ≥ ioApic.globalSystemInterruptBase.setWidth 64) &&
        decide (gsi < (ioApic.globalSystemInterruptBase +
          (getIoapicMaxRedirections devices (mappedBase ioApic platform.hhdm)).setWidth
            32).setWidth 64)) = true then
        some ⟨mappedBase ioApic platform.hhdm,
          (gsi - ioApic.globalSystemInterruptBase.setWidth 64).setWidth 8⟩
      else none := rfl
  rw [unfolded]
  by_cases covers : Covers platform devices gsi ioApic
  · rw [if_pos (test.mpr covers), if_pos covers, gsiPin]
    congr 2
    apply BitVec.eq_of_toNat_eq
    have order := covers.1
    rw [BitVec.toNat_setWidth, BitVec.toNat_ofNat, BitVec.toNat_sub_of_le, base]
    rw [BitVec.le_def, base]
    exact order
  · rw [if_neg (mt test.mp covers), if_neg covers]

theorem pin_of_some {platform : Platform} {devices : IoApics} (wired : Wired platform devices)
    {gsi : U64} {pin : Pin} (found : pinOf platform devices gsi = some pin) :
    ∃ ioApic, FirstCovering platform devices gsi ioApic ∧ pin = gsiPin platform gsi ioApic := by
  obtain ⟨before, ioApic, after, split, here, missed⟩ := List.findSome?_eq_some_iff.mp found
  have member : ∀ entry, entry ∈ before ∨ entry = ioApic → entry ∈ platform.ioApics := by
    intro entry place
    rw [split, List.mem_append, List.mem_cons]
    tauto
  rw [pin_on_eq wired gsi (member ioApic (Or.inr rfl))] at here
  split_ifs at here with covers
  refine ⟨ioApic, ⟨before, after, split, covers, ?_⟩, (Option.some.inj here).symm⟩
  intro entry inside earlier
  have skipped := missed entry inside
  rw [pin_on_eq wired gsi (member entry (Or.inl inside)), if_pos earlier] at skipped
  exact absurd skipped (by simp)

theorem pin_of_some_iff {platform : Platform} {devices : IoApics} (wired : Wired platform devices)
    (gsi : U64) :
    (pinOf platform devices gsi).isSome = true ↔
      ∃ ioApic ∈ platform.ioApics, Covers platform devices gsi ioApic := by
  unfold pinOf
  rw [List.findSome?_isSome_iff]
  constructor
  · rintro ⟨ioApic, member, found⟩
    rw [pin_on_eq wired gsi member] at found
    split_ifs at found with covers
    · exact ⟨ioApic, member, covers⟩
    · exact absurd found (by simp)
  · rintro ⟨ioApic, member, covers⟩
    refine ⟨ioApic, member, ?_⟩
    rw [pin_on_eq wired gsi member, if_pos covers]
    rfl

/-! ### What a hook programs -/

variable {Handler : Type}

/-- The vector `hook_irq` will take. -/
structure LeastFree (state : IrqState Handler) (cpuId : U64) (vector : Nat) : Prop where
  known : cpuId.toNat < maxCpus
  bound : vector < 256
  clear : isSet (state.vectors cpuId.toNat).vec vector = false
  least : ∀ lower, lower < vector → isSet (state.vectors cpuId.toNat).vec lower = true

theorem LeastFree.allocated {state : IrqState Handler} {cpuId : U64} {vector : Nat}
    (free : LeastFree state cpuId vector) :
    (allocateVectorOnCpu state.vectors cpuId).1 = BitVec.ofNat 64 vector := by
  rcases allocate_vector_cases state.vectors free.known with
    ⟨full, _⟩ | ⟨other, bound, clear, below, found⟩
  · have marked := full vector free.bound
    rw [free.clear] at marked
    exact absurd marked (by simp)
  · have notAbove : ¬vector < other := by
      intro lower
      have marked := below vector lower
      rw [free.clear] at marked
      exact absurd marked (by simp)
    have notBelow : ¬other < vector := by
      intro lower
      have marked := free.least other lower
      rw [clear] at marked
      exact absurd marked (by simp)
    have same : other = vector := by omega
    rw [found, same]

theorem hook_outcome {state : IrqState Handler} (reachable : IrqReachable state)
    (platform : Platform) (isGsi : Bool) {cpuId : U64} (irq : U64) (handler : Handler)
    {vector : Nat} (free : LeastFree state cpuId vector) :
    ((hookIrq platform state isGsi cpuId irq handler).1.1 = .success ↔
        (pinOf platform state.devices (resolveIrq platform isGsi irq)).isSome = true) ∧
      ∀ pin, pinOf platform state.devices (resolveIrq platform isGsi irq) = some pin →
        (hookIrq platform state isGsi cpuId irq handler).2.devices =
          (hookRedirection cpuId vector).set state.devices pin := by
  have valid := (given_vector_valid (reachable.marked free.known) free.clear free.bound).1
  simp only [hookIrq, if_neg (Nat.not_le.mpr free.known), free.allocated, if_neg valid]
  cases pinOf platform state.devices (resolveIrq platform isGsi irq) with
  | none => simp
  | some pin =>
      refine ⟨by simp, ?_⟩
      intro found same
      rw [← Option.some.inj same]
      rfl

/-- The entry of the vector, with fixed delivery, edge triggered, active high and
not masked. -/
structure RaisesVector (word : U64) (vector : Nat) : Prop where
  vector : vectorField.read word.toNat = vector
  deliveryMode : deliveryModeField.read word.toNat = 0
  triggerMode : triggerModeField.read word.toNat = 0
  pinPolarity : pinPolarityField.read word.toNat = 0
  mask : maskField.read word.toNat = 0

theorem hook_word_raises (cpuId : U64) {vector : Nat} (bound : vector < 256) :
    RaisesVector (hookRedirection cpuId vector).entry.redirection vector := by
  have inside : ∀ field value, (field, value) ∈ entryPieces (hookRedirection cpuId vector).entry →
      field.read (hookRedirection cpuId vector).entry.redirection.toNat = value % 2 ^ field.size :=
    fun field value member => redirection_field _ member
  constructor
  · exact hook_redirection_vector cpuId bound
  · exact inside deliveryModeField 0 (by simp [entryPieces, Redirection.entry, hookRedirection])
  · exact inside triggerModeField 0 (by simp [entryPieces, Redirection.entry, hookRedirection])
  · exact inside pinPolarityField 0 (by simp [entryPieces, Redirection.entry, hookRedirection])
  · exact inside maskField 0 (by simp [entryPieces, Redirection.entry, hookRedirection])

/-- The pins of distinct I/O APICs are distinct. -/
theorem pin_of_other {platform : Platform} {devices : IoApics} (wired : Wired platform devices)
    {ioApic other : IoApicEntry} (member : ioApic ∈ platform.ioApics)
    (otherMember : other ∈ platform.ioApics) {index otherIndex : BitVec 8}
    (different : (other, otherIndex) ≠ (ioApic, index)) :
    (⟨mappedBase other platform.hhdm, otherIndex⟩ : Pin) ≠
      ⟨mappedBase ioApic platform.hhdm, index⟩ := by
  intro same
  apply different
  rw [Pin.mk.injEq] at same
  have widened : other.ioApicAddress.setWidth 64 = ioApic.ioApicAddress.setWidth 64 :=
    (BitVec.add_left_inj _).mp same.1
  have address : other.ioApicAddress = ioApic.ioApicAddress := by
    have value := congrArg BitVec.toNat widened
    have bound := other.ioApicAddress.isLt
    have ownBound := ioApic.ioApicAddress.isLt
    rw [BitVec.toNat_setWidth, BitVec.toNat_setWidth] at value
    apply BitVec.eq_of_toNat_eq
    omega
  have symmetric : Std.Symm fun first second : IoApicEntry =>
      first.ioApicAddress ≠ second.ioApicAddress := ⟨fun _ _ apart => apart.symm⟩
  have equal : other = ioApic := by
    by_contra distinct
    exact wired.distinct.forall otherMember member distinct address
  rw [equal, same.2]

/-- One entry raises the vector now, and all others are as they were. -/
structure ProgramsOnly (platform : Platform) (before after : IoApics) (ioApic : IoApicEntry)
    (pin : BitVec 8) (vector : Nat) : Prop where
  programmed : RaisesVector
    (ioapicGetRedirection after (mappedBase ioApic platform.hhdm) pin) vector
  others : ∀ other ∈ platform.ioApics, ∀ index : BitVec 8, (other, index) ≠ (ioApic, pin) →
      ioapicGetRedirection after (mappedBase other platform.hhdm) index =
        ioapicGetRedirection before (mappedBase other platform.hhdm) index

theorem set_programs_only {platform : Platform} {devices : IoApics}
    (wired : Wired platform devices) (cpuId : U64) {vector : Nat} (bound : vector < 256)
    {ioApic : IoApicEntry} (member : ioApic ∈ platform.ioApics) (pin : BitVec 8) :
    ProgramsOnly platform devices
      ((hookRedirection cpuId vector).set devices ⟨mappedBase ioApic platform.hhdm, pin⟩) ioApic
      pin vector := by
  rw [set_eq_write]
  constructor
  · rw [get_written devices ⟨mappedBase ioApic platform.hhdm, pin⟩]
    exact hook_word_raises cpuId bound
  · intro other otherMember index different
    have apart := pin_of_other wired member otherMember different
    have kept := get_other devices (hookRedirection cpuId vector).entry.redirection apart
    exact kept

/-- A line and its interrupt are hooked alike; the hook succeeds if an I/O APIC has
the interrupt, and programs its pin on the first that does. -/
def HooksLine (platform : Platform) (state : IrqState Handler) (cpuId irq : U64)
    (handler : Handler) (vector : Nat) : Prop :=
  ∃ gsi, LineGsi platform.isos irq gsi ∧
    hookIrq platform state false cpuId irq handler =
      hookIrq platform state true cpuId gsi handler ∧
    ((hookIrq platform state false cpuId irq handler).1.1 = .success ↔
      ∃ ioApic ∈ platform.ioApics, Covers platform state.devices gsi ioApic) ∧
    ((hookIrq platform state false cpuId irq handler).1.1 = .success →
      ∃ ioApic, FirstCovering platform state.devices gsi ioApic ∧
        ProgramsOnly platform state.devices
          (hookIrq platform state false cpuId irq handler).2.devices ioApic
          (BitVec.ofNat 8 (gsi.toNat - ioApic.globalSystemInterruptBase.toNat)) vector)

theorem hook_programs_first_covering {state : IrqState Handler} (reachable : IrqReachable state)
    {platform : Platform} (wired : Wired platform state.devices) {cpuId : U64} {vector : Nat}
    (free : LeastFree state cpuId vector) (irq : U64) (handler : Handler) :
    HooksLine platform state cpuId irq handler vector := by
  obtain ⟨succeeds, programs⟩ := hook_outcome reachable platform false irq handler free
  refine ⟨resolveIrq platform false irq, resolved_line platform irq, ?_, ?_, ?_⟩
  · simp only [hookIrq]
    rfl
  · rw [succeeds]
    exact pin_of_some_iff wired _
  · intro success
    obtain ⟨pin, found⟩ := Option.isSome_iff_exists.mp (succeeds.mp success)
    obtain ⟨ioApic, first, place⟩ := pin_of_some wired found
    refine ⟨ioApic, first, ?_⟩
    obtain ⟨before, after, split, _, _⟩ := first
    have member : ioApic ∈ platform.ioApics := by
      rw [split]
      simp
    rw [programs pin found, place]
    exact set_programs_only wired cpuId free.bound member _

/-- One I/O APIC with 24 pins, and the timer's line on its third pin. -/
def timerPlatform : Platform where
  hhdm := 0xffff800000000000
  ioApics := [⟨0xfec00000, 0⟩]
  isos := [⟨0, 0, 2⟩]

theorem timer_line_hooked :
    HooksLine timerPlatform
      (⟨initializeIrqVectors, fun _ reg => if reg = 1 then 0x00170020 else 0⟩ : IrqState String)
      0 0 "timer" 32 := by
  refine hook_programs_first_covering (.booted _) ⟨?_, ?_, ?_⟩ ⟨?_, ?_, ?_, ?_⟩ 0 "timer"
  · exact List.pairwise_singleton _ _
  · simp only [timerPlatform, List.forall_mem_singleton]
    decide
  · simp only [timerPlatform, List.forall_mem_singleton]
    decide
  · decide
  · decide
  · decide
  · decide

end KittyOs.GsiRouting
