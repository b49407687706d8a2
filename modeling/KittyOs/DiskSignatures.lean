import KittyOs.AcpiModel
import KittyOs.IrqModel
import KittyOs.Lib.ByteRuns

/-!
# Partition table signatures

`is_mbr` and `is_gpt` read one block of a disk into a local buffer of 512 bytes
through `read_sector`, and look for a signature there. The number of bytes read is
the block size of the disk. The answers are right for every block of 512 bytes or
more; the buffer is kept to only by blocks of exactly 512.
-/

namespace KittyOs.DiskSignatures

open KittyOs.Lib.ByteMemory KittyOs.Lib.ByteRuns KittyOs.MachineWord KittyOs.RuntimeBlob
open KittyOs.AcpiModel KittyOs.IrqModel

set_option autoImplicit false

/-- What `read_sector` uses of a `disk_interface`: `read` takes the memory, the buffer,
the offset and the length. -/
structure DiskInterface where
  infBlkSize : U64
  read : Memory → U64 → U64 → U64 → Status × Memory

def readSector (disk : DiskInterface) (mem : Memory) (buffer sectorNumber : U64) :
    Bool × Memory :=
  let offset := sectorNumber * disk.infBlkSize
  let outcome := disk.read mem buffer offset disk.infBlkSize
  (outcome.1 == .success, outcome.2)

/-- `buffer` is the address of the local array. -/
def isMbr (disk : Option DiskInterface) (mem : Memory) (buffer : U64) : Bool × Memory :=
  match disk with
  | none => (false, mem)
  | some disk =>
      let sector := readSector disk mem buffer 0
      if !sector.1 then (false, sector.2)
      else
        (sector.2 (buffer + 510).toNat == 0x55 && sector.2 (buffer + 511).toNat == 0xAA, sector.2)

/-- `"EFI PART"`. -/
def efiPart : List Byte := [0x45, 0x46, 0x49, 0x20, 0x50, 0x41, 0x52, 0x54]

def isGpt (disk : Option DiskInterface) (mem : Memory) (buffer : U64) : Bool × Memory :=
  match disk with
  | none => (false, mem)
  | some disk =>
      let sector := readSector disk mem buffer 1
      if !sector.1 then (false, sector.2)
      else (memcmp (bytesAt sector.2 buffer 8) efiPart == 0, sector.2)

/-! ### Disks that return their bytes -/

/-- The memory with `length` bytes of the image from `offset` on stored at `buf`. -/
def received (image : Nat → Byte) (mem : Memory) (buf : U64) (offset length : Nat) : Memory :=
  storeRun mem buf length fun index => image (offset + index)

/-- The disk serves every request for bytes it has. -/
def Faithful (disk : DiskInterface) (image : Nat → Byte) (capacity : Nat) : Prop :=
  ∀ mem buf offset length, offset.toNat + length.toNat ≤ capacity →
    disk.read mem buf offset length =
      (.success, received image mem buf offset.toNat length.toNat)

theorem received_inside (image : Nat → Byte) (mem : Memory) (buf : U64) (offset : Nat)
    {length index : Nat} (below : index < length) (small : index < 2 ^ 64) :
    received image mem buf offset length (buf + BitVec.ofNat 64 index).toNat =
      image (offset + index) :=
  store_run_inside mem buf (fun index => image (offset + index)) below small

/-- Up to 512 bytes stay in the buffer. -/
theorem received_outside (image : Nat → Byte) (mem : Memory) {buf : U64} (offset : Nat)
    {length target : Nat} (fits : buf.toNat + 512 ≤ 2 ^ 64) (few : length ≤ 512)
    (outside : ¬Within buf.toNat 512 target) :
    received image mem buf offset length target = mem target := by
  apply store_run_outside
  intro index below same
  apply outside
  rw [same, runAddress, BitVec.toNat_add, BitVec.toNat_ofNat]
  unfold Within
  omega

section Faithful

variable {disk : DiskInterface} {image : Nat → Byte} {capacity : Nat}

/-- Sectors 0 and 1 are read as wholes. -/
theorem read_sector_received (faithful : Faithful disk image capacity)
    (room : 2 * disk.infBlkSize.toNat ≤ capacity) (mem : Memory) (buffer : U64)
    {sectorNumber : U64} (first : sectorNumber.toNat ≤ 1) :
    readSector disk mem buffer sectorNumber =
      (true, received image mem buffer (sectorNumber.toNat * disk.infBlkSize.toNat)
        disk.infBlkSize.toNat) := by
  have bound := disk.infBlkSize.isLt
  have product : sectorNumber.toNat * disk.infBlkSize.toNat ≤ 1 * disk.infBlkSize.toNat :=
    Nat.mul_le_mul_right _ first
  have offset : (sectorNumber * disk.infBlkSize).toNat =
      sectorNumber.toNat * disk.infBlkSize.toNat := by
    rw [BitVec.toNat_mul, Nat.mod_eq_of_lt (by omega)]
  have served := faithful mem buffer (sectorNumber * disk.infBlkSize) disk.infBlkSize (by omega)
  rw [readSector]
  simp only [served, offset, beq_self_eq_true]

theorem is_mbr_outcome (faithful : Faithful disk image capacity)
    (room : 2 * disk.infBlkSize.toNat ≤ capacity) (large : 512 ≤ disk.infBlkSize.toNat)
    (mem : Memory) (buffer : U64) :
    isMbr (some disk) mem buffer =
      (image 510 == 0x55 && image 511 == 0xAA,
        received image mem buffer 0 disk.infBlkSize.toNat) := by
  have zero : (0 : U64).toNat = 0 := rfl
  have sector := read_sector_received faithful room mem buffer (show (0 : U64).toNat ≤ 1 by omega)
  rw [zero, Nat.zero_mul] at sector
  have first := received_inside image mem buffer 0 (show 510 < disk.infBlkSize.toNat by omega)
    (by omega)
  have second := received_inside image mem buffer 0 (show 511 < disk.infBlkSize.toNat by omega)
    (by omega)
  rw [Nat.zero_add] at first second
  simp only [isMbr, sector, Bool.not_true, Bool.false_eq_true, if_false]
  rw [← first, ← second]
  rfl

theorem is_gpt_outcome (faithful : Faithful disk image capacity)
    (room : 2 * disk.infBlkSize.toNat ≤ capacity) (large : 512 ≤ disk.infBlkSize.toNat)
    (mem : Memory) (buffer : U64) :
    isGpt (some disk) mem buffer =
      (decide ((List.range 8).map (fun index => image (disk.infBlkSize.toNat + index)) = efiPart),
        received image mem buffer disk.infBlkSize.toNat disk.infBlkSize.toNat) := by
  have one : (1 : U64).toNat = 1 := rfl
  have sector := read_sector_received faithful room mem buffer (show (1 : U64).toNat ≤ 1 by omega)
  rw [one, Nat.one_mul] at sector
  have bytes : bytesAt (received image mem buffer disk.infBlkSize.toNat disk.infBlkSize.toNat)
      buffer 8 = (List.range 8).map fun index => image (disk.infBlkSize.toNat + index) := by
    rw [bytesAt, spanFrom, List.map_map]
    apply List.map_congr_left
    intro index member
    have below := List.mem_range.mp member
    exact received_inside image mem buffer _ (by omega) (by omega)
  have compare : ∀ found : List Byte, found.length = 8 →
      (memcmp found efiPart == 0) = decide (found = efiPart) := by
    intro found eight
    rw [Bool.eq_iff_iff, beq_iff_eq, decide_eq_true_iff]
    exact memcmp_zero_iff eight
  simp only [isGpt, sector, Bool.not_true, Bool.false_eq_true, if_false, bytes]
  rw [compare _ (by simp)]

end Faithful

/-! ### The answers and the buffer -/

/-- The answers are those of the image, and no byte outside the buffer changes. -/
structure SignatureChecks (disk : DiskInterface) (image : Nat → Byte) (mem : Memory)
    (buffer : U64) : Prop where
  mbr : (isMbr (some disk) mem buffer).1 = true ↔ image 510 = 0x55 ∧ image 511 = 0xAA
  gpt : (isGpt (some disk) mem buffer).1 = true ↔
    (List.range 8).map (fun index => image (disk.infBlkSize.toNat + index)) = efiPart
  mbrInside : ∀ target, ¬Within buffer.toNat 512 target →
    (isMbr (some disk) mem buffer).2 target = mem target
  gptInside : ∀ target, ¬Within buffer.toNat 512 target →
    (isGpt (some disk) mem buffer).2 target = mem target

def ChecksInBuffer (disk : DiskInterface) (image : Nat → Byte) : Prop :=
  ∀ mem buffer, buffer.toNat + 512 ≤ 2 ^ 64 → SignatureChecks disk image mem buffer

/-- A longer block reaches the byte behind the buffer. -/
theorem longer_block_escapes {disk : DiskInterface} {image : Nat → Byte} {capacity : Nat}
    (faithful : Faithful disk image capacity) (room : 2 * disk.infBlkSize.toNat ≤ capacity)
    (longer : 512 < disk.infBlkSize.toNat) : ¬ChecksInBuffer disk image := by
  intro checks
  have start : (0 : U64).toNat + 512 ≤ 2 ^ 64 := by decide
  have behind : ¬Within (0 : U64).toNat 512 512 := by decide
  have kept := (checks (fun _ => image 512 + 1) 0 start).mbrInside 512 behind
  have stored := received_inside image (fun _ => image 512 + 1) 0 0 longer (by omega)
  rw [is_mbr_outcome faithful room (by omega)] at kept
  rw [Nat.zero_add, show ((0 : U64) + BitVec.ofNat 64 512).toNat = 512 from rfl] at stored
  have same : image 512 = image 512 + 1 := stored.symm.trans kept
  bv_omega

theorem checks_in_buffer_iff {disk : DiskInterface} {image : Nat → Byte} {capacity : Nat}
    (faithful : Faithful disk image capacity) (room : 2 * disk.infBlkSize.toNat ≤ capacity)
    (large : 512 ≤ disk.infBlkSize.toNat) :
    ChecksInBuffer disk image ↔ disk.infBlkSize.toNat = 512 := by
  constructor
  · intro checks
    by_contra different
    exact longer_block_escapes faithful room (by omega) checks
  · intro exactly mem buffer fits
    have mbr := is_mbr_outcome faithful room large mem buffer
    have gpt := is_gpt_outcome faithful room large mem buffer
    constructor
    · rw [mbr, Bool.and_eq_true, beq_iff_eq, beq_iff_eq]
    · rw [gpt, decide_eq_true_iff]
    · intro target outside
      rw [mbr]
      exact received_outside image mem 0 fits (by omega) outside
    · intro target outside
      rw [gpt]
      exact received_outside image mem _ fits (by omega) outside

def imageDisk (infBlkSize : U64) (image : Nat → Byte) : DiskInterface where
  infBlkSize
  read := fun mem buf offset length =>
    (.success, received image mem buf offset.toNat length.toNat)

theorem image_disk_faithful (infBlkSize : U64) (image : Nat → Byte) (capacity : Nat) :
    Faithful (imageDisk infBlkSize image) image capacity :=
  fun _ _ _ _ _ => rfl

/-- A disk with a protective MBR in front of its GPT. -/
def signedImage : Nat → Byte := fun index =>
  if index = 510 then 0x55 else if index = 511 then 0xAA else efiPart.getD (index - 512) 0

theorem signatures_found :
    ChecksInBuffer (imageDisk 512 signedImage) signedImage ∧
      (isMbr (some (imageDisk 512 signedImage)) (fun _ => 0) 0x8000).1 = true ∧
      (isGpt (some (imageDisk 512 signedImage)) (fun _ => 0) 0x8000).1 = true := by
  have checks := (checks_in_buffer_iff (image_disk_faithful 512 signedImage 1024) (by decide)
    (by decide)).mpr rfl
  have here := checks (fun _ => 0) 0x8000 (by decide)
  exact ⟨checks, here.mbr.mpr (by decide), here.gpt.mpr (by decide)⟩

/-- Blocks of 4096 bytes overrun the buffer. -/
theorem large_blocks_overrun : ¬ChecksInBuffer (imageDisk 4096 fun _ => 0) (fun _ => 0) :=
  longer_block_escapes (image_disk_faithful 4096 (fun _ => 0) 8192) (by decide) (by decide)

end KittyOs.DiskSignatures
