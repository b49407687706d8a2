import KittyOs.FramebufferModel
import KittyOs.Lib.BitFields
import KittyOs.Lib.ByteRuns

/-!
# Pixels and their bytes

The cells of the pixels of a framebuffer do not overlap, so drawing a pixel is a
store to one cell. What is stored is the little-endian form of a word packed of the
three channels, from which each can be read back.
-/

namespace KittyOs.PixelCodec

open KittyOs.Lib KittyOs.Lib.ByteMemory KittyOs.Lib.ByteRuns KittyOs.Lib.BitFields
open KittyOs.MachineWord KittyOs.FramebufferModel

set_option autoImplicit false

/-! ### The cells -/

/-- The number of bytes of a pixel. -/
def depth (framebuffer : LimineFramebuffer) : Nat := framebuffer.bpp.toNat / 8

/-- Where the cell of a pixel starts, by natural numbers. -/
def cellStart (framebuffer : LimineFramebuffer) (x y : Nat) : U64 :=
  framebuffer.address +
    BitVec.ofNat 64 (y * framebuffer.pitch.toNat + x * depth framebuffer)

/-- Rows hold their pixels, and the framebuffer is smaller than the address space. -/
structure Laid (framebuffer : LimineFramebuffer) : Prop where
  rows : framebuffer.width.toNat * depth framebuffer ≤ framebuffer.pitch.toNat
  size : framebuffer.height.toNat * framebuffer.pitch.toNat < 2 ^ 64

def Inside (framebuffer : LimineFramebuffer) (x y : Nat) : Prop :=
  x < framebuffer.width.toNat ∧ y < framebuffer.height.toNat

theorem depth_lt (framebuffer : LimineFramebuffer) : depth framebuffer < 2 ^ 64 := by
  have bound := framebuffer.bpp.isLt
  unfold depth
  omega

theorem bytes_per_pixel_to_nat (framebuffer : LimineFramebuffer) :
    (bytesPerPixel framebuffer).toNat = depth framebuffer := by
  have bound := framebuffer.bpp.isLt
  have eight : (8 : BitVec 16).toNat = 8 := rfl
  rw [bytesPerPixel, depth, BitVec.toNat_setWidth, BitVec.toNat_udiv, eight]
  omega

theorem pixel_address_eq (framebuffer : LimineFramebuffer) (x y : U64) :
    getPixelAddress framebuffer x y = cellStart framebuffer x.toNat y.toNat := by
  have column : BitVec.ofNat 64 (x.toNat * depth framebuffer) = x * bytesPerPixel framebuffer := by
    apply BitVec.eq_of_toNat_eq
    rw [BitVec.toNat_ofNat, BitVec.toNat_mul, bytes_per_pixel_to_nat]
  have row : BitVec.ofNat 64 (y.toNat * framebuffer.pitch.toNat) = y * framebuffer.pitch := by
    apply BitVec.eq_of_toNat_eq
    rw [BitVec.toNat_ofNat, BitVec.toNat_mul]
  rw [getPixelAddress, cellStart, BitVec.ofNat_add, column, row, BitVec.add_assoc]

section Cells

variable {framebuffer : LimineFramebuffer}

/-- The last byte of a cell is before the end of the framebuffer. -/
theorem cell_byte_lt (laid : Laid framebuffer) {x y index : Nat} (inside : Inside framebuffer x y)
    (below : index < depth framebuffer) :
    x * depth framebuffer + index < framebuffer.pitch.toNat ∧
      y * framebuffer.pitch.toNat + (x * depth framebuffer + index) < 2 ^ 64 := by
  have column : (x + 1) * depth framebuffer ≤ framebuffer.width.toNat * depth framebuffer :=
    Nat.mul_le_mul_right _ inside.1
  have row : (y + 1) * framebuffer.pitch.toNat ≤
      framebuffer.height.toNat * framebuffer.pitch.toNat := Nat.mul_le_mul_right _ inside.2
  have rows := laid.rows
  have size := laid.size
  rw [Nat.succ_mul] at column row
  omega

theorem cell_address (framebuffer : LimineFramebuffer) (x y index : Nat) :
    runAddress (cellStart framebuffer x y) index =
      runAddress framebuffer.address
        (y * framebuffer.pitch.toNat + (x * depth framebuffer + index)) := by
  simp only [runAddress, cellStart, BitVec.ofNat_add, BitVec.add_assoc]

theorem digits_unique {radix high low otherHigh otherLow : Nat} (below : low < radix)
    (otherBelow : otherLow < radix) (same : high * radix + low = otherHigh * radix + otherLow) :
    high = otherHigh ∧ low = otherLow := by
  have positive : 0 < radix := by omega
  have first := (Nat.div_mod_unique positive).mpr
    ⟨show low + radix * high = high * radix + low by ring, below⟩
  have second := (Nat.div_mod_unique positive).mpr
    ⟨show otherLow + radix * otherHigh = high * radix + low by rw [same]; ring, otherBelow⟩
  exact ⟨first.1.symm.trans second.1, first.2.symm.trans second.2⟩

/-- Every byte belongs to one place of one cell. -/
theorem cells_apart (laid : Laid framebuffer) {x y index otherX otherY otherIndex : Nat}
    (inside : Inside framebuffer x y) (otherInside : Inside framebuffer otherX otherY)
    (below : index < depth framebuffer) (otherBelow : otherIndex < depth framebuffer)
    (same : runAddress (cellStart framebuffer x y) index =
      runAddress (cellStart framebuffer otherX otherY) otherIndex) :
    (x = otherX ∧ y = otherY) ∧ index = otherIndex := by
  obtain ⟨inRow, small⟩ := cell_byte_lt laid inside below
  obtain ⟨otherInRow, otherSmall⟩ := cell_byte_lt laid otherInside otherBelow
  rw [cell_address, cell_address] at same
  have distance := run_distance framebuffer.address small
  rw [same, run_distance framebuffer.address otherSmall] at distance
  obtain ⟨rows, columns⟩ := digits_unique inRow otherInRow distance.symm
  obtain ⟨places, indexes⟩ := digits_unique below otherBelow columns
  exact ⟨⟨places, rows⟩, indexes⟩

end Cells

/-! ### Drawing one pixel -/

/-- The test of `draw_pixel`. -/
theorem outside_iff (framebuffer : LimineFramebuffer) (x y : U64) :
    (decide (x ≥ framebuffer.width) || decide (y ≥ framebuffer.height)) = true ↔
      ¬Inside framebuffer x.toNat y.toNat := by
  rw [Bool.or_eq_true, decide_eq_true_iff, decide_eq_true_iff, ge_iff_le, ge_iff_le,
    BitVec.le_def, BitVec.le_def, Inside]
  omega

theorem draw_pixel_inside {framebuffer : LimineFramebuffer} {x y : U64}
    (inside : Inside framebuffer x.toNat y.toNat) (mem : Memory) (colour : Colour) :
    drawPixel framebuffer mem x y colour =
      storeRun mem (cellStart framebuffer x.toNat y.toNat) (depth framebuffer)
        (pixelByte (pixelValue framebuffer colour)) := by
  rw [drawPixel, if_neg (mt (outside_iff framebuffer x y).mp (not_not.mpr inside)),
    bytes_per_pixel_to_nat, pixel_address_eq]
  exact foldl_store_run mem _ _ (Nat.le_of_lt (depth_lt framebuffer))

theorem draw_pixel_outside {framebuffer : LimineFramebuffer} {x y : U64}
    (outside : ¬Inside framebuffer x.toNat y.toNat) (mem : Memory) (colour : Colour) :
    drawPixel framebuffer mem x y colour = mem := by
  rw [drawPixel, if_pos ((outside_iff framebuffer x y).mpr outside)]

/-- A byte that is not one of the pixel's stays as it was. -/
theorem draw_pixel_elsewhere (framebuffer : LimineFramebuffer) (mem : Memory) (x y : U64)
    (colour : Colour) {target : Nat}
    (elsewhere : Inside framebuffer x.toNat y.toNat → ∀ index, index < depth framebuffer →
      target ≠ runAddress (cellStart framebuffer x.toNat y.toNat) index) :
    drawPixel framebuffer mem x y colour target = mem target := by
  by_cases inside : Inside framebuffer x.toNat y.toNat
  · rw [draw_pixel_inside inside]
    exact store_run_outside mem _ _ (elsewhere inside)
  · rw [draw_pixel_outside inside]

/-- The bytes of a pixel, and the number they stand for. -/
def pixelBytes (framebuffer : LimineFramebuffer) (mem : Memory) (x y : Nat) : List Byte :=
  readRun mem (cellStart framebuffer x y) (depth framebuffer)

def pixelWord (framebuffer : LimineFramebuffer) (mem : Memory) (x y : Nat) : Nat :=
  LittleEndian.decode (pixelBytes framebuffer mem x y)

/-- The bytes of a pixel are those of the colour after it is drawn, and do not change
when another one is. -/
theorem draw_pixel_same {framebuffer : LimineFramebuffer} {x y : U64}
    (inside : Inside framebuffer x.toNat y.toNat) (mem : Memory) (colour : Colour) :
    pixelBytes framebuffer (drawPixel framebuffer mem x y colour) x.toNat y.toNat =
      (List.range (depth framebuffer)).map (pixelByte (pixelValue framebuffer colour)) := by
  rw [pixelBytes, draw_pixel_inside inside,
    read_store_run _ _ _ (Nat.le_of_lt (depth_lt framebuffer))]

theorem draw_pixel_other {framebuffer : LimineFramebuffer} (laid : Laid framebuffer) {x y : Nat}
    (inside : Inside framebuffer x y) (mem : Memory) {otherX otherY : U64} (colour : Colour)
    (different : (x, y) ≠ (otherX.toNat, otherY.toNat)) :
    pixelBytes framebuffer (drawPixel framebuffer mem otherX otherY colour) x y =
      pixelBytes framebuffer mem x y := by
  apply List.map_congr_left
  intro index member
  apply draw_pixel_elsewhere
  intro otherInside own below same
  obtain ⟨⟨sameX, sameY⟩, _⟩ :=
    cells_apart laid inside otherInside (List.mem_range.mp member) below same
  apply different
  rw [sameX, sameY]

/-! ### The channels -/

def redField (framebuffer : LimineFramebuffer) : Field :=
  ⟨framebuffer.redMaskShift.toNat, framebuffer.redMaskSize.toNat⟩

def greenField (framebuffer : LimineFramebuffer) : Field :=
  ⟨framebuffer.greenMaskShift.toNat, framebuffer.greenMaskSize.toNat⟩

def blueField (framebuffer : LimineFramebuffer) : Field :=
  ⟨framebuffer.blueMaskShift.toNat, framebuffer.blueMaskSize.toNat⟩

def channelFields (framebuffer : LimineFramebuffer) : List Field :=
  [redField framebuffer, greenField framebuffer, blueField framebuffer]

def channelPieces (framebuffer : LimineFramebuffer) (colour : Colour) : List (Field × Nat) :=
  [(redField framebuffer, colour.r.toNat), (greenField framebuffer, colour.g.toNat),
    (blueField framebuffer, colour.b.toNat)]

/-- Channels of at most 30 bits, without a common bit, inside the pixel. -/
structure Channelled (framebuffer : LimineFramebuffer) : Prop where
  whole : framebuffer.bpp.toNat = 8 * depth framebuffer
  some : 1 ≤ depth framebuffer
  few : depth framebuffer ≤ 8
  narrow : ∀ field ∈ channelFields framebuffer, field.size ≤ 30
  fits : ∀ field ∈ channelFields framebuffer, field.shift + field.size ≤ 8 * depth framebuffer
  apart : (channelFields framebuffer).Pairwise Field.Apart

theorem channel_mask_to_nat {size : Byte} (narrow : size.toNat ≤ 30) :
    (channelMask size).toNat = 2 ^ size.toNat - 1 := by
  have power : 2 ^ size.toNat ≤ 2 ^ 30 := Nat.pow_le_pow_right (by omega) narrow
  have positive := Nat.two_pow_pos size.toNat
  have one : (1 : BitVec 32).toNat = 1 := rfl
  have value : ((1 : BitVec 32) <<< size.toNat - 1).toNat = 2 ^ size.toNat - 1 := by
    rw [BitVec.toNat_sub, BitVec.toNat_shiftLeft, one, Nat.one_shiftLeft]
    generalize 2 ^ size.toNat = top at power positive ⊢
    omega
  have sign : ((1 : BitVec 32) <<< size.toNat - 1).msb = false := by
    rw [BitVec.msb_eq_decide, decide_eq_false_iff_not, value]
    omega
  rw [channelMask, BitVec.signExtend_eq_setWidth_of_msb_false sign, BitVec.toNat_setWidth, value]
  omega

theorem channel_to_nat (value : U64) {size shift : Byte} (narrow : size.toNat ≤ 30)
    (fits : shift.toNat + size.toNat ≤ 64) :
    ((value &&& channelMask size) <<< shift.toNat).toNat =
      Field.place ⟨shift.toNat, size.toNat⟩ value.toNat :=
  masked_to_nat value (channel_mask_to_nat narrow) fits

theorem pixel_value_to_nat {framebuffer : LimineFramebuffer} (channelled : Channelled framebuffer)
    (colour : Colour) :
    (pixelValue framebuffer colour).toNat = packed (channelPieces framebuffer colour) := by
  have few := channelled.few
  have narrow := channelled.narrow
  have fits := channelled.fits
  simp only [channelFields, redField, greenField, blueField, List.forall_mem_cons] at narrow fits
  rw [pixelValue, BitVec.toNat_or, BitVec.toNat_or, channel_to_nat _ narrow.1 (by omega),
    channel_to_nat _ narrow.2.1 (by omega), channel_to_nat _ narrow.2.2.1 (by omega)]
  simp only [channelPieces, packed, Nat.or_zero, Nat.or_assoc]
  rfl

theorem pixel_bytes_eq_encode (value : U64) (count : Nat) :
    (List.range count).map (pixelByte value) = LittleEndian.encode count value.toNat := by
  have mask : (0xFF : U64).toNat = 2 ^ 8 - 1 := rfl
  rw [encode_eq_map]
  apply List.map_congr_left
  intro index _
  have power : 2 ^ (index * 8) = 256 ^ index := by
    rw [show 256 = 2 ^ 8 from rfl, ← pow_mul, Nat.mul_comm]
  apply BitVec.eq_of_toNat_eq
  rw [pixelByte, BitVec.toNat_setWidth, BitVec.toNat_and, BitVec.toNat_ushiftRight, mask,
    Nat.and_two_pow_sub_one_eq_mod, Nat.shiftRight_eq_div_pow, power, BitVec.toNat_ofNat,
    Nat.mod_mod]

theorem drawn_word {framebuffer : LimineFramebuffer} (channelled : Channelled framebuffer)
    {x y : U64} (inside : Inside framebuffer x.toNat y.toNat) (mem : Memory) (colour : Colour) :
    pixelWord framebuffer (drawPixel framebuffer mem x y colour) x.toNat y.toNat =
      packed (channelPieces framebuffer colour) := by
  have power : 256 ^ depth framebuffer = 2 ^ (8 * depth framebuffer) := by
    rw [show 256 = 2 ^ 8 from rfl, ← pow_mul]
  have bound : packed (channelPieces framebuffer colour) < 256 ^ depth framebuffer := by
    rw [power]
    apply packed_lt
    intro piece member
    exact channelled.fits piece.1 (List.mem_map_of_mem (f := Prod.fst) member)
  rw [pixelWord, draw_pixel_same inside, pixel_bytes_eq_encode, pixel_value_to_nat channelled,
    LittleEndian.decode_encode bound]

/-- The pixel decodes to the colour, and every other byte and pixel is as it was. -/
structure Draws (framebuffer : LimineFramebuffer) (mem after : Memory) (x y : Nat)
    (colour : Colour) : Prop where
  red : (redField framebuffer).read (pixelWord framebuffer after x y) =
    colour.r.toNat % 2 ^ framebuffer.redMaskSize.toNat
  green : (greenField framebuffer).read (pixelWord framebuffer after x y) =
    colour.g.toNat % 2 ^ framebuffer.greenMaskSize.toNat
  blue : (blueField framebuffer).read (pixelWord framebuffer after x y) =
    colour.b.toNat % 2 ^ framebuffer.blueMaskSize.toNat
  bytes : ∀ target, (∀ index, index < depth framebuffer →
    target ≠ runAddress (cellStart framebuffer x y) index) → after target = mem target
  pixels : ∀ otherX otherY, Inside framebuffer otherX otherY → (otherX, otherY) ≠ (x, y) →
    pixelBytes framebuffer after otherX otherY = pixelBytes framebuffer mem otherX otherY

theorem draw_pixel_decodes {framebuffer : LimineFramebuffer} (laid : Laid framebuffer)
    (channelled : Channelled framebuffer) (mem : Memory) (x y : U64) (colour : Colour) :
    (Inside framebuffer x.toNat y.toNat →
        Draws framebuffer mem (drawPixel framebuffer mem x y colour) x.toNat y.toNat colour) ∧
      (¬Inside framebuffer x.toNat y.toNat → drawPixel framebuffer mem x y colour = mem) := by
  refine ⟨?_, fun outside => draw_pixel_outside outside mem colour⟩
  intro inside
  have word := drawn_word channelled inside mem colour
  constructor
  · rw [word]
    exact read_packed channelled.apart (by simp [channelPieces])
  · rw [word]
    exact read_packed channelled.apart (by simp [channelPieces])
  · rw [word]
    exact read_packed channelled.apart (by simp [channelPieces])
  · intro target elsewhere
    exact draw_pixel_elsewhere framebuffer mem x y colour fun _ => elsewhere
  · intro otherX otherY otherInside different
    exact draw_pixel_other laid otherInside mem colour different

def sampleFramebuffer : LimineFramebuffer where
  address := 0xffff8000fd000000
  width := 100
  height := 100
  pitch := 512
  bpp := 32
  redMaskSize := 8
  redMaskShift := 0
  greenMaskSize := 8
  greenMaskShift := 8
  blueMaskSize := 8
  blueMaskShift := 16

theorem sample_laid : Laid sampleFramebuffer := ⟨by decide, by decide⟩

theorem sample_pixel_decodes :
    Draws sampleFramebuffer (fun _ => 0)
      (drawPixel sampleFramebuffer (fun _ => 0) 5 7 ⟨0x12, 0x34, 0x156⟩) (5 : U64).toNat
      (7 : U64).toNat ⟨0x12, 0x34, 0x156⟩ := by
  have channelled : Channelled sampleFramebuffer :=
    ⟨by decide, by decide, by decide, by decide, by decide, apart_of_ascending (by decide)⟩
  exact (draw_pixel_decodes sample_laid channelled _ 5 7 _).1 ⟨by decide, by decide⟩

end KittyOs.PixelCodec
