import KittyOs.Lib.ByteMemory
import KittyOs.MachineWord

/-!
# Drawing on a framebuffer

The drawing functions of `fb/framebuffer.cpp`. Coordinates and sizes are the 64-bit
words of the source and wrap as they do; the masks and the indices of a bitmap are
computed in `int`. A rectangle and a bitmap are drawn by a sequence of calls of
`draw_pixel`, which is kept as a list.
-/

namespace KittyOs.FramebufferModel

open KittyOs.Lib.ByteMemory KittyOs.MachineWord

set_option autoImplicit false

/-- `struct limine_framebuffer` as far as it is used to draw. -/
structure LimineFramebuffer where
  address : U64
  width : U64
  height : U64
  pitch : U64
  bpp : BitVec 16
  redMaskSize : Byte
  redMaskShift : Byte
  greenMaskSize : Byte
  greenMaskShift : Byte
  blueMaskSize : Byte
  blueMaskShift : Byte
deriving DecidableEq, Repr

structure Colour where
  r : U64
  g : U64
  b : U64
deriving DecidableEq, Repr

/-! ### Pixels -/

def bytesPerPixel (framebuffer : LimineFramebuffer) : U64 := (framebuffer.bpp / 8).setWidth 64

def getPixelAddress (framebuffer : LimineFramebuffer) (x y : U64) : U64 :=
  framebuffer.address + y * framebuffer.pitch + x * bytesPerPixel framebuffer

/-- `(1 << size) - 1`, computed in `int` and converted. -/
def channelMask (size : Byte) : U64 := ((1 : BitVec 32) <<< size.toNat - 1).signExtend 64

def pixelValue (framebuffer : LimineFramebuffer) (colour : Colour) : U64 :=
  ((colour.r &&& channelMask framebuffer.redMaskSize) <<< framebuffer.redMaskShift.toNat) |||
    ((colour.g &&& channelMask framebuffer.greenMaskSize) <<< framebuffer.greenMaskShift.toNat) |||
    ((colour.b &&& channelMask framebuffer.blueMaskSize) <<< framebuffer.blueMaskShift.toNat)

def pixelByte (value : U64) (i : Nat) : Byte := ((value >>> (i * 8)) &&& 0xFF).setWidth 8

def drawPixel (framebuffer : LimineFramebuffer) (mem : Memory) (x y : U64) (colour : Colour) :
    Memory :=
  if x ≥ framebuffer.width || y ≥ framebuffer.height then mem
  else
    let pixelAddress := getPixelAddress framebuffer x y
    let value := pixelValue framebuffer colour
    (List.range (bytesPerPixel framebuffer).toNat).foldl
      (fun mem i => storeByte mem (pixelAddress + BitVec.ofNat 64 i).toNat (pixelByte value i)) mem

/-! ### Rectangles -/

/-- The clipping of one dimension. -/
def clipped (origin size extent : U64) : U64 :=
  if origin + size > extent then extent - origin else size

/-- The coordinates of the calls of `draw_pixel`, in the order of the loops. -/
def rectangleCalls (framebuffer : LimineFramebuffer) (x y width height : U64) : List (U64 × U64) :=
  let width := clipped x width framebuffer.width
  let height := clipped y height framebuffer.height
  (List.range height.toNat).flatMap fun i =>
    (List.range width.toNat).map fun j => (x + BitVec.ofNat 64 j, y + BitVec.ofNat 64 i)

def drawRectangle (framebuffer : LimineFramebuffer) (mem : Memory) (x y width height : U64)
    (colour : Colour) : Memory :=
  (rectangleCalls framebuffer x y width height).foldl
    (fun mem place => drawPixel framebuffer mem place.1 place.2 colour) mem

/-! ### Bitmaps -/

/-- One call of `draw_pixel` and the places of the buffer its colour is read from. -/
structure BitmapStep where
  x : BitVec 32
  y : BitVec 32
  red : Int
  green : Int
  blue : Int
deriving DecidableEq, Repr

def bitmapStep (width channels : BitVec 32) (x y : BitVec 32) : BitmapStep :=
  let index := (y * width + x) * channels
  { x, y, red := index.toInt, green := (index + 1).toInt, blue := (index + 2).toInt }

def bitmapSteps (width height channels : BitVec 32) : List BitmapStep :=
  (List.range height.toInt.toNat).flatMap fun y =>
    (List.range width.toInt.toNat).map fun x =>
      bitmapStep width channels (BitVec.ofNat 32 x) (BitVec.ofNat 32 y)

/-- `buffer` gives the bytes around the pointer. -/
def drawBitmap (framebuffer : LimineFramebuffer) (mem : Memory) (buffer : Int → Byte)
    (width height channels : BitVec 32) : Memory :=
  (bitmapSteps width height channels).foldl
    (fun mem step =>
      drawPixel framebuffer mem (step.x.signExtend 64) (step.y.signExtend 64)
        ⟨(buffer step.red).setWidth 64, (buffer step.green).setWidth 64,
          (buffer step.blue).setWidth 64⟩) mem

end KittyOs.FramebufferModel
