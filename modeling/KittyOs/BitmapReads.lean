import KittyOs.PixelCodec

/-!
# Where a bitmap is read

`draw_bitmap` computes its index in `int` and reads three bytes from there on. With
fewer than three channels the last pixel is read behind the end of the buffer, and in
an image of more than 2^31 bytes an index goes negative. All other images are read
where they should be.
-/

namespace KittyOs.BitmapReads

open KittyOs.Lib.ByteMemory KittyOs.MachineWord KittyOs.FramebufferModel KittyOs.PixelCodec

set_option autoImplicit false

/-- The places of the buffer one step reads. -/
def readsOf (step : BitmapStep) : List Int := [step.red, step.green, step.blue]

/-- An image: its dimensions are not negative and it has one to four channels. -/
structure Image (width height channels : BitVec 32) : Prop where
  width : 0 ≤ width.toInt
  height : 0 ≤ height.toInt
  least : 1 ≤ channels.toInt
  most : channels.toInt ≤ 4

/-- A place of the buffer that belongs to a pixel. -/
def Own (width channels : BitVec 32) (x y index : Int) : Prop :=
  (y * width.toInt + x) * channels.toInt ≤ index ∧
    index < (y * width.toInt + x) * channels.toInt + channels.toInt

/-- Every read is inside a buffer of the size of the image, a pixel that is drawn is
read from its own bytes, and two buffers that agree on these show the same pixel. -/
structure ReadsOwnBytes (framebuffer : LimineFramebuffer) (width height channels : BitVec 32) :
    Prop where
  inside : ∀ step ∈ bitmapSteps width height channels, ∀ index ∈ readsOf step,
    0 ≤ index ∧ index < width.toInt * height.toInt * channels.toInt
  own : ∀ step ∈ bitmapSteps width height channels,
    Inside framebuffer step.x.toNat step.y.toNat → ∀ index ∈ readsOf step,
      Own width channels step.x.toInt step.y.toInt index
  drawn : Laid framebuffer → ∀ mem first second, ∀ x y : Nat,
    x < width.toInt → y < height.toInt → Inside framebuffer x y →
    (∀ index, Own width channels x y index → first index = second index) →
      pixelBytes framebuffer (drawBitmap framebuffer mem first width height channels) x y =
        pixelBytes framebuffer (drawBitmap framebuffer mem second width height channels) x y

/-! ### Indices as numbers -/

theorem to_int_of_small {value : Nat} (small : value < 2 ^ 31) :
    (BitVec.ofNat 32 value).toInt = value := by
  rw [BitVec.toInt_eq_toNat_cond, BitVec.toNat_ofNat]
  split_ifs <;> omega

theorem to_int_of_large {value : Nat} (large : 2 ^ 31 ≤ value) (word : value < 2 ^ 32) :
    (BitVec.ofNat 32 value).toInt < 0 := by
  rw [BitVec.toInt_eq_toNat_cond, BitVec.toNat_ofNat]
  split_ifs <;> omega

theorem word_of_int {word : BitVec 32} (positive : 0 ≤ word.toInt) :
    ∃ value : Nat, value < 2 ^ 31 ∧ word = BitVec.ofNat 32 value ∧ word.toInt = value := by
  have bound := word.isLt
  rw [BitVec.toInt_eq_toNat_cond] at positive ⊢
  refine ⟨word.toNat, ?_, ?_, ?_⟩
  · split_ifs at positive <;> omega
  · rw [BitVec.ofNat_toNat, BitVec.setWidth_eq]
  · split_ifs at positive ⊢ <;> omega

section Steps

variable {w h c : Nat}

theorem step_reads (x y : Nat) :
    readsOf (bitmapStep (BitVec.ofNat 32 w) (BitVec.ofNat 32 c) (BitVec.ofNat 32 x)
        (BitVec.ofNat 32 y)) =
      [(BitVec.ofNat 32 ((y * w + x) * c)).toInt, (BitVec.ofNat 32 ((y * w + x) * c + 1)).toInt,
        (BitVec.ofNat 32 ((y * w + x) * c + 2)).toInt] := by
  simp only [readsOf, bitmapStep, BitVec.ofNat_add, BitVec.ofNat_mul]
  rfl

theorem steps_mem (wide : w < 2 ^ 31) (high : h < 2 ^ 31) (channels : BitVec 32)
    (step : BitmapStep) :
    step ∈ bitmapSteps (BitVec.ofNat 32 w) (BitVec.ofNat 32 h) channels ↔
      ∃ x y, x < w ∧ y < h ∧
        step = bitmapStep (BitVec.ofNat 32 w) channels (BitVec.ofNat 32 x) (BitVec.ofNat 32 y) := by
  simp only [bitmapSteps, to_int_of_small wide, to_int_of_small high, Int.toNat_natCast,
    List.mem_flatMap, List.mem_map, List.mem_range]
  constructor
  · rintro ⟨y, row, x, column, rfl⟩
    exact ⟨x, y, column, row, rfl⟩
  · rintro ⟨x, y, column, row, rfl⟩
    exact ⟨y, row, x, column, rfl⟩

theorem pixel_number_lt {x y : Nat} (column : x < w) (row : y < h) : y * w + x < w * h := by
  have product : (y + 1) * w ≤ h * w := Nat.mul_le_mul_right w row
  rw [Nat.succ_mul, Nat.mul_comm h] at product
  omega

/-- Every pixel number is that of a step. -/
theorem pixel_step {pixel : Nat} (below : pixel < w * h) :
    ∃ x y, x < w ∧ y < h ∧ y * w + x = pixel := by
  have positive : 0 < w := by
    by_contra none
    have zero : w = 0 := by omega
    rw [zero, Nat.zero_mul] at below
    omega
  refine ⟨pixel % w, pixel / w, Nat.mod_lt _ positive, Nat.div_lt_of_lt_mul below, ?_⟩
  rw [Nat.mul_comm]
  exact Nat.div_add_mod pixel w

/-- The reads of a pixel before any index wraps. -/
theorem small_step_reads {x y : Nat} (small : (y * w + x) * c + 2 < 2 ^ 31) :
    readsOf (bitmapStep (BitVec.ofNat 32 w) (BitVec.ofNat 32 c) (BitVec.ofNat 32 x)
        (BitVec.ofNat 32 y)) =
      [(((y * w + x) * c : Nat) : Int), (((y * w + x) * c + 1 : Nat) : Int),
        (((y * w + x) * c + 2 : Nat) : Int)] := by
  rw [step_reads, to_int_of_small (by omega), to_int_of_small (by omega), to_int_of_small small]

/-- An image whose last index does not fit into an `int` has a pixel that is read at a
negative index. -/
theorem wrapping_pixel (least : 1 ≤ c) (most : c ≤ 4) {pixels : Nat}
    (large : 2 ^ 31 ≤ (pixels - 1) * c + 2) (some : 0 < pixels) :
    ∃ pixel, pixel < pixels ∧ 2 ^ 31 ≤ pixel * c + 2 ∧ pixel * c + 2 < 2 ^ 32 := by
  have channels : c = 1 ∨ c = 2 ∨ c = 3 ∨ c = 4 := by omega
  rcases channels with rfl | rfl | rfl | rfl
  · exact ⟨2 ^ 31 - 2, by omega, by omega, by omega⟩
  · exact ⟨2 ^ 30 - 1, by omega, by omega, by omega⟩
  · exact ⟨715827882, by omega, by omega, by omega⟩
  · exact ⟨2 ^ 29, by omega, by omega, by omega⟩

/-- The bytes of a pixel of a small image. -/
theorem readable_step (enough : 3 ≤ c) (fits : w * h * c ≤ 2 ^ 31) {x y : Nat} (column : x < w)
    (row : y < h) :
    ∀ index ∈ readsOf (bitmapStep (BitVec.ofNat 32 w) (BitVec.ofNat 32 c) (BitVec.ofNat 32 x)
        (BitVec.ofNat 32 y)),
      (((y * w + x) * c : Nat) : Int) ≤ index ∧
        index < (((y * w + x) * c : Nat) : Int) + c ∧ index < ((w * h * c : Nat) : Int) := by
  have product : (y * w + x + 1) * c ≤ w * h * c :=
    Nat.mul_le_mul_right c (pixel_number_lt column row)
  rw [Nat.succ_mul] at product
  rw [small_step_reads (by omega)]
  simp only [List.forall_mem_cons, List.not_mem_nil, false_implies, implies_true, and_true]
  omega

/-- Another image has a pixel that is read outside the buffer. -/
theorem unreadable_step (least : 1 ≤ c) (most : c ≤ 4) (some : 0 < w * h)
    (unreadable : ¬(3 ≤ c ∧ w * h * c ≤ 2 ^ 31)) :
    ∃ x y, x < w ∧ y < h ∧
      ∃ index ∈ readsOf (bitmapStep (BitVec.ofNat 32 w) (BitVec.ofNat 32 c) (BitVec.ofNat 32 x)
        (BitVec.ofNat 32 y)), index < 0 ∨ ((w * h * c : Nat) : Int) ≤ index := by
  by_cases large : 2 ^ 31 ≤ (w * h - 1) * c + 2
  · obtain ⟨pixel, below, wraps, word⟩ := wrapping_pixel least most large some
    obtain ⟨x, y, column, row, number⟩ := pixel_step below
    refine ⟨x, y, column, row, _, ?_, Or.inl (to_int_of_large wraps word)⟩
    rw [step_reads, number]
    simp
  · have last : w * h * c = (w * h - 1) * c + c := by
      rw [← Nat.succ_mul, Nat.succ_eq_add_one, Nat.sub_add_cancel some]
    have two : c ≤ 2 := by
      have channels : c = 1 ∨ c = 2 ∨ c = 3 ∨ c = 4 := by omega
      rcases channels with rfl | rfl | rfl | rfl <;> omega
    obtain ⟨x, y, column, row, number⟩ := pixel_step (Nat.sub_one_lt_of_lt some)
    refine ⟨x, y, column, row, (((w * h - 1) * c + 2 : Nat) : Int), ?_, Or.inr (by omega)⟩
    rw [small_step_reads (by rw [number]; omega), number]
    simp

end Steps

/-! ### The pixels drawn -/

def stepColour (buffer : Int → Byte) (step : BitmapStep) : Colour :=
  ⟨(buffer step.red).setWidth 64, (buffer step.green).setWidth 64, (buffer step.blue).setWidth 64⟩

/-- A pixel shows the colour of its own steps, so it is the same for two buffers that
give these the same colour. -/
theorem steps_draw_same {framebuffer : LimineFramebuffer} (laid : Laid framebuffer)
    {first second : Int → Byte} {x y : Nat} (inside : Inside framebuffer x y)
    (steps : List BitmapStep)
    (agree : ∀ step ∈ steps,
      (x, y) = ((step.x.signExtend 64).toNat, (step.y.signExtend 64).toNat) →
        stepColour first step = stepColour second step) {mem other : Memory}
    (same : pixelBytes framebuffer mem x y = pixelBytes framebuffer other x y) :
    pixelBytes framebuffer (steps.foldl (fun mem step => drawPixel framebuffer mem
        (step.x.signExtend 64) (step.y.signExtend 64) (stepColour first step)) mem) x y =
      pixelBytes framebuffer (steps.foldl (fun mem step => drawPixel framebuffer mem
        (step.x.signExtend 64) (step.y.signExtend 64) (stepColour second step)) other) x y := by
  induction steps generalizing mem other with
  | nil => exact same
  | cons step rest ih =>
      obtain ⟨here, later⟩ := List.forall_mem_cons.mp agree
      rw [List.foldl_cons, List.foldl_cons]
      apply ih later
      by_cases own : (x, y) = ((step.x.signExtend 64).toNat, (step.y.signExtend 64).toNat)
      · obtain ⟨rfl, rfl⟩ := Prod.mk.inj own
        rw [draw_pixel_same inside, draw_pixel_same inside, here own]
      · rw [draw_pixel_other laid inside _ _ own, draw_pixel_other laid inside _ _ own]
        exact same

/-! ### Images that are read well -/

/-- Nothing to read, or at least three channels and no more bytes than an `int` counts. -/
def Readable (width height channels : BitVec 32) : Prop :=
  width.toInt * height.toInt = 0 ∨
    3 ≤ channels.toInt ∧ width.toInt * height.toInt * channels.toInt ≤ 2 ^ 31

section Images

variable {width height channels : BitVec 32}

/-- What a step of a readable image is for, and where it reads. -/
theorem Readable.step (image : Image width height channels)
    (readable : Readable width height channels) {step : BitmapStep}
    (member : step ∈ bitmapSteps width height channels) :
    ∃ x y : Nat, step.x = BitVec.ofNat 32 x ∧ step.y = BitVec.ofNat 32 y ∧ x < 2 ^ 31 ∧
      y < 2 ^ 31 ∧ ∀ index ∈ readsOf step,
        (0 ≤ index ∧ index < width.toInt * height.toInt * channels.toInt) ∧
          Own width channels x y index := by
  obtain ⟨w, wide, rfl, widthValue⟩ := word_of_int image.width
  obtain ⟨h, high, rfl, heightValue⟩ := word_of_int image.height
  obtain ⟨c, _, rfl, channelValue⟩ := word_of_int (le_trans (by omega) image.least)
  obtain ⟨x, y, column, row, rfl⟩ := (steps_mem wide high _ step).mp member
  have number := pixel_number_lt column row
  unfold Readable at readable
  unfold Own
  rw [widthValue, heightValue, channelValue] at readable
  rw [widthValue, heightValue, channelValue]
  refine ⟨x, y, rfl, rfl, by omega, by omega, ?_⟩
  intro index read
  rcases readable with none | ⟨enough, fits⟩
  · have zero : w * h = 0 := by exact_mod_cast none
    omega
  · obtain ⟨lower, upper, whole⟩ :=
      readable_step (by omega) (by exact_mod_cast fits) column row index read
    have positive := le_trans (Int.natCast_nonneg _) lower
    push_cast at lower upper whole
    exact ⟨⟨positive, whole⟩, lower, upper⟩

theorem unreadable_read (image : Image width height channels)
    (unreadable : ¬Readable width height channels) :
    ∃ step ∈ bitmapSteps width height channels, ∃ index ∈ readsOf step,
      ¬(0 ≤ index ∧ index < width.toInt * height.toInt * channels.toInt) := by
  obtain ⟨w, wide, rfl, widthValue⟩ := word_of_int image.width
  obtain ⟨h, high, rfl, heightValue⟩ := word_of_int image.height
  obtain ⟨c, _, rfl, channelValue⟩ := word_of_int (le_trans (by omega) image.least)
  have least := image.least
  have most := image.most
  unfold Readable at unreadable
  rw [widthValue, heightValue, channelValue, not_or] at unreadable
  have some : 0 < w * h := by
    apply Nat.pos_of_ne_zero
    intro none
    apply unreadable.1
    exact_mod_cast none
  have narrow : ¬(3 ≤ c ∧ w * h * c ≤ 2 ^ 31) := by
    intro both
    apply unreadable.2
    exact_mod_cast both
  obtain ⟨x, y, column, row, index, read, outside⟩ :=
    unreadable_step (by omega) (by omega) some narrow
  refine ⟨_, (steps_mem wide high _ _).mpr ⟨x, y, column, row, rfl⟩, index, read, ?_⟩
  rw [widthValue, heightValue, channelValue]
  push_cast at outside
  omega

theorem int_coordinate {value : Nat} (small : value < 2 ^ 31) :
    ((BitVec.ofNat 32 value).signExtend 64).toNat = value := by
  have word : (BitVec.ofNat 32 value).toNat = value := by
    rw [BitVec.toNat_ofNat]
    omega
  rw [sign_extend_small (by omega), word, of_nat_to_nat (by omega)]

theorem reads_own_bytes_iff (framebuffer : LimineFramebuffer)
    (image : Image width height channels) :
    ReadsOwnBytes framebuffer width height channels ↔ Readable width height channels := by
  constructor
  · intro reads
    by_contra unreadable
    obtain ⟨step, member, index, read, outside⟩ := unreadable_read image unreadable
    exact outside (reads.inside step member index read)
  · intro readable
    constructor
    · intro step member index read
      obtain ⟨x, y, _, _, _, _, reads⟩ := readable.step image member
      exact (reads index read).1
    · intro step member _ index read
      obtain ⟨x, y, atX, atY, smallX, smallY, reads⟩ := readable.step image member
      rw [atX, atY, to_int_of_small smallX, to_int_of_small smallY]
      exact (reads index read).2
    · intro laid mem first second x y _ _ inside agree
      apply steps_draw_same laid inside _ _ rfl
      intro step member place
      obtain ⟨stepX, stepY, atX, atY, smallX, smallY, reads⟩ := readable.step image member
      rw [atX, atY, int_coordinate smallX, int_coordinate smallY] at place
      obtain ⟨rfl, rfl⟩ := Prod.mk.inj place
      have same : ∀ index ∈ readsOf step, first index = second index :=
        fun index read => agree index (reads index read).2
      rw [stepColour, stepColour, same step.red (by simp [readsOf]),
        same step.green (by simp [readsOf]), same step.blue (by simp [readsOf])]

end Images

theorem small_image_read : ReadsOwnBytes sampleFramebuffer 2 2 3 := by
  rw [reads_own_bytes_iff sampleFramebuffer ⟨by decide, by decide, by decide, by decide⟩]
  exact Or.inr (by decide)

/-- The only pixel of a grey image is read from three bytes of which one is there. -/
theorem grey_image_read_behind : ¬ReadsOwnBytes sampleFramebuffer 1 1 1 := by
  intro reads
  have behind := reads.inside ⟨0, 0, 0, 1, 2⟩ (by decide) 2 (by decide)
  exact absurd behind.2 (by decide)

end KittyOs.BitmapReads
