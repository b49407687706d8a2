import KittyOs.PixelCodec

/-!
# Rectangles and their clipping

`draw_rectangle` clips each dimension by the wrapped sum of origin and size and the
wrapped difference of extent and origin. An origin behind the edge, or a sum that
wraps, leaves a size with which the loop runs past the last coordinate and returns
at 0. The rectangle is drawn as it should be exactly when no such return is seen,
because the other dimension shows nothing, and the calls are not too many.
-/

namespace KittyOs.RectangleClip

open KittyOs.Lib.ByteMemory KittyOs.Lib.ByteRuns KittyOs.MachineWord KittyOs.FramebufferModel
open KittyOs.PixelCodec

set_option autoImplicit false

/-! ### One dimension -/

/-- The coordinates the loop goes through. -/
def Visits (origin count coordinate : U64) : Prop :=
  ∃ step, step < count.toNat ∧ origin + BitVec.ofNat 64 step = coordinate

/-- The coordinates of the rectangle, as unbounded numbers. -/
def Wanted (origin size : U64) (coordinate : Nat) : Prop :=
  origin.toNat ≤ coordinate ∧ coordinate < origin.toNat + size.toNat

/-- The loop goes past the last coordinate. -/
def Returns (origin size extent : U64) : Prop :=
  2 ^ 64 < origin.toNat + (clipped origin size extent).toNat

/-- Some visited coordinate is on the framebuffer. -/
def Shows (origin size extent : U64) : Prop :=
  (clipped origin size extent).toNat ≠ 0 ∧
    (origin.toNat < extent.toNat ∨ Returns origin size extent)

section Axis

variable {origin size extent coordinate : U64}

theorem clipped_to_nat (origin size extent : U64) :
    (clipped origin size extent).toNat =
      if extent.toNat < (origin.toNat + size.toNat) % 2 ^ 64 then
        (2 ^ 64 - origin.toNat + extent.toNat) % 2 ^ 64
      else size.toNat := by
  unfold clipped
  have test : origin + size > extent ↔ extent.toNat < (origin.toNat + size.toNat) % 2 ^ 64 := by
    rw [gt_iff_lt, BitVec.lt_def, BitVec.toNat_add]
  by_cases exceeds : extent.toNat < (origin.toNat + size.toNat) % 2 ^ 64
  · rw [if_pos (test.mpr exceeds), if_pos exceeds, BitVec.toNat_sub]
  · rw [if_neg (mt test.mp exceeds), if_neg exceeds]

theorem visits_iff (origin count coordinate : U64) :
    Visits origin count coordinate ↔
      (2 ^ 64 - origin.toNat + coordinate.toNat) % 2 ^ 64 < count.toNat := by
  rw [← BitVec.toNat_sub]
  constructor
  · rintro ⟨step, below, rfl⟩
    have bound := count.isLt
    rw [BitVec.add_comm, BitVec.add_sub_cancel, of_nat_to_nat (by omega)]
    exact below
  · intro below
    refine ⟨(coordinate - origin).toNat, below, ?_⟩
    rw [BitVec.ofNat_toNat, BitVec.setWidth_eq, BitVec.add_comm, BitVec.sub_add_cancel]

/-- A loop that does not return visits what it should. -/
theorem visits_iff_wanted (forward : ¬Returns origin size extent)
    (inside : coordinate.toNat < extent.toNat) :
    Visits origin (clipped origin size extent) coordinate ↔
      Wanted origin size coordinate.toNat := by
  have originBound := origin.isLt
  have sizeBound := size.isLt
  have extentBound := extent.isLt
  unfold Returns at forward
  unfold Wanted
  rw [visits_iff]
  rw [clipped_to_nat] at forward ⊢
  split_ifs at forward ⊢ with exceeds
  · omega
  · omega

/-- A loop that returns visits 0, where no rectangle that starts later is. -/
theorem returns_visits_zero (returned : Returns origin size extent) :
    (0 : U64).toNat < extent.toNat ∧ Visits origin (clipped origin size extent) 0 ∧
      ¬Wanted origin size (0 : U64).toNat := by
  have originBound := origin.isLt
  have sizeBound := size.isLt
  have extentBound := extent.isLt
  have zero : (0 : U64).toNat = 0 := rfl
  unfold Returns at returned
  unfold Wanted
  rw [visits_iff, zero]
  rw [clipped_to_nat] at returned ⊢
  split_ifs at returned ⊢ with exceeds
  · omega
  · omega

theorem shows_iff :
    Shows origin size extent ↔
      ∃ coordinate : U64, coordinate.toNat < extent.toNat ∧
        Visits origin (clipped origin size extent) coordinate := by
  constructor
  · rintro ⟨some, first | returned⟩
    · refine ⟨origin, first, (visits_iff _ _ _).mpr ?_⟩
      have bound := origin.isLt
      rw [Nat.sub_add_cancel (Nat.le_of_lt bound), Nat.mod_self]
      omega
    · obtain ⟨positive, visited, _⟩ := returns_visits_zero returned
      exact ⟨0, positive, visited⟩
  · rintro ⟨coordinate, inside, visited⟩
    have some : (clipped origin size extent).toNat ≠ 0 := by
      obtain ⟨step, below, _⟩ := visited
      omega
    refine ⟨some, ?_⟩
    by_cases returned : Returns origin size extent
    · exact Or.inr returned
    · have wanted := (visits_iff_wanted returned inside).mp visited
      have lower := wanted.1
      exact Or.inl (by omega)

/-- A dimension that shows nothing has nothing to show. -/
theorem unshown_unwanted (hidden : ¬Shows origin size extent)
    (inside : coordinate.toNat < extent.toNat) : ¬Wanted origin size coordinate.toNat := by
  have forward : ¬Returns origin size extent := by
    intro returned
    obtain ⟨positive, visited, _⟩ := returns_visits_zero returned
    exact hidden (shows_iff.mpr ⟨0, positive, visited⟩)
  intro wanted
  exact hidden (shows_iff.mpr ⟨coordinate, inside, (visits_iff_wanted forward inside).mpr wanted⟩)

end Axis

/-! ### The calls -/

theorem rectangle_calls_mem (framebuffer : LimineFramebuffer) (x y width height : U64)
    (place : U64 × U64) :
    place ∈ rectangleCalls framebuffer x y width height ↔
      Visits x (clipped x width framebuffer.width) place.1 ∧
        Visits y (clipped y height framebuffer.height) place.2 := by
  simp only [rectangleCalls, List.mem_flatMap, List.mem_map, List.mem_range]
  constructor
  · rintro ⟨i, row, j, column, rfl⟩
    exact ⟨⟨j, column, rfl⟩, ⟨i, row, rfl⟩⟩
  · rintro ⟨⟨j, column, first⟩, ⟨i, row, second⟩⟩
    exact ⟨i, row, j, column, Prod.ext first second⟩

theorem rectangle_calls_length (framebuffer : LimineFramebuffer) (x y width height : U64) :
    (rectangleCalls framebuffer x y width height).length =
      (clipped y height framebuffer.height).toNat * (clipped x width framebuffer.width).toNat := by
  simp [rectangleCalls, List.length_flatMap]

section Calls

variable {framebuffer : LimineFramebuffer}

/-- The byte of a cell is the colour's if one of the calls was for its pixel. -/
theorem drawn_cell (laid : Laid framebuffer) (colour : Colour) (calls : List (U64 × U64))
    (mem : Memory) {x y : U64} (inside : Inside framebuffer x.toNat y.toNat) {index : Nat}
    (below : index < depth framebuffer) :
    calls.foldl (fun mem place => drawPixel framebuffer mem place.1 place.2 colour) mem
        (runAddress (cellStart framebuffer x.toNat y.toNat) index) =
      if (x, y) ∈ calls then pixelByte (pixelValue framebuffer colour) index
      else mem (runAddress (cellStart framebuffer x.toNat y.toNat) index) := by
  induction calls generalizing mem with
  | nil => simp
  | cons place rest ih =>
      rw [List.foldl_cons, ih]
      by_cases later : (x, y) ∈ rest
      · rw [if_pos later, if_pos (List.mem_cons_of_mem _ later)]
      · rw [if_neg later]
        by_cases here : (x, y) = place
        · have small := depth_lt framebuffer
          rw [if_pos (List.mem_cons.mpr (Or.inl here)), ← here, draw_pixel_inside inside,
            store_run_inside _ _ _ below (by omega)]
        · rw [if_neg (mt List.mem_cons.mp (not_or.mpr ⟨here, later⟩))]
          apply draw_pixel_elsewhere
          intro placeInside own ownBelow same
          obtain ⟨⟨sameX, sameY⟩, _⟩ := cells_apart laid inside placeInside below ownBelow same
          exact here (Prod.ext (BitVec.eq_of_toNat_eq sameX) (BitVec.eq_of_toNat_eq sameY))

theorem drawn_elsewhere (colour : Colour) (calls : List (U64 × U64)) (mem : Memory) {target : Nat}
    (elsewhere : ∀ place ∈ calls, Inside framebuffer place.1.toNat place.2.toNat →
      ∀ index, index < depth framebuffer →
        target ≠ runAddress (cellStart framebuffer place.1.toNat place.2.toNat) index) :
    calls.foldl (fun mem place => drawPixel framebuffer mem place.1 place.2 colour) mem target =
      mem target := by
  induction calls generalizing mem with
  | nil => rfl
  | cons place rest ih =>
      obtain ⟨here, later⟩ := List.forall_mem_cons.mp elsewhere
      rw [List.foldl_cons, ih _ later]
      exact draw_pixel_elsewhere framebuffer mem place.1 place.2 colour here

end Calls

/-! ### Rectangles -/

/-- Exactly the pixels of the rectangle that are on the framebuffer take the colour, no
other byte changes, and no more pixels are drawn than there are. -/
structure DrawnExactly (framebuffer : LimineFramebuffer) (x y width height : U64) : Prop where
  pixels : ∀ mem colour i j, Inside framebuffer i j → Wanted x width i → Wanted y height j →
    ∀ index, index < depth framebuffer →
      drawRectangle framebuffer mem x y width height colour
          (runAddress (cellStart framebuffer i j) index) =
        pixelByte (pixelValue framebuffer colour) index
  others : ∀ mem colour target,
    (∀ i j, Inside framebuffer i j → Wanted x width i → Wanted y height j →
      ∀ index, index < depth framebuffer →
        target ≠ runAddress (cellStart framebuffer i j) index) →
    drawRectangle framebuffer mem x y width height colour target = mem target
  calls : (rectangleCalls framebuffer x y width height).length ≤
    framebuffer.width.toNat * framebuffer.height.toNat

/-- No return of one loop is drawn by the other, unless pixels have no bytes, and the
calls are few. -/
structure Forward (framebuffer : LimineFramebuffer) (x y width height : U64) : Prop where
  columns : 1 ≤ depth framebuffer →
    ¬(Returns x width framebuffer.width ∧ Shows y height framebuffer.height)
  rows : 1 ≤ depth framebuffer →
    ¬(Returns y height framebuffer.height ∧ Shows x width framebuffer.width)
  calls : (clipped y height framebuffer.height).toNat *
      (clipped x width framebuffer.width).toNat ≤
    framebuffer.width.toNat * framebuffer.height.toNat

section Rectangles

variable {framebuffer : LimineFramebuffer} {x y width height : U64}

/-- The pixels drawn are those wanted. -/
theorem Forward.calls_iff (forward : Forward framebuffer x y width height)
    (visible : 1 ≤ depth framebuffer) {i j : U64} (inside : Inside framebuffer i.toNat j.toNat) :
    (i, j) ∈ rectangleCalls framebuffer x y width height ↔
      Wanted x width i.toNat ∧ Wanted y height j.toNat := by
  rw [rectangle_calls_mem]
  by_cases columns : Returns x width framebuffer.width
  · have hidden : ¬Shows y height framebuffer.height := by
      intro shown
      exact forward.columns visible ⟨columns, shown⟩
    refine iff_of_false ?_ ?_
    · rintro ⟨_, visited⟩
      exact hidden (shows_iff.mpr ⟨j, inside.2, visited⟩)
    · rintro ⟨_, wanted⟩
      exact unshown_unwanted hidden inside.2 wanted
  · by_cases rows : Returns y height framebuffer.height
    · have hidden : ¬Shows x width framebuffer.width := by
        intro shown
        exact forward.rows visible ⟨rows, shown⟩
      refine iff_of_false ?_ ?_
      · rintro ⟨visited, _⟩
        exact hidden (shows_iff.mpr ⟨i, inside.1, visited⟩)
      · rintro ⟨wanted, _⟩
        exact unshown_unwanted hidden inside.1 wanted
    · rw [visits_iff_wanted columns inside.1, visits_iff_wanted rows inside.2]

theorem coordinate_word {extent : U64} {coordinate : Nat} (inside : coordinate < extent.toNat) :
    (BitVec.ofNat 64 coordinate).toNat = coordinate := by
  have bound := extent.isLt
  exact of_nat_to_nat (by omega)

theorem Forward.drawn (laid : Laid framebuffer) (forward : Forward framebuffer x y width height) :
    DrawnExactly framebuffer x y width height where
  pixels := by
    intro mem colour i j inside wantedX wantedY index below
    have column := coordinate_word inside.1
    have row := coordinate_word inside.2
    rw [← column, ← row] at inside ⊢
    rw [drawRectangle, drawn_cell laid colour _ mem inside below, if_pos]
    rw [forward.calls_iff (by omega) inside, column, row]
    exact ⟨wantedX, wantedY⟩
  others := by
    intro mem colour target elsewhere
    apply drawn_elsewhere
    intro place member inside index below
    obtain ⟨wantedX, wantedY⟩ := (forward.calls_iff (by omega) inside).mp member
    exact elsewhere _ _ inside wantedX wantedY index below
  calls := by
    rw [rectangle_calls_length]
    exact forward.calls

/-- A call for a pixel that is not of the rectangle changes a byte it should not. -/
theorem unwanted_call_seen (laid : Laid framebuffer) (visible : 1 ≤ depth framebuffer) {i j : U64}
    (inside : Inside framebuffer i.toNat j.toNat)
    (called : (i, j) ∈ rectangleCalls framebuffer x y width height)
    (unwanted : ¬(Wanted x width i.toNat ∧ Wanted y height j.toNat)) :
    ¬DrawnExactly framebuffer x y width height := by
  intro drawn
  let byte := pixelByte (pixelValue framebuffer ⟨0, 0, 0⟩) 0
  have elsewhere : ∀ a b, Inside framebuffer a b → Wanted x width a → Wanted y height b →
      ∀ index, index < depth framebuffer →
        runAddress (cellStart framebuffer i.toNat j.toNat) 0 ≠
          runAddress (cellStart framebuffer a b) index := by
    intro a b placeInside wantedX wantedY index below same
    obtain ⟨⟨sameX, sameY⟩, _⟩ := cells_apart laid inside placeInside visible below same
    rw [← sameX] at wantedX
    rw [← sameY] at wantedY
    exact unwanted ⟨wantedX, wantedY⟩
  have kept := drawn.others (fun _ => byte + 1) ⟨0, 0, 0⟩ _ elsewhere
  rw [drawRectangle, drawn_cell laid ⟨0, 0, 0⟩ _ _ inside visible, if_pos called] at kept
  have different : byte ≠ byte + 1 := by bv_omega
  exact different kept

theorem drawn_exactly_iff_forward (laid : Laid framebuffer) :
    DrawnExactly framebuffer x y width height ↔ Forward framebuffer x y width height := by
  constructor
  · intro drawn
    constructor
    · rintro visible ⟨returned, shown⟩
      obtain ⟨positive, visited, unwanted⟩ := returns_visits_zero returned
      obtain ⟨row, rowInside, rowVisited⟩ := shows_iff.mp shown
      have called := (rectangle_calls_mem framebuffer x y width height (0, row)).mpr
        ⟨visited, rowVisited⟩
      exact unwanted_call_seen laid visible ⟨positive, rowInside⟩ called
        (fun both => unwanted both.1) drawn
    · rintro visible ⟨returned, shown⟩
      obtain ⟨positive, visited, unwanted⟩ := returns_visits_zero returned
      obtain ⟨column, columnInside, columnVisited⟩ := shows_iff.mp shown
      have called := (rectangle_calls_mem framebuffer x y width height (column, 0)).mpr
        ⟨columnVisited, visited⟩
      exact unwanted_call_seen laid visible ⟨columnInside, positive⟩ called
        (fun both => unwanted both.2) drawn
    · have few := drawn.calls
      rw [rectangle_calls_length] at few
      exact few
  · intro forward
    exact forward.drawn laid

end Rectangles

theorem sample_rectangle_drawn : DrawnExactly sampleFramebuffer 90 10 50 10 := by
  rw [drawn_exactly_iff_forward sample_laid]
  constructor
  · intro _ both
    exact absurd both.1 (by unfold Returns; decide)
  · intro _ both
    exact absurd both.1 (by unfold Returns; decide)
  · decide

/-- A rectangle to the right of the framebuffer is drawn over its whole width. -/
theorem rectangle_behind_edge_drawn : ¬DrawnExactly sampleFramebuffer 200 10 50 10 := by
  have called : ((0 : U64), (10 : U64)) ∈ rectangleCalls sampleFramebuffer 200 10 50 10 := by
    rw [rectangle_calls_mem, visits_iff, visits_iff]
    decide
  apply unwanted_call_seen sample_laid (by decide) ⟨by decide, by decide⟩ called
  intro both
  exact absurd both.1.1 (by decide)

end KittyOs.RectangleClip
