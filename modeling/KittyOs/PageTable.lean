import KittyOs.Lib.BitFields
import KittyOs.MachineWord

/-!
# Page-table entries and split addresses

The four packed structs of `virtual.h` share one layout: present, write, user
and cache bits, a 40-bit page number from bit 12, no-execute in bit 63. One
record stands for all four; it carries the names of `struct pt`. In the upper
levels bit 6 is `ign0`, bit 7 is `z` (`mbz0` in `struct pml4`), bit 8 is `ign1`
and the protection keys are the top of `ats1`. The codec to the stored word is a
bijection, so an assignment to one bit-field is an update of the record.
-/

namespace KittyOs.PageTable

open KittyOs.Lib.BitFields KittyOs.Lib.ByteMemory KittyOs.MachineWord

set_option autoImplicit false

structure PageEntry where
  p : Bool
  rw : Bool
  us : Bool
  pwt : Bool
  pcd : Bool
  a : Bool
  d : Bool
  pat : Bool
  g : Bool
  ats0 : BitVec 3
  ppn : BitVec 40
  ats1 : BitVec 7
  pk : BitVec 4
  nx : Bool
deriving DecidableEq, Repr

/-- The field `z` of `struct pdp` and `struct pd`: bit 7, set for a large page. -/
def PageEntry.z (entry : PageEntry) : Bool := entry.pat

def PageEntry.value (entry : PageEntry) : Nat :=
  entry.p.toNat + entry.rw.toNat * 2 ^ 1 + entry.us.toNat * 2 ^ 2 + entry.pwt.toNat * 2 ^ 3 +
    entry.pcd.toNat * 2 ^ 4 + entry.a.toNat * 2 ^ 5 + entry.d.toNat * 2 ^ 6 +
    entry.pat.toNat * 2 ^ 7 + entry.g.toNat * 2 ^ 8 + entry.ats0.toNat * 2 ^ 9 +
    entry.ppn.toNat * 2 ^ 12 + entry.ats1.toNat * 2 ^ 52 + entry.pk.toNat * 2 ^ 59 +
    entry.nx.toNat * 2 ^ 63

def PageEntry.encode (entry : PageEntry) : U64 := BitVec.ofNat 64 entry.value

def decode (word : U64) : PageEntry where
  p := word.toNat.testBit 0
  rw := word.toNat.testBit 1
  us := word.toNat.testBit 2
  pwt := word.toNat.testBit 3
  pcd := word.toNat.testBit 4
  a := word.toNat.testBit 5
  d := word.toNat.testBit 6
  pat := word.toNat.testBit 7
  g := word.toNat.testBit 8
  ats0 := word.extractLsb' 9 3
  ppn := word.extractLsb' 12 40
  ats1 := word.extractLsb' 52 7
  pk := word.extractLsb' 59 4
  nx := word.toNat.testBit 63

/-! ### The codec -/

def PageEntry.pieces (entry : PageEntry) : List (Field × Nat) :=
  [(⟨0, 1⟩, entry.p.toNat), (⟨1, 1⟩, entry.rw.toNat), (⟨2, 1⟩, entry.us.toNat),
    (⟨3, 1⟩, entry.pwt.toNat), (⟨4, 1⟩, entry.pcd.toNat), (⟨5, 1⟩, entry.a.toNat),
    (⟨6, 1⟩, entry.d.toNat), (⟨7, 1⟩, entry.pat.toNat), (⟨8, 1⟩, entry.g.toNat),
    (⟨9, 3⟩, entry.ats0.toNat), (⟨12, 40⟩, entry.ppn.toNat), (⟨52, 7⟩, entry.ats1.toNat),
    (⟨59, 4⟩, entry.pk.toNat), (⟨63, 1⟩, entry.nx.toNat)]

theorem pieces_ascending (entry : PageEntry) :
    entry.pieces.Pairwise fun low high => low.1.shift + low.1.size ≤ high.1.shift := by
  simp [PageEntry.pieces]

theorem pieces_fit (entry : PageEntry) : ∀ piece ∈ entry.pieces, piece.2 < 2 ^ piece.1.size := by
  simp only [PageEntry.pieces, List.forall_mem_cons, List.not_mem_nil, false_implies, implies_true,
    and_true]
  exact ⟨Bool.toNat_lt _, Bool.toNat_lt _, Bool.toNat_lt _, Bool.toNat_lt _, Bool.toNat_lt _,
    Bool.toNat_lt _, Bool.toNat_lt _, Bool.toNat_lt _, Bool.toNat_lt _, entry.ats0.isLt,
    entry.ppn.isLt, entry.ats1.isLt, entry.pk.isLt, Bool.toNat_lt _⟩

theorem value_packed (entry : PageEntry) : entry.value = packed entry.pieces := by
  rw [packed_eq_sum (pieces_ascending entry) (pieces_fit entry)]
  simp only [PageEntry.value, PageEntry.pieces, List.map_cons, List.map_nil, List.sum_cons,
    List.sum_nil]
  simp only [Nat.shiftLeft_eq, Nat.add_assoc, Nat.add_zero, pow_zero, Nat.mul_one]

theorem value_bound (entry : PageEntry) : entry.value < 2 ^ 64 := by
  rw [value_packed]
  apply packed_lt
  simp [PageEntry.pieces]

theorem value_field (entry : PageEntry) {field : Field} {value : Nat}
    (member : (field, value) ∈ entry.pieces) : field.read entry.value = value := by
  have apart : (entry.pieces.map Prod.fst).Pairwise Field.Apart := by
    apply apart_of_ascending
    exact List.pairwise_map.mpr (pieces_ascending entry)
  rw [value_packed, read_packed apart member]
  exact Nat.mod_eq_of_lt (pieces_fit entry _ member)

theorem decode_of_value (word : U64) (entry : PageEntry) (value : word.toNat = entry.value) :
    decode word = entry := by
  have field : ∀ field number, (field, number) ∈ entry.pieces →
      field.read word.toNat = number := by
    intro field number member
    rw [value]
    exact value_field entry member
  have flag : ∀ position flag, (⟨position, 1⟩, Bool.toNat flag) ∈ entry.pieces →
      word.toNat.testBit position = flag :=
    fun position flag member => test_bit_of_read (field _ _ member)
  rw [decode]
  congr 1
  · exact flag 0 _ (by simp [PageEntry.pieces])
  · exact flag 1 _ (by simp [PageEntry.pieces])
  · exact flag 2 _ (by simp [PageEntry.pieces])
  · exact flag 3 _ (by simp [PageEntry.pieces])
  · exact flag 4 _ (by simp [PageEntry.pieces])
  · exact flag 5 _ (by simp [PageEntry.pieces])
  · exact flag 6 _ (by simp [PageEntry.pieces])
  · exact flag 7 _ (by simp [PageEntry.pieces])
  · exact flag 8 _ (by simp [PageEntry.pieces])
  · exact extract_of_read (field _ _ (by simp [PageEntry.pieces]))
  · exact extract_of_read (field _ _ (by simp [PageEntry.pieces]))
  · exact extract_of_read (field _ _ (by simp [PageEntry.pieces]))
  · exact extract_of_read (field _ _ (by simp [PageEntry.pieces]))
  · exact flag 63 _ (by simp [PageEntry.pieces])

@[simp] theorem decode_encode (entry : PageEntry) : decode entry.encode = entry := by
  apply decode_of_value
  unfold PageEntry.encode
  exact of_nat_to_nat (value_bound entry)

private theorem bit_to_nat (value : Nat) : (decide (value % 2 = 1)).toNat = value % 2 := by
  rcases Nat.mod_two_eq_zero_or_one value with even | odd
  · simp [even]
  · simp [odd]

theorem encode_decode (word : U64) : (decode word).encode = word := by
  apply BitVec.eq_of_toNat_eq
  have bound := word.isLt
  simp only [PageEntry.encode, PageEntry.value, decode, Nat.testBit_eq_decide_div_mod_eq,
    BitVec.extractLsb'_toNat, BitVec.toNat_ofNat, Nat.shiftRight_eq_div_pow, bit_to_nat]
  omega

/-- The entry of a zeroed table. -/
def blankEntry : PageEntry where
  p := false
  rw := false
  us := false
  pwt := false
  pcd := false
  a := false
  d := false
  pat := false
  g := false
  ats0 := 0
  ppn := 0
  ats1 := 0
  pk := 0
  nx := false

theorem decode_zero : decode 0 = blankEntry := by
  apply decode_of_value
  simp [PageEntry.value, blankEntry]

/-- The physical page an entry's page number selects. -/
def PageEntry.frame (entry : PageEntry) : Nat := entry.ppn.toNat * 4096

/-- The assignment of `address >> 12` to the page number. -/
def PageEntry.setPage (entry : PageEntry) (address : U64) : PageEntry :=
  { entry with ppn := (address >>> 12).setWidth 40 }

theorem frame_aligned (entry : PageEntry) : entry.frame % 4096 = 0 := by
  unfold PageEntry.frame
  omega

theorem frame_bound (entry : PageEntry) : entry.frame + 4096 ≤ 2 ^ 52 := by
  have bound := entry.ppn.isLt
  unfold PageEntry.frame
  omega

/-- The page number of a page below 2^52 fits its field. -/
theorem set_page_frame (entry : PageEntry) {page : Nat} (aligned : page % 4096 = 0)
    (bound : page + 4096 ≤ 2 ^ 52) : (entry.setPage (BitVec.ofNat 64 page)).frame = page := by
  simp only [PageEntry.frame, PageEntry.setPage, BitVec.toNat_setWidth, BitVec.toNat_ushiftRight,
    Nat.shiftRight_eq_div_pow]
  rw [of_nat_to_nat (by omega)]
  omega

theorem set_page_occupied (entry : PageEntry) {page : Nat} (above : 4096 ≤ page)
    (bound : page + 4096 ≤ 2 ^ 52) : (entry.setPage (BitVec.ofNat 64 page)).ppn ≠ 0 := by
  intro zero
  have value := congrArg BitVec.toNat zero
  simp only [PageEntry.setPage, BitVec.toNat_setWidth, BitVec.toNat_ushiftRight,
    Nat.shiftRight_eq_div_pow, of_nat_to_nat (show page < 2 ^ 64 by omega)] at value
  rw [show (0 : BitVec 40).toNat = 0 from rfl] at value
  omega

/-! ### Tables in memory -/

abbrev Slot := BitVec 9

def readEntry (mem : Memory) (table : Nat) (index : Slot) : PageEntry :=
  decode (loadWord mem (table + 8 * index.toNat))

def writeEntry (mem : Memory) (table : Nat) (index : Slot) (entry : PageEntry) : Memory :=
  storeWord mem (table + 8 * index.toNat) entry.encode

@[simp] theorem read_write_same (mem : Memory) (table : Nat) (index : Slot) (entry : PageEntry) :
    readEntry (writeEntry mem table index entry) table index = entry := by
  rw [readEntry, writeEntry, load_store_same, decode_encode]

theorem read_write_other (mem : Memory) {table other : Nat} {index slot : Slot}
    (entry : PageEntry) (tableAligned : table % 4096 = 0) (otherAligned : other % 4096 = 0)
    (different : ¬(other = table ∧ slot = index)) :
    readEntry (writeEntry mem table index entry) other slot = readEntry mem other slot := by
  have indexBound := index.isLt
  have slotBound := slot.isLt
  have apart : table + 8 * index.toNat ≠ other + 8 * slot.toNat := by
    intro same
    apply different
    have sameTable : other = table := by omega
    exact ⟨sameTable, BitVec.eq_of_toNat_eq (by omega)⟩
  rw [readEntry, writeEntry, load_store_apart _ _ _ _ (by omega), readEntry]

theorem read_entry_congr {left right : Memory} {table : Nat}
    (same : ∀ address, Within table 4096 address → left address = right address) (index : Slot) :
    readEntry left table index = readEntry right table index := by
  have bound := index.isLt
  unfold readEntry
  congr 1
  apply load_word_congr
  intro offset small
  exact same _ ⟨by omega, by omega⟩

theorem read_fill_zero (mem : Memory) (table : Nat) (index : Slot) :
    readEntry (fill mem table 4096 0) table index = blankEntry := by
  have bound := index.isLt
  rw [readEntry, load_fill_zero _ _ _ _ (by omega) (by omega), decode_zero]

end KittyOs.PageTable
