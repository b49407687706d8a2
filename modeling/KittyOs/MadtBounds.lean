import KittyOs.MadtRecords
import KittyOs.TableBounds

/-!
# Bounds of the MADT walk

For arbitrary table contents: when `parse_apic_table` returns after reading bytes of
its table only. A record of length 0 is met again and again, and one whose structure
or header reaches behind the end of the table is read there. Counting the records of
each kind is enough to know which structures are still read.
-/

namespace KittyOs.MadtBounds

open KittyOs.Lib.ByteMemory KittyOs.MachineWord KittyOs.AcpiModel KittyOs.MadtRecords
open KittyOs.TableBounds

set_option autoImplicit false

/-- The parse of the table comes to an end, having read bytes of the table only. -/
def StaysInside (mem : Memory) (state : AcpiState) (table : U64) : Prop :=
  ∃ fuel outcome, parseApicTable mem fuel state = some outcome ∧
    ∀ span ∈ outcome.2, Inside table (sdtLength mem table).toNat span

section Records

variable (mem : Memory) (table : U64) (length : Nat)

def typeAt (offset : Nat) : Option ApicEntryType :=
  entryType (mem (table + BitVec.ofNat 64 offset).toNat)

def lengthAt (offset : Nat) : Nat := (mem (table + BitVec.ofNat 64 (offset + 1)).toNat).toNat

/-- Another record of a kind was met. -/
def countType (seen : ApicEntryType → Nat) (found : Option ApicEntryType) : ApicEntryType → Nat :=
  fun kind => if found = some kind then seen kind + 1 else seen kind

/-- From an offset on, every record begins inside the table, has a length, and is long
enough for its structure unless 256 of its kind came before. -/
inductive RecordsFit : (ApicEntryType → Nat) → Nat → Prop where
  | done {seen : ApicEntryType → Nat} {offset : Nat} (ended : length ≤ offset) :
      RecordsFit seen offset
  | next {seen : ApicEntryType → Nat} {offset : Nat} (header : offset + 2 ≤ length)
      (advances : lengthAt mem table offset ≠ 0)
      (body : ∀ kind, typeAt mem table offset = some kind → seen kind < 256 →
        offset + kind.size ≤ length)
      (rest : RecordsFit (countType seen (typeAt mem table offset))
        (offset + lengthAt mem table offset)) :
      RecordsFit seen offset

end Records

/-! ### The loop -/

section Loop

variable {mem : Memory} {table tableEnd : U64}

/-- The spans of one round. -/
theorem parse_entry_reads (place : U64) (walk : MadtWalk) :
    (parseEntry mem place walk).reads = walk.reads ++
      match entryType (mem place.toNat) with
      | some kind => if walk.tables.count kind < 256 then [⟨place, 1⟩, ⟨place, kind.size⟩]
          else [⟨place, 1⟩]
      | none => [⟨place, 1⟩, ⟨place, 1⟩] := by
  unfold parseEntry
  cases entryType (mem place.toNat) with
  | some kind =>
      dsimp only
      split_ifs <;> rfl
  | none => rfl

/-- The walk when a round is over and the length was read. -/
def afterRecord (mem : Memory) (place : U64) (walk : MadtWalk) : MadtWalk :=
  { parseEntry mem place walk with
    reads := (parseEntry mem place walk).reads ++ [⟨place + 1, 1⟩] }

theorem parse_entries_next {current : U64} (inside : current < tableEnd) (fuel : Nat)
    (walk : MadtWalk) :
    parseEntries mem tableEnd (fuel + 1) current walk =
      parseEntries mem tableEnd fuel (current + (mem (current + 1).toNat).setWidth 64)
        (afterRecord mem current walk) := by
  rw [parseEntries, if_pos inside]
  rfl

theorem parse_entries_reads {fuel : Nat} {current : U64} {walk final : MadtWalk}
    (ran : parseEntries mem tableEnd fuel current walk = some final) :
    ∀ span ∈ walk.reads, span ∈ final.reads := by
  induction fuel generalizing current walk with
  | zero => exact absurd ran (by simp [parseEntries])
  | succ fuel ih =>
      by_cases inside : current < tableEnd
      · rw [parse_entries_next inside] at ran
        intro span member
        apply ih ran
        simp [afterRecord, parse_entry_reads, member]
      · rw [parseEntries, if_neg inside] at ran
        rw [← Option.some.inj ran]
        exact fun span member => member

/-- A record of length 0 is never left. -/
theorem zero_length_loops {current : U64} (inside : current < tableEnd)
    (zero : mem (current + 1).toNat = 0) (fuel : Nat) (walk : MadtWalk) :
    parseEntries mem tableEnd fuel current walk = none := by
  induction fuel generalizing walk with
  | zero => rfl
  | succ fuel ih =>
      have stays : current + (mem (current + 1).toNat).setWidth 64 = current := by
        rw [zero]
        simp
      rw [parse_entries_next inside, stays]
      exact ih _

/-- The arrays have taken what was seen of each kind, up to 256. -/
def Counted (seen : ApicEntryType → Nat) (tables : MadtTables) : Prop :=
  ∀ kind, tables.count kind = min 256 (seen kind)

theorem store_count (place : U64) (tables : MadtTables) (stored kind : ApicEntryType) :
    (tables.store mem place stored).count kind =
      if stored = kind then tables.count kind + 1 else tables.count kind := by
  cases stored <;> cases kind <;> simp [MadtTables.store, MadtTables.count]

theorem counted_step {seen : ApicEntryType → Nat} {walk : MadtWalk}
    (counted : Counted seen walk.tables) (place : U64) :
    Counted (countType seen (entryType (mem place.toNat))) (afterRecord mem place walk).tables := by
  intro kind
  rw [show (afterRecord mem place walk).tables = (parseEntry mem place walk).tables from rfl]
  have before := counted kind
  cases typed : entryType (mem place.toNat) with
  | none => rw [parse_entry_skipped typed, before, countType, if_neg (by simp)]
  | some found =>
      rw [parse_entry_kept typed]
      unfold countType
      by_cases same : found = kind
      · subst same
        rw [if_pos rfl]
        split_ifs with room
        · rw [store_count, if_pos rfl]
          omega
        · omega
      · rw [if_neg (fun equal => same (Option.some.inj equal))]
        split_ifs with room
        · rw [store_count, if_neg same, before]
        · exact before

/-- The table lies so that no record of it ends behind the address space. -/
structure Placed (table tableEnd : U64) (length : Nat) : Prop where
  ends : tableEnd.toNat = table.toNat + length
  room : table.toNat + length + 255 < 2 ^ 64

variable {length : Nat}

theorem place_inside_iff (placed : Placed table tableEnd length) {offset : Nat}
    (near : offset < length + 255) :
    table + BitVec.ofNat 64 offset < tableEnd ↔ offset < length := by
  have ends := placed.ends
  have room := placed.room
  bv_omega

theorem place_next (offset : Nat) :
    table + BitVec.ofNat 64 offset + 1 = table + BitVec.ofNat 64 (offset + 1) := by
  bv_omega

theorem place_after (offset : Nat) :
    table + BitVec.ofNat 64 offset +
        (mem (table + BitVec.ofNat 64 offset + 1).toNat).setWidth 64 =
      table + BitVec.ofNat 64 (offset + lengthAt mem table offset) := by
  unfold lengthAt
  rw [place_next]
  bv_omega

/-- The spans one round adds, as far as they matter for the bounds. -/
theorem round_inside_iff {offset : Nat} (bound : offset + 12 < 2 ^ 64)
    {seen : ApicEntryType → Nat} {walk : MadtWalk} (counted : Counted seen walk.tables)
    (before : ∀ span ∈ walk.reads, Inside table length span) :
    (∀ span ∈ (afterRecord mem (table + BitVec.ofNat 64 offset) walk).reads,
        Inside table length span) ↔
      offset + 2 ≤ length ∧ ∀ kind, typeAt mem table offset = some kind → seen kind < 256 →
        offset + kind.size ≤ length := by
  have head : Inside table length ⟨table + BitVec.ofNat 64 offset, 1⟩ ↔ offset + 1 ≤ length :=
    inside_iff Nat.one_pos (by omega)
  have tail : Inside table length ⟨table + BitVec.ofNat 64 offset + 1, 1⟩ ↔
      offset + 2 ≤ length := by
    rw [place_next]
    exact inside_iff Nat.one_pos (by omega)
  have body : ∀ kind : ApicEntryType,
      Inside table length ⟨table + BitVec.ofNat 64 offset, kind.size⟩ ↔
        offset + kind.size ≤ length := by
    intro kind
    exact inside_iff (by cases kind <;> decide) (by cases kind <;> simp [ApicEntryType.size] <;> omega)
  simp only [afterRecord, parse_entry_reads, List.forall_mem_append, List.forall_mem_singleton, tail]
  rw [show entryType (mem (table + BitVec.ofNat 64 offset).toNat) = typeAt mem table offset from rfl]
  cases typed : typeAt mem table offset with
  | none =>
      simp only [List.forall_mem_cons, List.not_mem_nil, head, reduceCtorEq, false_imp_iff,
        implies_true, and_true]
      constructor
      · exact fun spans => spans.2
      · exact fun fits => ⟨⟨before, by omega, by omega⟩, fits⟩
  | some found =>
      have room : walk.tables.count found < 256 ↔ seen found < 256 := by
        rw [counted found]
        omega
      simp only [room, Option.some.injEq]
      split_ifs with few
      · simp only [List.forall_mem_cons, List.not_mem_nil, false_imp_iff, implies_true, and_true,
          head, body]
        constructor
        · rintro ⟨⟨_, _, fits⟩, last⟩
          refine ⟨last, ?_⟩
          rintro kind rfl _
          exact fits
        · rintro ⟨last, fits⟩
          exact ⟨⟨before, by omega, fits found rfl few⟩, last⟩
      · simp only [List.forall_mem_singleton, head]
        constructor
        · rintro ⟨_, last⟩
          refine ⟨last, ?_⟩
          rintro kind rfl below
          exact absurd below few
        · rintro ⟨last, _⟩
          exact ⟨⟨before, by omega⟩, last⟩

theorem length_at_bound (mem : Memory) (table : U64) (offset : Nat) :
    lengthAt mem table offset ≤ 255 := by
  have bound := (mem (table + BitVec.ofNat 64 (offset + 1)).toNat).isLt
  unfold lengthAt
  omega

theorem records_of_parse (placed : Placed table tableEnd length) {fuel offset : Nat}
    (near : offset < length + 255) {seen : ApicEntryType → Nat} {walk final : MadtWalk}
    (counted : Counted seen walk.tables)
    (ran : parseEntries mem tableEnd fuel (table + BitVec.ofNat 64 offset) walk = some final)
    (inside : ∀ span ∈ final.reads, Inside table length span) :
    RecordsFit mem table length seen offset := by
  have room := placed.room
  induction fuel generalizing offset seen walk with
  | zero => exact absurd ran (by simp [parseEntries])
  | succ fuel ih =>
      by_cases more : offset < length
      · have enters := (place_inside_iff placed near).mpr more
        have moving : lengthAt mem table offset ≠ 0 := by
          intro zero
          have still : mem (table + BitVec.ofNat 64 offset + 1).toNat = 0 := by
            rw [place_next]
            exact BitVec.eq_of_toNat_eq zero
          rw [zero_length_loops enters still] at ran
          exact absurd ran (by simp)
        rw [parse_entries_next enters, place_after] at ran
        have before : ∀ span ∈ walk.reads, Inside table length span := by
          intro span member
          apply inside span
          apply parse_entries_reads ran
          simp [afterRecord, parse_entry_reads, member]
        have round := (round_inside_iff (by omega) counted before).mp
          fun span member => inside span (parse_entries_reads ran span member)
        have short := length_at_bound mem table offset
        exact .next round.1 moving round.2 (ih (by omega) (counted_step counted _) ran)
      · exact .done (by omega)

theorem parse_of_records (placed : Placed table tableEnd length) {offset : Nat}
    {seen : ApicEntryType → Nat} (fit : RecordsFit mem table length seen offset)
    (near : offset < length + 255) {walk : MadtWalk} (counted : Counted seen walk.tables)
    (before : ∀ span ∈ walk.reads, Inside table length span) :
    ∃ fuel final, parseEntries mem tableEnd fuel (table + BitVec.ofNat 64 offset) walk =
      some final ∧ ∀ span ∈ final.reads, Inside table length span := by
  have room := placed.room
  induction fit generalizing walk with
  | done ended =>
      have leaves := mt (place_inside_iff placed near).mp (by omega)
      exact ⟨1, walk, by rw [parseEntries, if_neg leaves], before⟩
  | @next seen offset header advances body rest ih =>
      have enters := (place_inside_iff placed near).mpr (by omega)
      have round := (round_inside_iff (by omega) counted before).mpr ⟨header, body⟩
      have short := length_at_bound mem table offset
      obtain ⟨fuel, final, ran, inside⟩ := ih (by omega) (counted_step counted _) round
      refine ⟨fuel + 1, final, ?_, inside⟩
      rw [parse_entries_next enters, place_after]
      exact ran

end Loop

/-- The fields of the header that are read reach up to its end. -/
theorem header_inside_iff {table : U64} {length : Nat} :
    (∀ span ∈ [⟨table + 36, 4⟩, ⟨table + 40, 4⟩, sdtLengthSpan table], Inside table length span) ↔
      44 ≤ length := by
  have controllers : Inside table length ⟨table + 36, 4⟩ ↔ 36 + 4 ≤ length :=
    inside_iff (by decide) (by decide)
  have flags : Inside table length ⟨table + 40, 4⟩ ↔ 40 + 4 ≤ length :=
    inside_iff (by decide) (by decide)
  have size : Inside table length (sdtLengthSpan table) ↔ 4 + 4 ≤ length :=
    inside_iff (by decide) (by decide)
  simp only [List.forall_mem_cons, List.not_mem_nil, false_imp_iff, implies_true, and_true,
    controllers, flags, size]
  omega

theorem parse_inside_iff_records_fit {mem : Memory} {state : AcpiState} {table : U64}
    (found : getAcpiTable mem state.tableAddresses apicSignature = some table)
    (fresh : state.madt = .empty)
    (room : table.toNat + (sdtLength mem table).toNat + 255 < 2 ^ 64) :
    StaysInside mem state table ↔
      44 ≤ (sdtLength mem table).toNat ∧
        RecordsFit mem table (sdtLength mem table).toNat (fun _ => 0) 44 := by
  have placed : Placed table (table + (sdtLength mem table).setWidth 64)
      (sdtLength mem table).toNat := by
    refine ⟨?_, room⟩
    rw [BitVec.toNat_add, BitVec.toNat_setWidth]
    omega
  let begun : MadtWalk :=
    ⟨state.madt, [⟨table + 36, 4⟩, ⟨table + 40, 4⟩, sdtLengthSpan table]⟩
  have counted : Counted (fun _ => 0) begun.tables := by
    simp only [begun, fresh]
    intro kind
    cases kind <;> rfl
  simp only [StaysInside, parseApicTable, found]
  constructor
  · rintro ⟨fuel, outcome, parsed, inside⟩
    obtain ⟨final, ran, result⟩ := Option.map_eq_some_iff.mp parsed
    rw [← result] at inside
    have header := header_inside_iff.mp fun span member =>
      inside span (parse_entries_reads ran span member)
    exact ⟨header, records_of_parse placed (by omega) counted ran inside⟩
  · rintro ⟨header, fit⟩
    have before : ∀ span ∈ begun.reads, Inside table (sdtLength mem table).toNat span :=
      header_inside_iff.mpr header
    obtain ⟨fuel, final, ran, inside⟩ := parse_of_records placed fit (by omega) counted before
    exact ⟨fuel, _, Option.map_eq_some_iff.mpr ⟨final, ran, rfl⟩, inside⟩

/-- Records of every kind, read inside the table. -/
theorem mixed_records_inside : StaysInside mixedRecords ⟨[0x1000], none, .empty⟩ 0x1000 := by
  apply (parse_inside_iff_records_fit (by decide) rfl (by decide)).mpr
  have sized : ∀ offset ∈ [44, 52, 64, 76, 86], ((typeAt mixedRecords 0x1000 offset).all
      fun kind => offset + kind.size ≤ (sdtLength mixedRecords 0x1000).toNat) = true := by
    decide
  have body : ∀ {seen : ApicEntryType → Nat}, ∀ offset ∈ [44, 52, 64, 76, 86], ∀ kind,
      typeAt mixedRecords 0x1000 offset = some kind → seen kind < 256 →
        offset + kind.size ≤ (sdtLength mixedRecords 0x1000).toNat := by
    intro seen offset member kind typed _
    have fits := sized offset member
    rw [typed] at fits
    exact of_decide_eq_true fits
  refine ⟨by decide, .next (by decide) (by decide) (body 44 (by decide)) ?_⟩
  refine .next (by decide) (by decide) (body 52 (by decide)) ?_
  refine .next (by decide) (by decide) (body 64 (by decide)) ?_
  refine .next (by decide) (by decide) (body 76 (by decide)) ?_
  exact .next (by decide) (by decide) (body 86 (by decide)) (.done (by decide))

/-- A MADT at 0x1000 with one record of type 5 and length 0. -/
def emptyRecord : Memory := fun address =>
  ([0x41, 0x50, 0x49, 0x43, 46] ++ List.replicate 39 0 ++ [5, 0]).getD (address - 0x1000) 0

/-- The walk never gets past a record of length 0. -/
theorem empty_record_never_left :
    getAcpiTable emptyRecord [0x1000] apicSignature = some 0x1000 ∧
      ∀ fuel, parseApicTable emptyRecord fuel ⟨[0x1000], none, .empty⟩ = none := by
  have found : getAcpiTable emptyRecord [0x1000] apicSignature = some 0x1000 := by decide
  refine ⟨found, fun fuel => ?_⟩
  have size : sdtLength emptyRecord 0x1000 = 46 := by decide
  simp only [parseApicTable, found, size]
  rw [zero_length_loops (by decide) (by decide), Option.map_none]

end KittyOs.MadtBounds
