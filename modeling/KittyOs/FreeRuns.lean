import KittyOs.Reservation

/-!
# Reservations from a list of values

The reservation list without the fate of its buffer: every append finds room, so
no reference goes stale and each cut reaches the list. Its entries are then the
maximal free runs, with granted bytes between any two of them. A request is
refused only if it cannot be met.
-/

namespace KittyOs.FreeRuns

open KittyOs.Lib.SpanPartition KittyOs.MachineWord KittyOs.ProcessModel KittyOs.Reservation

set_option autoImplicit false

/-- A vector with room for one more entry, which is all a call appends. -/
def withRoom (entries : List VmemEntry) : VmemVector := ⟨entries, entries.length + 1⟩

theorem with_room_not_full (entries : List VmemEntry) : (withRoom entries).full = false := by
  simp [withRoom, VmemVector.full]

structure ValueList where
  entries : List VmemEntry
  granted : List Span
deriving DecidableEq

def ValueList.reservations (list : ValueList) : Reservations := ⟨withRoom list.entries, list.granted⟩

def ValueList.answer (list : ValueList) : VmemCall → Bool × U64
  | .fixed requestedBase size =>
      (allocateVirtualMemoryAt (withRoom list.entries) requestedBase size).1
  | .any size => (allocateVirtualMemory (withRoom list.entries) size).1

def ValueList.reserve (list : ValueList) (call : VmemCall) : ValueList where
  entries := (Reservation.reserve list.reservations call).vector.entries
  granted := (Reservation.reserve list.reservations call).granted

/-- The single entry of a new process, before anything is granted. -/
def wholeRange : ValueList := ⟨[⟨0, 0x80000000⟩], []⟩

/-- Non-empty requests whose end does not wrap. -/
def Proper : VmemCall → Prop
  | .fixed requestedBase size => 1 ≤ size.toNat ∧ requestedBase.toNat + size.toNat < 2 ^ 64
  | .any size => 1 ≤ size.toNat

def ValueList.Free (list : ValueList) (address : Nat) : Prop :=
  address < 0x80000000 ∧ ∀ grant ∈ list.granted, ¬grant.Covers address

/-- What the code's own list does while its buffer has room. -/
theorem value_list_follows (vector : VmemVector) (requestedBase size : U64)
    (room : vector.full = false) :
    (allocateVirtualMemoryAt vector requestedBase size).1 =
        (allocateVirtualMemoryAt (withRoom vector.entries) requestedBase size).1 ∧
      (allocateVirtualMemoryAt vector requestedBase size).2.entries =
        (allocateVirtualMemoryAt (withRoom vector.entries) requestedBase size).2.entries := by
  have roomy := with_room_not_full vector.entries
  have entries : (withRoom vector.entries).entries = vector.entries := rfl
  unfold allocateVirtualMemoryAt
  rw [entries, room, roomy]
  cases firstMatch (VmemEntry.offers requestedBase size) vector.entries with
  | none => exact ⟨rfl, rfl⟩
  | some parts =>
      dsimp only
      split_ifs <;> simp [VmemVector.pushBack, withRoom]

/-- Entries and grants divide the range up, and no two entries meet. -/
structure Separated (list : ValueList) : Prop where
  sound : ReservationSound list.reservations
  distant : (list.entries.map entrySpan).Pairwise Distant

structure ExactList (list : ValueList) : Prop where
  apart : (list.entries.map entrySpan).Pairwise Apart
  covers : ∀ address, (∃ entry ∈ list.entries, (entrySpan entry).Covers address) ↔ list.Free address
  fixed : ∀ requestedBase size : U64, Proper (.fixed requestedBase size) →
    ((list.answer (.fixed requestedBase size)).1 = true ↔
      ∀ offset, offset < size.toNat → list.Free (requestedBase.toNat + offset))
  any : ∀ size : U64, Proper (.any size) →
    ((list.answer (.any size)).1 = true ↔
      ∃ start, ∀ offset, offset < size.toNat → list.Free (start + offset))
  refused : ∀ call, (list.answer call).1 = false → list.reserve call = list

variable {list : ValueList}

theorem Separated.covers (separated : Separated list) (address : Nat) :
    (∃ entry ∈ list.entries, (entrySpan entry).Covers address) ↔ list.Free address := by
  have partition := separated.sound
  unfold ReservationSound ValueList.reservations withRoom at partition
  dsimp only at partition
  obtain ⟨_, _, across⟩ := List.pairwise_append.mp partition.apart
  have whole := partition.covers address
  constructor
  · rintro ⟨entry, member, inside⟩
    have listed : entrySpan entry ∈ list.entries.map entrySpan := List.mem_map_of_mem member
    refine ⟨whole.mp ⟨_, List.mem_append_left _ listed, inside⟩, ?_⟩
    intro grant granted
    exact across _ listed grant granted address inside
  · rintro ⟨below, ungranted⟩
    obtain ⟨piece, member, inside⟩ := whole.mpr below
    rcases List.mem_append.mp member with listed | granted
    · obtain ⟨entry, inEntries, same⟩ := List.mem_map.mp listed
      rw [← same] at inside
      exact ⟨entry, inEntries, inside⟩
    · exact absurd inside (ungranted piece granted)

/-- A run of free bytes lies in one entry. -/
theorem Separated.free_run (separated : Separated list) {start size : Nat} (occupied : 1 ≤ size)
    (free : ∀ offset, offset < size → list.Free (start + offset)) :
    ∃ entry ∈ list.entries, entry.base.toNat ≤ start ∧
      start + size ≤ entry.base.toNat + entry.length.toNat := by
  have covered : ∀ offset, offset ≤ size - 1 →
      ∃ piece ∈ list.entries.map entrySpan, piece.Covers (start + offset) := by
    intro offset bound
    obtain ⟨entry, member, inside⟩ := (separated.covers _).mpr (free offset (by omega))
    exact ⟨_, List.mem_map_of_mem member, inside⟩
  obtain ⟨piece, member, first, last⟩ := run_in_one_piece separated.distant covered
  obtain ⟨entry, listed, same⟩ := List.mem_map.mp member
  rw [← same] at first last
  unfold entrySpan at first last
  exact ⟨entry, listed, first, by dsimp only at last; omega⟩

theorem Separated.entry_run (separated : Separated list) {entry : VmemEntry}
    (member : entry ∈ list.entries) {start size : Nat} (lower : entry.base.toNat ≤ start)
    (upper : start + size ≤ entry.base.toNat + entry.length.toNat) :
    ∀ offset, offset < size → list.Free (start + offset) := by
  intro offset bound
  rw [← separated.covers]
  refine ⟨entry, member, ?_⟩
  unfold Span.Covers entrySpan
  dsimp only
  omega

theorem Separated.fixed_iff (separated : Separated list) {requestedBase size : U64}
    (proper : Proper (.fixed requestedBase size)) :
    (list.answer (.fixed requestedBase size)).1 = true ↔
      ∀ offset, offset < size.toNat → list.Free (requestedBase.toNat + offset) := by
  obtain ⟨occupied, noWrap⟩ := proper
  cases found : firstMatch (VmemEntry.offers requestedBase size) (withRoom list.entries).entries with
  | none =>
      rw [ValueList.answer, allocate_at_refused found]
      refine iff_of_false (by simp) ?_
      intro free
      obtain ⟨entry, member, lower, upper⟩ := separated.free_run occupied free
      have bound := sound_entry_end separated.sound member
      have refused := first_match_none found entry member
      have offered : entry.offers requestedBase size = true := by
        simp only [VmemEntry.offers, Bool.and_eq_true, decide_eq_true_eq, BitVec.le_def,
          BitVec.toNat_add]
        rw [Nat.mod_eq_of_lt noWrap, Nat.mod_eq_of_lt bound]
        exact ⟨lower, upper⟩
      rw [offered] at refused
      exact absurd refused (by simp)
  | some parts =>
      obtain ⟨before, entry, behind⟩ := parts
      have offered := (first_match_some found).2
      have member : entry ∈ list.entries := first_match_member found
      obtain ⟨after, result, _⟩ := allocate_at_found found
      have cut := offered_cut offered (sound_entry_end separated.sound member) noWrap
      rw [ValueList.answer, result]
      exact iff_of_true rfl (separated.entry_run member cut.lower cut.upper)

theorem Separated.any_iff (separated : Separated list) {size : U64} (proper : Proper (.any size)) :
    (list.answer (.any size)).1 = true ↔
      ∃ start, ∀ offset, offset < size.toNat → list.Free (start + offset) := by
  cases found : firstMatch (fun entry : VmemEntry => decide (size ≤ entry.length))
      (withRoom list.entries).entries with
  | none =>
      simp only [ValueList.answer, allocateVirtualMemory, found]
      refine iff_of_false (by simp) ?_
      rintro ⟨start, free⟩
      obtain ⟨entry, member, lower, upper⟩ := separated.free_run proper free
      have refused := first_match_none found entry member
      rw [decide_eq_false_iff_not, BitVec.le_def] at refused
      omega
  | some parts =>
      obtain ⟨before, entry, behind⟩ := parts
      have long := (first_match_some found).2
      have member : entry ∈ list.entries := first_match_member found
      rw [decide_eq_true_eq, BitVec.le_def] at long
      have granted : (list.answer (.any size)).1 = true := by
        simp only [ValueList.answer, allocateVirtualMemory, found]
        split_ifs <;> rfl
      exact iff_of_true granted ⟨entry.base.toNat,
        separated.entry_run member (Nat.le_refl _) (by omega)⟩

theorem refused_unchanged (list : ValueList) (call : VmemCall)
    (refused : (list.answer call).1 = false) : list.reserve call = list := by
  cases call with
  | fixed requestedBase size =>
      cases found : firstMatch (VmemEntry.offers requestedBase size)
          (withRoom list.entries).entries with
      | none =>
          simp only [ValueList.reserve, Reservation.reserve, recordGrant, ValueList.reservations,
            allocate_at_refused found, Bool.false_eq_true, if_false]
          rfl
      | some parts =>
          obtain ⟨after, result, _⟩ := allocate_at_found found
          rw [ValueList.answer, result] at refused
          exact absurd refused (by simp)
  | any size =>
      cases found : firstMatch (fun entry : VmemEntry => decide (size ≤ entry.length))
          (withRoom list.entries).entries with
      | none =>
          simp only [ValueList.reserve, Reservation.reserve, recordGrant, ValueList.reservations,
            allocateVirtualMemory, found, Bool.false_eq_true, if_false]
          rfl
      | some parts =>
          simp only [ValueList.answer, allocateVirtualMemory, found] at refused
          split_ifs at refused

theorem Separated.exact (separated : Separated list) : ExactList list where
  apart := (List.pairwise_append.mp separated.sound.apart).1
  covers := separated.covers
  fixed := fun _ _ proper => separated.fixed_iff proper
  any := fun _ proper => separated.any_iff proper
  refused := refused_unchanged list

/-! ### What a call keeps -/

variable {before behind : List VmemEntry} {entry changed : VmemEntry} {requestedBase size : U64}

/-- An entry that shrinks stays distant from the others. -/
theorem distant_shrunk
    (distant : ((before ++ entry :: behind).map entrySpan).Pairwise Distant)
    (inside : changed.length.toNat = 0 ∨ (entry.base.toNat ≤ changed.base.toNat ∧
      changed.base.toNat + changed.length.toNat ≤ entry.base.toNat + entry.length.toNat)) :
    ((before ++ changed :: behind).map entrySpan).Pairwise Distant := by
  rw [List.map_append, List.map_cons, List.pairwise_middle Distant.symm, List.pairwise_cons] at distant ⊢
  refine ⟨?_, distant.2⟩
  intro other member
  exact (distant.1 other member).mono inside

/-- The two rests of a split are distant: the grant lies between them. -/
theorem distant_split (cut : Cut entry requestedBase size) (occupied : 1 ≤ size.toNat)
    (distant : ((before ++ entry :: behind).map entrySpan).Pairwise Distant) :
    (List.map entrySpan (before ++ ⟨entry.base, requestedBase - entry.base⟩ :: (behind ++
      [⟨requestedBase + size,
        entry.base + entry.length - (requestedBase + size)⟩]))).Pairwise Distant := by
  obtain ⟨length, ends, rest⟩ := cut.rests
  obtain ⟨lower, upper, bound⟩ := cut
  rw [List.map_append, List.map_cons, List.pairwise_middle Distant.symm, List.pairwise_cons] at distant
  rw [List.map_append, List.map_cons, List.pairwise_middle Distant.symm, List.map_append, List.map_singleton,
    ← List.append_assoc, List.pairwise_cons, List.pairwise_append]
  have front : ∀ other ∈ before.map entrySpan ++ behind.map entrySpan,
      Distant (entrySpan ⟨entry.base, requestedBase - entry.base⟩) other := by
    intro other member
    apply (distant.1 other member).mono
    unfold entrySpan
    dsimp only
    omega
  have back : ∀ other ∈ before.map entrySpan ++ behind.map entrySpan,
      Distant (entrySpan ⟨requestedBase + size,
        entry.base + entry.length - (requestedBase + size)⟩) other := by
    intro other member
    apply (distant.1 other member).mono
    unfold entrySpan
    dsimp only
    omega
  refine ⟨?_, distant.2, List.pairwise_singleton _ _, ?_⟩
  · intro other member
    rcases List.mem_append.mp member with old | new
    · exact front other old
    · rw [List.mem_singleton.mp new]
      unfold Distant entrySpan
      dsimp only
      omega
  · intro other member last inLast
    rw [List.mem_singleton.mp inLast]
    exact (back other member).symm

theorem Separated.fixed_step (separated : Separated list)
    (proper : Proper (.fixed requestedBase size)) :
    Separated (list.reserve (.fixed requestedBase size)) := by
  obtain ⟨occupied, noWrap⟩ := proper
  have roomy : list.reservations.vector.full = false := with_room_not_full _
  have clean : CleanCall list.reservations (.fixed requestedBase size) := by
    simp only [CleanCall]
    cases firstMatch (VmemEntry.offers requestedBase size) list.reservations.vector.entries with
    | none => trivial
    | some parts => exact ⟨noWrap, Or.inr (Or.inr roomy)⟩
  refine ⟨(sound_at_iff separated.sound requestedBase size).mpr clean, ?_⟩
  have entries : list.reservations.vector.entries = list.entries := rfl
  cases found : firstMatch (VmemEntry.offers requestedBase size) list.reservations.vector.entries with
  | none =>
      simp only [ValueList.reserve, Reservation.reserve, recordGrant, allocate_at_refused found]
      exact separated.distant
  | some parts =>
      obtain ⟨before, entry, behind⟩ := parts
      obtain ⟨split, offered⟩ := first_match_some found
      have member := first_match_member found
      have cut := offered_cut offered (sound_entry_end separated.sound member) noWrap
      have distant := separated.distant
      rw [← entries, split] at distant
      obtain ⟨after, result, shapes⟩ := allocate_at_found found
      simp only [ValueList.reserve, Reservation.reserve, recordGrant, result]
      obtain ⟨lower, upper, bound⟩ := cut
      rcases shapes with ⟨start, shape⟩ | ⟨_, _, shape⟩ | ⟨_, _, _, shape⟩ | ⟨_, _, full, _⟩
      · rw [shape]
        apply distant_shrunk distant
        rw [start] at upper
        right
        dsimp only
        constructor <;> bv_omega
      · rw [shape]
        apply distant_shrunk distant
        right
        dsimp only
        constructor <;> bv_omega
      · rw [shape]
        exact distant_split ⟨lower, upper, bound⟩ occupied distant
      · rw [roomy] at full
        exact absurd full (by simp)

theorem Separated.any_step (separated : Separated list) (size : U64) :
    Separated (list.reserve (.any size)) := by
  refine ⟨sound_any separated.sound size, ?_⟩
  have entries : list.reservations.vector.entries = list.entries := rfl
  cases found : firstMatch (fun entry : VmemEntry => decide (size ≤ entry.length))
      list.reservations.vector.entries with
  | none =>
      simp only [ValueList.reserve, Reservation.reserve, recordGrant, allocateVirtualMemory, found]
      exact separated.distant
  | some parts =>
      obtain ⟨before, entry, behind⟩ := parts
      obtain ⟨split, long⟩ := first_match_some found
      have member := first_match_member found
      have bound := sound_entry_end separated.sound member
      have distant := separated.distant
      rw [← entries, split] at distant
      rw [decide_eq_true_eq, BitVec.le_def] at long
      simp only [ValueList.reserve, Reservation.reserve, recordGrant, allocateVirtualMemory, found]
      split_ifs
      · have fewer : ((before ++ behind).map entrySpan).Sublist
            ((before ++ entry :: behind).map entrySpan) :=
          ((List.sublist_cons_self entry behind).append_left before).map entrySpan
        exact List.Pairwise.sublist fewer distant
      · apply distant_shrunk distant
        right
        dsimp only
        constructor <;> bv_omega

theorem whole_range_separated : Separated wholeRange where
  sound := by
    refine ⟨List.pairwise_singleton _ _, ?_⟩
    intro address
    simp [wholeRange, ValueList.reservations, withRoom, entrySpan, Span.Covers]
  distant := List.pairwise_singleton _ _

theorem Separated.run (separated : Separated list) {calls : List VmemCall}
    (proper : ∀ call ∈ calls, Proper call) : Separated (calls.foldl ValueList.reserve list) := by
  induction calls generalizing list with
  | nil => exact separated
  | cons call rest ih =>
      obtain ⟨first, later⟩ := List.forall_mem_cons.mp proper
      rw [List.foldl_cons]
      apply ih _ later
      cases call with
      | fixed requestedBase size => exact separated.fixed_step first
      | any size => exact separated.any_step size

/-- After any run of proper calls the entries are the free bytes, and every call
succeeds exactly when it can be met. -/
theorem value_list_exact {calls : List VmemCall} (proper : ∀ call ∈ calls, Proper call) :
    ExactList (calls.foldl ValueList.reserve wholeRange) :=
  (whole_range_separated.run proper).exact

/-- A page in the middle, one at the start and the rest of the first GiB. -/
theorem three_calls_exact :
    (∀ call ∈ ([.fixed 0x40000000 0x1000, .any 0x1000, .fixed 0x1000 0x3ffff000] : List VmemCall),
        Proper call) ∧
      ExactList ([.fixed 0x40000000 0x1000, .any 0x1000, .fixed 0x1000 0x3ffff000].foldl
        ValueList.reserve wholeRange) := by
  have proper : ∀ call ∈ ([.fixed 0x40000000 0x1000, .any 0x1000, .fixed 0x1000 0x3ffff000] :
      List VmemCall), Proper call := by
    simp [Proper]
  exact ⟨proper, value_list_exact proper⟩

end KittyOs.FreeRuns
