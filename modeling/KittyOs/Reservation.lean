import KittyOs.Lib.SpanPartition
import KittyOs.ProcessModel

/-!
# The reservation list of a process

Grants are cut out of the entries of `available_vmem`. As long as no request
wraps and no split falls on a full vector, entries and grants partition the first
two GiB, so grants are disjoint and inside. A split on a full vector loses the
assignment that should shrink the entry, and the range can be granted again.
-/

namespace KittyOs.Reservation

open KittyOs.Lib.SpanPartition KittyOs.MachineWord KittyOs.ProcessModel

set_option autoImplicit false

def entrySpan (entry : VmemEntry) : Span := ⟨entry.base.toNat, entry.length.toNat⟩

inductive VmemCall where
  | fixed (requestedBase size : U64)
  | any (size : U64)
deriving DecidableEq, Repr

/-- The list of a process and the ranges granted from it so far. -/
structure Reservations where
  vector : VmemVector
  granted : List Span
deriving DecidableEq

def recordGrant (granted : List Span) (size : U64) (outcome : (Bool × U64) × VmemVector) :
    Reservations where
  vector := outcome.2
  granted := if outcome.1.1 then ⟨outcome.1.2.toNat, size.toNat⟩ :: granted else granted

def reserve (reservations : Reservations) : VmemCall → Reservations
  | .fixed requestedBase size =>
      recordGrant reservations.granted size
        (allocateVirtualMemoryAt reservations.vector requestedBase size)
  | .any size =>
      recordGrant reservations.granted size (allocateVirtualMemory reservations.vector size)

/-- What `create_process` leaves: the single entry, and the stack granted from it. -/
def created : Reservations :=
  reserve ⟨(⟨[], 0⟩ : VmemVector).pushBack ⟨0, 0x80000000⟩, []⟩
    (.fixed (0x80000000 - stackSize) stackSize)

theorem created_vector : created.vector = createVmem.2 := rfl

/-- Entries and grants are disjoint and cover exactly the first two GiB. -/
def ReservationSound (reservations : Reservations) : Prop :=
  Partition (reservations.vector.entries.map entrySpan ++ reservations.granted)
    (fun address => address < 0x80000000)

def SoundThroughout : Reservations → List VmemCall → Prop
  | reservations, [] => ReservationSound reservations
  | reservations, call :: rest =>
      ReservationSound reservations ∧ SoundThroughout (reserve reservations call) rest

/-- The end of the request does not wrap, and the entry it is cut from is cut at
an end or the vector has room for another entry. -/
def CleanCall (reservations : Reservations) : VmemCall → Prop
  | .fixed requestedBase size =>
      match firstMatch (VmemEntry.offers requestedBase size) reservations.vector.entries with
      | none => True
      | some (_, entry, _) =>
          requestedBase.toNat + size.toNat < 2 ^ 64 ∧
            (requestedBase = entry.base ∨
              entry.base + entry.length - (requestedBase + size) = 0 ∨
              reservations.vector.full = false)
  | .any _ => True

def CleanCalls : Reservations → List VmemCall → Prop
  | _, [] => True
  | reservations, call :: rest =>
      CleanCall reservations call ∧ CleanCalls (reserve reservations call) rest

/-! ### One call -/

theorem first_match_some {Element : Type} {stops : Element → Bool} {elements before behind : List Element}
    {element : Element} (found : firstMatch stops elements = some (before, element, behind)) :
    elements = before ++ element :: behind ∧ stops element = true := by
  induction elements generalizing before with
  | nil => exact absurd found (by simp [firstMatch])
  | cons first rest ih =>
      unfold firstMatch at found
      by_cases here : stops first = true
      · rw [if_pos here] at found
        simp only [Option.some.injEq, Prod.mk.injEq] at found
        obtain ⟨front, same, back⟩ := found
        subst front same back
        exact ⟨rfl, here⟩
      · rw [if_neg here] at found
        obtain ⟨⟨front, stop, back⟩, later, shape⟩ := Option.map_eq_some_iff.mp found
        simp only [Prod.mk.injEq] at shape
        obtain ⟨atFront, same, atBack⟩ := shape
        subst same atBack
        obtain ⟨split, stopped⟩ := ih later
        rw [← atFront, split]
        exact ⟨rfl, stopped⟩

theorem first_match_member {Element : Type} {stops : Element → Bool}
    {elements before behind : List Element} {element : Element}
    (found : firstMatch stops elements = some (before, element, behind)) : element ∈ elements := by
  rw [(first_match_some found).1]
  exact List.mem_append_right _ List.mem_cons_self

theorem first_match_none {Element : Type} {stops : Element → Bool} {elements : List Element}
    (missing : firstMatch stops elements = none) : ∀ element ∈ elements, stops element = false := by
  induction elements with
  | nil => simp
  | cons first rest ih =>
      unfold firstMatch at missing
      by_cases here : stops first = true
      · rw [if_pos here] at missing
        exact absurd missing (by simp)
      · rw [if_neg here, Option.map_eq_none_iff] at missing
        rw [List.forall_mem_cons]
        exact ⟨by simpa using here, ih missing⟩

variable {region : Nat → Prop}

/-- A span cut in two, in the middle of a list. -/
theorem partition_cut {before behind granted : List Span} {base length count : Nat}
    (partition : Partition ((before ++ ⟨base, length⟩ :: behind) ++ granted) region)
    (bound : count ≤ length) :
    Partition (⟨base, count⟩ :: ⟨base + count, length - count⟩ :: (before ++ behind ++ granted))
      region := by
  apply Partition.split _ bound
  apply partition.perm
  rw [List.perm_iff_count]
  intro span
  simp only [List.count_append, List.count_cons]
  ring

/-- The four ways a request that is granted changes the list. -/
theorem allocate_at_found {vector : VmemVector} {requestedBase size : U64}
    {before behind : List VmemEntry} {entry : VmemEntry}
    (found : firstMatch (VmemEntry.offers requestedBase size) vector.entries =
      some (before, entry, behind)) :
    ∃ after, allocateVirtualMemoryAt vector requestedBase size = ((true, requestedBase), after) ∧
      ((requestedBase = entry.base ∧
          after.entries = before ++ ⟨entry.base + size, entry.length - size⟩ :: behind) ∨
        (requestedBase ≠ entry.base ∧
          entry.base + entry.length - (requestedBase + size) = 0 ∧
          after.entries = before ++ ⟨entry.base, requestedBase - entry.base⟩ :: behind) ∨
        (requestedBase ≠ entry.base ∧
          entry.base + entry.length - (requestedBase + size) ≠ 0 ∧ vector.full = false ∧
          after.entries = before ++ ⟨entry.base, requestedBase - entry.base⟩ :: (behind ++
            [⟨requestedBase + size, entry.base + entry.length - (requestedBase + size)⟩])) ∨
        (requestedBase ≠ entry.base ∧
          entry.base + entry.length - (requestedBase + size) ≠ 0 ∧ vector.full = true ∧
          after.entries = before ++ entry :: (behind ++
            [⟨requestedBase + size, entry.base + entry.length - (requestedBase + size)⟩]))) := by
  obtain ⟨split, _⟩ := first_match_some found
  have dropped : vector.entries.drop (before.length + 1) = behind := by
    rw [split, ← List.drop_drop]
    simp
  have droppedPushed : ∀ last, (vector.entries ++ [last]).drop (before.length + 1) =
      behind ++ [last] := by
    intro last
    rw [split, List.append_assoc, ← List.drop_drop]
    simp
  simp only [allocateVirtualMemoryAt, found]
  by_cases start : requestedBase = entry.base
  · exact ⟨_, by rw [if_pos start], Or.inl ⟨start, by rw [dropped]⟩⟩
  · rw [if_neg start]
    by_cases nothing : entry.base + entry.length - (requestedBase + size) = 0
    · rw [if_neg (by rw [nothing]; decide)]
      exact ⟨_, rfl, Or.inr (Or.inl ⟨start, nothing, by rw [dropped]⟩)⟩
    · rw [if_pos (by bv_omega)]
      cases full : vector.full with
      | false =>
          refine ⟨_, rfl, Or.inr (Or.inr (Or.inl ⟨start, nothing, rfl, ?_⟩))⟩
          simp only [VmemVector.pushBack, droppedPushed]
      | true =>
          refine ⟨_, rfl, Or.inr (Or.inr (Or.inr ⟨start, nothing, rfl, ?_⟩))⟩
          simp only [VmemVector.pushBack, split, List.append_assoc, List.cons_append]

theorem allocate_at_refused {vector : VmemVector} {requestedBase size : U64}
    (missing : firstMatch (VmemEntry.offers requestedBase size) vector.entries = none) :
    allocateVirtualMemoryAt vector requestedBase size = ((false, 0), vector) := by
  simp only [allocateVirtualMemoryAt, missing]

/-- Entries of a sound list end below the word size. -/
theorem sound_entry_end {reservations : Reservations} (sound : ReservationSound reservations)
    {entry : VmemEntry} (member : entry ∈ reservations.vector.entries) :
    entry.base.toNat + entry.length.toNat < 2 ^ 64 := by
  by_cases empty : entry.length.toNat = 0
  · have bound := entry.base.isLt
    omega
  · have last := Partition.inside sound
      (List.mem_append_left _ (List.mem_map_of_mem member))
      (show Span.Covers (entrySpan entry) (entry.base.toNat + entry.length.toNat - 1) by
        unfold Span.Covers entrySpan
        dsimp only
        omega)
    omega

/-- A granted range that wraps leaves the region. -/
theorem wrapping_grant_unsound {spans granted : List Span} {base size : U64}
    (wraps : 2 ^ 64 ≤ base.toNat + size.toNat)
    (partition : Partition (spans ++ ⟨base.toNat, size.toNat⟩ :: granted)
      (fun address => address < 0x80000000)) : False := by
  have baseBound := base.isLt
  have sizeBound := size.isLt
  have beyond := partition.inside (List.mem_append_right _ List.mem_cons_self)
    (show Span.Covers ⟨base.toNat, size.toNat⟩ (max base.toNat 0x80000000) by
      unfold Span.Covers
      dsimp only
      omega)
  omega

/-- A request cut out of the entry that offers it, in natural numbers. -/
structure Cut (entry : VmemEntry) (requestedBase size : U64) : Prop where
  lower : entry.base.toNat ≤ requestedBase.toNat
  upper : requestedBase.toNat + size.toNat ≤ entry.base.toNat + entry.length.toNat
  bound : entry.base.toNat + entry.length.toNat < 2 ^ 64

theorem offered_cut {entry : VmemEntry} {requestedBase size : U64}
    (offered : entry.offers requestedBase size = true)
    (bound : entry.base.toNat + entry.length.toNat < 2 ^ 64)
    (noWrap : requestedBase.toNat + size.toNat < 2 ^ 64) : Cut entry requestedBase size := by
  simp only [VmemEntry.offers, Bool.and_eq_true, decide_eq_true_eq, BitVec.le_def,
    BitVec.toNat_add] at offered
  refine ⟨offered.1, ?_, bound⟩
  rw [Nat.mod_eq_of_lt noWrap, Nat.mod_eq_of_lt bound] at offered
  exact offered.2

variable {front back granted : List Span} {entry : VmemEntry} {requestedBase size : U64}

/-- The rests below and above a cut, in natural numbers. -/
theorem Cut.rests (cut : Cut entry requestedBase size) :
    (requestedBase - entry.base).toNat = requestedBase.toNat - entry.base.toNat ∧
      (requestedBase + size).toNat = requestedBase.toNat + size.toNat ∧
      (entry.base + entry.length - (requestedBase + size)).toNat =
        entry.base.toNat + entry.length.toNat - (requestedBase.toNat + size.toNat) := by
  obtain ⟨lower, upper, bound⟩ := cut
  refine ⟨?_, ?_, ?_⟩
  · bv_omega
  · bv_omega
  · bv_omega

/-- The request starts where the entry does. -/
theorem cut_at_start (cut : Cut entry requestedBase size) (start : requestedBase = entry.base)
    (partition : Partition ((front ++ entrySpan entry :: back) ++ granted) region) :
    Partition ((front ++ entrySpan ⟨entry.base + size, entry.length - size⟩ :: back) ++
      ⟨requestedBase.toNat, size.toNat⟩ :: granted) region := by
  obtain ⟨lower, upper, bound⟩ := cut
  have base : (entry.base + size).toNat = entry.base.toNat + size.toNat := by
    rw [start] at upper
    bv_omega
  have length : (entry.length - size).toNat = entry.length.toNat - size.toNat := by
    rw [start] at upper
    bv_omega
  rw [start, entrySpan, base, length]
  apply (partition_cut partition (show size.toNat ≤ entry.length.toNat by
    rw [start] at upper; omega)).perm
  rw [List.perm_iff_count]
  intro span
  simp only [List.count_append, List.count_cons]
  ring

/-- The request ends where the entry does. -/
theorem cut_at_end (cut : Cut entry requestedBase size)
    (nothing : entry.base + entry.length - (requestedBase + size) = 0)
    (partition : Partition ((front ++ entrySpan entry :: back) ++ granted) region) :
    Partition ((front ++ entrySpan ⟨entry.base, requestedBase - entry.base⟩ :: back) ++
      ⟨requestedBase.toNat, size.toNat⟩ :: granted) region := by
  obtain ⟨length, _, rest⟩ := cut.rests
  obtain ⟨lower, upper, bound⟩ := cut
  have none : (entry.base + entry.length - (requestedBase + size)).toNat = 0 := by
    rw [nothing]
    rfl
  have pieces := partition_cut partition
    (show requestedBase.toNat - entry.base.toNat ≤ entry.length.toNat by omega)
  rw [show entry.base.toNat + (requestedBase.toNat - entry.base.toNat) = requestedBase.toNat by
    omega, show entry.length.toNat - (requestedBase.toNat - entry.base.toNat) = size.toNat by
    omega] at pieces
  rw [entrySpan, length]
  apply pieces.perm
  rw [List.perm_iff_count]
  intro span
  simp only [List.count_append, List.count_cons]
  ring

/-- The request leaves something on both sides and the vector has room. -/
theorem cut_inside (cut : Cut entry requestedBase size)
    (partition : Partition ((front ++ entrySpan entry :: back) ++ granted) region) :
    Partition ((front ++ entrySpan ⟨entry.base, requestedBase - entry.base⟩ :: (back ++
      [entrySpan ⟨requestedBase + size,
        entry.base + entry.length - (requestedBase + size)⟩])) ++
      ⟨requestedBase.toNat, size.toNat⟩ :: granted) region := by
  obtain ⟨length, ends, rest⟩ := cut.rests
  obtain ⟨lower, upper, bound⟩ := cut
  have pieces := partition_cut partition
    (show requestedBase.toNat - entry.base.toNat ≤ entry.length.toNat by omega)
  rw [show entry.base.toNat + (requestedBase.toNat - entry.base.toNat) = requestedBase.toNat by
    omega] at pieces
  have second : Partition (([⟨entry.base.toNat, requestedBase.toNat - entry.base.toNat⟩] ++
      ⟨requestedBase.toNat, entry.length.toNat - (requestedBase.toNat - entry.base.toNat)⟩ ::
        (front ++ back ++ granted)) ++ []) region := by
    simpa using pieces
  have thirds := partition_cut second
    (show size.toNat ≤ entry.length.toNat - (requestedBase.toNat - entry.base.toNat) by omega)
  rw [show entry.length.toNat - (requestedBase.toNat - entry.base.toNat) - size.toNat =
    entry.base.toNat + entry.length.toNat - (requestedBase.toNat + size.toNat) by omega] at thirds
  simp only [entrySpan, length, ends, rest]
  apply thirds.perm
  rw [List.perm_iff_count]
  intro span
  simp only [List.count_append, List.count_cons, List.count_nil]
  ring

/-- The pushed entry overlaps the entry that was not shrunk. -/
theorem stale_reference_unsound (cut : Cut entry requestedBase size)
    (more : entry.base + entry.length - (requestedBase + size) ≠ 0)
    (partition : Partition ((front ++ entrySpan entry :: (back ++
      [entrySpan ⟨requestedBase + size,
        entry.base + entry.length - (requestedBase + size)⟩])) ++ granted) region) : False := by
  obtain ⟨_, ends, rest⟩ := cut.rests
  obtain ⟨lower, upper, bound⟩ := cut
  have positive : (entry.base + entry.length - (requestedBase + size)).toNat ≠ 0 := by
    intro zero
    exact more (BitVec.eq_of_toNat_eq zero)
  have entries := (List.pairwise_append.mp partition.apart).1
  have apart := (List.pairwise_cons.mp (List.pairwise_append.mp entries).2.1).1 _
    (List.mem_append_right _ (List.mem_singleton_self _))
  apply apart (requestedBase.toNat + size.toNat)
  · unfold Span.Covers entrySpan
    dsimp only
    omega
  · unfold Span.Covers entrySpan
    dsimp only
    omega

theorem sound_at_iff {reservations : Reservations} (sound : ReservationSound reservations)
    (requestedBase size : U64) :
    ReservationSound (reserve reservations (.fixed requestedBase size)) ↔
      CleanCall reservations (.fixed requestedBase size) := by
  cases found : firstMatch (VmemEntry.offers requestedBase size) reservations.vector.entries with
  | none =>
      simp only [reserve, recordGrant, allocate_at_refused found, CleanCall, found]
      exact iff_of_true sound trivial
  | some parts =>
      obtain ⟨before, entry, behind⟩ := parts
      obtain ⟨split, offered⟩ := first_match_some found
      have member := first_match_member found
      have bound := sound_entry_end sound member
      obtain ⟨after, result, shapes⟩ := allocate_at_found found
      unfold ReservationSound at sound ⊢
      rw [split, List.map_append, List.map_cons] at sound
      simp only [reserve, recordGrant, result, CleanCall, found, if_true]
      by_cases noWrap : requestedBase.toNat + size.toNat < 2 ^ 64
      · have cut := offered_cut offered bound noWrap
        rcases shapes with ⟨start, shape⟩ | ⟨start, nothing, shape⟩ |
          ⟨start, more, room, shape⟩ | ⟨start, more, full, shape⟩
        · rw [shape, List.map_append, List.map_cons]
          exact iff_of_true (cut_at_start cut start sound) ⟨noWrap, Or.inl start⟩
        · rw [shape, List.map_append, List.map_cons]
          exact iff_of_true (cut_at_end cut nothing sound) ⟨noWrap, Or.inr (Or.inl nothing)⟩
        · rw [shape, List.map_append, List.map_cons, List.map_append, List.map_singleton]
          exact iff_of_true (cut_inside cut sound) ⟨noWrap, Or.inr (Or.inr room)⟩
        · rw [shape, List.map_append, List.map_cons, List.map_append, List.map_singleton]
          refine iff_of_false (stale_reference_unsound cut more) ?_
          rintro ⟨_, atStart | none | room⟩
          · exact start atStart
          · exact more none
          · rw [full] at room
            exact absurd room (by simp)
      · refine iff_of_false ?_ (fun clean => noWrap clean.1)
        intro partition
        exact wrapping_grant_unsound (by omega) partition

theorem sound_any {reservations : Reservations} (sound : ReservationSound reservations)
    (size : U64) : ReservationSound (reserve reservations (.any size)) := by
  cases found : firstMatch (fun entry : VmemEntry => decide (size ≤ entry.length))
      reservations.vector.entries with
  | none =>
      simp only [reserve, recordGrant, allocateVirtualMemory, found]
      exact sound
  | some parts =>
      obtain ⟨before, entry, behind⟩ := parts
      obtain ⟨split, long⟩ := first_match_some found
      have member := first_match_member found
      have bound := sound_entry_end sound member
      have cut : Cut entry entry.base size := by
        refine ⟨Nat.le_refl _, ?_, bound⟩
        simp only [decide_eq_true_eq, BitVec.le_def] at long
        omega
      unfold ReservationSound at sound ⊢
      rw [split, List.map_append, List.map_cons] at sound
      simp only [reserve, recordGrant, allocateVirtualMemory, found]
      by_cases used : entry.length - size = 0
      · have whole : size = entry.length := by bv_omega
        rw [if_pos used, whole, List.map_append]
        apply Partition.perm sound
        rw [List.perm_iff_count]
        intro span
        simp only [if_true, List.count_append, List.count_cons, entrySpan]
        ring
      · rw [if_neg used, List.map_append, List.map_cons]
        exact cut_at_start cut rfl sound

theorem created_sound : ReservationSound created := by
  have entries : created.vector.entries.map entrySpan = [⟨0, 0x7ff00000⟩] := by decide
  have granted : created.granted = [⟨0x7ff00000, 0x100000⟩] := by decide
  have whole : Partition [⟨0, 0x80000000⟩] (fun address => address < 0x80000000) := by
    refine ⟨List.pairwise_singleton _ _, ?_⟩
    intro address
    simp [Span.Covers]
  unfold ReservationSound
  rw [entries, granted]
  exact whole.split (show 0x7ff00000 ≤ 0x80000000 by omega)

theorem sound_run_iff {reservations : Reservations} (sound : ReservationSound reservations)
    (calls : List VmemCall) :
    SoundThroughout reservations calls ↔ CleanCalls reservations calls := by
  induction calls generalizing reservations with
  | nil => exact iff_of_true sound trivial
  | cons call rest ih =>
      have step : ReservationSound (reserve reservations call) ↔ CleanCall reservations call := by
        cases call with
        | fixed requestedBase size => exact sound_at_iff sound requestedBase size
        | any size => exact iff_of_true (sound_any sound size) trivial
      have starts : ∀ next, SoundThroughout next rest → ReservationSound next := by
        intro next throughout
        cases rest with
        | nil => exact throughout
        | cons first later => exact throughout.1
      constructor
      · intro throughout
        have next := starts _ throughout.2
        exact ⟨step.mp next, (ih next).mp throughout.2⟩
      · intro clean
        exact ⟨sound, (ih (step.mpr clean.1)).mpr clean.2⟩

/-- From a process just created, entries and grants partition its two GiB in every
state of a run exactly when every call is clean. -/
theorem reservations_sound_iff_clean (calls : List VmemCall) :
    SoundThroughout created calls ↔ CleanCalls created calls :=
  sound_run_iff created_sound calls

/-- The same page granted twice: the vector holds one entry and has room for one. -/
theorem page_granted_twice :
    (reserve (reserve created (.fixed 0x1000 0x1000)) (.fixed 0x1000 0x1000)).granted =
        [⟨0x1000, 0x1000⟩, ⟨0x1000, 0x1000⟩, ⟨0x7ff00000, 0x100000⟩] ∧
      ¬Apart ⟨0x1000, 0x1000⟩ ⟨0x1000, 0x1000⟩ := by
  decide

end KittyOs.Reservation
