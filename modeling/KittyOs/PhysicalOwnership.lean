import KittyOs.PhysicalFreelist
import Mathlib.Data.List.Nodup

/-!
# Whole runs of the physical allocator and its clients

A client holds the pages it was handed. Between allocator calls it may store any
byte into them, so the node words of a page that comes back are whatever the
client left there. `deallocate_physical_page` writes neither the size nor, onto
an empty list, the link. A run keeps the usable memory partitioned as long as
every page comes back with those words as the allocator would have set them.
-/

namespace KittyOs.PhysicalOwnership

open KittyOs.Lib.ByteMemory KittyOs.Lib.SpanPartition KittyOs.MachineWord
open KittyOs.PhysicalModel KittyOs.PhysicalFreelist

set_option autoImplicit false

structure ClientRun where
  phys : PhysicalState
  held : List U64

inductive ClientAction where
  | allocate
  | deallocate (page : U64)
  | write (address : Nat) (value : Byte)

def pageSpan (page : U64) : Span := ⟨page.toNat, 4096⟩

/-- One call or one client store. `none` is an action the client may not take: it
returns a page it does not hold, or stores outside its pages. -/
def perform (run : ClientRun) : ClientAction → Option ClientRun
  | .allocate =>
      let (page, phys) := allocatePhysicalPage run.phys
      some { phys, held := if page = 0 then run.held else page :: run.held }
  | .deallocate page =>
      if page ∈ run.held then
        some { phys := deallocatePhysicalPage run.phys page, held := run.held.erase page }
      else none
  | .write address value =>
      if ∃ page ∈ run.held, (pageSpan page).Covers address then
        some { run with phys := { run.phys with mem := storeByte run.phys.mem address value } }
      else none

def performAll (run : ClientRun) : List ClientAction → Option ClientRun
  | [] => some run
  | action :: rest => (perform run action).bind fun next => performAll next rest

/-- The page's node words are those of a one-page block: the size word is the
page size and, when the list is empty, the link word is null. -/
def ReleasedClean (run : ClientRun) (page : U64) : Prop :=
  loadWord run.phys.mem (page.toNat + 8) = 4096 ∧
    (run.phys.head = 0 → loadWord run.phys.mem page.toNat = 0)

def MeetsRelease (run : ClientRun) : ClientAction → Prop
  | .deallocate page => page ∈ run.held → ReleasedClean run page
  | _ => True

def CleanRun (run : ClientRun) : List ClientAction → Prop
  | [] => True
  | action :: rest =>
      MeetsRelease run action ∧
        match perform run action with
        | some next => CleanRun next rest
        | none => True

/-- The list read from memory is finite and acyclic. Its blocks are non-empty
runs of whole pages, and blocks and held pages partition the region. -/
structure FreelistSound (run : ClientRun) (region : Nat → Prop) : Prop where
  blocks : ∃ blocks, FreeChain run.phys.hhdm run.phys.mem run.phys.head blocks ∧
    (blocks.map Span.base).Nodup ∧
    (∀ block ∈ blocks, block.base % 4096 = 0 ∧ block.length % 4096 = 0 ∧ 0 < block.length) ∧
    Partition (blocks ++ run.held.map pageSpan) region
  heldOnce : run.held.Nodup

def SoundThroughout (run : ClientRun) (region : Nat → Prop) : List ClientAction → Prop
  | [] => FreelistSound run region
  | action :: rest =>
      FreelistSound run region ∧
        match perform run action with
        | some next => SoundThroughout next region rest
        | none => True

def usableSpans (entries : List MemmapEntry) : List Span :=
  (entries.filter fun entry => entry.type = limineMemmapUsable).map
    fun entry => ⟨entry.base.toNat, entry.length.toNat⟩

def usableRegion (entries : List MemmapEntry) (address : Nat) : Prop :=
  ∃ span ∈ usableSpans entries, span.Covers address

/-- A memory map whose usable regions are page-aligned, non-empty, disjoint and
above page zero, and which the boot loader's direct map reaches in full. -/
structure UsableMap where
  hhdm : U64
  entries : List MemmapEntry
  fit : ∀ span ∈ usableSpans entries, FitBlock hhdm span
  apart : (usableSpans entries).Pairwise Apart

/-- The working invariant: the free list with its nodes inside fit blocks, and
held pages that are fit themselves. -/
structure Owned (run : ClientRun) (region : Nat → Prop) : Prop where
  free : ∃ blocks, FreeList run.phys blocks ∧
    Partition (blocks ++ run.held.map pageSpan) region
  heldFit : ∀ page ∈ run.held, FitBlock run.phys.hhdm (pageSpan page)

theorem owned_sound {run : ClientRun} {region : Nat → Prop} (owned : Owned run region) :
    FreelistSound run region := by
  obtain ⟨blocks, list, partition⟩ := owned.free
  have occupied : ∀ piece ∈ blocks ++ run.held.map pageSpan, 0 < piece.length := by
    intro piece member
    rcases List.mem_append.mp member with free | held
    · exact (list.fit piece free).occupied
    · obtain ⟨page, _, same⟩ := List.mem_map.mp held
      rw [← same]
      simp [pageSpan]
  constructor
  · refine ⟨blocks, list.chain, ?_, ?_, partition⟩
    · refine List.Pairwise.map _ ?_ (list.apart.imp_of_mem ?_)
        (R := fun left right : Span => left.base ≠ right.base)
      · exact fun left right different => different
      · intro left right leftMember rightMember apart same
        have leftLong := (list.fit left leftMember).occupied
        have rightLong := (list.fit right rightMember).occupied
        exact apart left.base ⟨Nat.le_refl _, by omega⟩ ⟨by omega, by omega⟩
    · intro block member
      have fit := list.fit block member
      exact ⟨fit.baseAligned, fit.lengthAligned, fit.occupied⟩
  · have nodup := partition.nodup occupied
    exact List.Nodup.of_map _ (List.nodup_append.mp nodup).2.1

/-- Taking the first page off the first block only cuts and reorders. -/
theorem partition_take {block : Span} {rest others : List Span} {region : Nat → Prop}
    (partition : Partition (block :: rest ++ others) region)
    (aligned : block.length % 4096 = 0) (occupied : 0 < block.length) :
    Partition (leftover block ++ rest ++ ⟨block.base, 4096⟩ :: others) region := by
  unfold leftover
  by_cases large : block.length > 4096
  · rw [if_pos large]
    have cut : Partition (⟨block.base, 4096⟩ ::
        ⟨block.base + 4096, block.length - 4096⟩ :: (rest ++ others)) region :=
      partition.split (by omega)
    have moved : (⟨block.base + 4096, block.length - 4096⟩ :: rest ++
        ⟨block.base, 4096⟩ :: others).Perm _ := List.perm_middle
    exact cut.perm moved.symm
  · rw [if_neg large]
    have whole : block = ⟨block.base, 4096⟩ := by
      cases block
      simp only [Span.mk.injEq, true_and]
      dsimp only at aligned occupied large
      omega
    rw [whole] at partition
    have moved : (rest ++ ⟨block.base, 4096⟩ :: others).Perm _ := List.perm_middle
    exact partition.perm moved.symm

theorem allocate_keeps_owned {run next : ClientRun} {region : Nat → Prop}
    (owned : Owned run region) (taken : perform run .allocate = some next) :
    Owned next region := by
  obtain ⟨blocks, list, partition⟩ := owned.free
  simp only [perform, Option.some.injEq] at taken
  cases blocks with
  | nil =>
      rw [allocate_empty list] at taken
      subst next
      exact ⟨⟨[], list, by simpa using partition⟩, by simpa using owned.heldFit⟩
  | cons block rest =>
      obtain ⟨page, freed, hhdm, _⟩ := allocate_spec list
      have fit := list.fit block (by simp)
      have above := fit.above
      have direct := fit.direct
      have occupied := fit.occupied
      have pageValue : (allocatePhysicalPage run.phys).1.toNat = block.base := by
        rw [page]
        exact of_nat_to_nat (by omega)
      have live : (allocatePhysicalPage run.phys).1 ≠ 0 := by
        intro null
        rw [null] at pageValue
        change 0 = block.base at pageValue
        omega
      have pageSpanned : pageSpan (allocatePhysicalPage run.phys).1 = ⟨block.base, 4096⟩ := by
        rw [pageSpan, pageValue]
      rw [if_neg live] at taken
      subst next
      refine ⟨⟨leftover block ++ rest, freed, ?_⟩, ?_⟩
      · rw [List.map_cons, pageSpanned]
        exact partition_take partition fit.lengthAligned occupied
      · intro held member
        dsimp only
        rw [hhdm]
        rcases List.mem_cons.mp member with same | earlier
        · rw [same, pageSpanned]
          exact fit.first_page
        · exact owned.heldFit held earlier

theorem deallocate_keeps_owned {run next : ClientRun} {page : U64} {region : Nat → Prop}
    (owned : Owned run region) (clean : MeetsRelease run (.deallocate page))
    (taken : perform run (.deallocate page) = some next) : Owned next region := by
  obtain ⟨blocks, list, partition⟩ := owned.free
  by_cases member : page ∈ run.held
  · have released := clean member
    simp only [perform, if_pos member, Option.some.injEq] at taken
    have reordered : (blocks ++ run.held.map pageSpan).Perm
        (pageSpan page :: blocks ++ (run.held.erase page).map pageSpan) := by
      have taken := (List.perm_cons_erase member).map pageSpan
      exact (taken.append_left blocks).trans List.perm_middle
    have returned := partition.perm reordered
    have apart : ∀ other ∈ blocks, Apart (pageSpan page) other := fun other inBlocks =>
      (List.pairwise_cons.mp returned.apart).1 other (List.mem_append_left _ inBlocks)
    obtain ⟨freed, hhdm, _⟩ :=
      deallocate_spec list (owned.heldFit page member) apart released.1 released.2
    subst next
    refine ⟨⟨pageSpan page :: blocks, freed, returned⟩, ?_⟩
    intro other remaining
    dsimp only
    rw [hhdm]
    exact owned.heldFit other (List.mem_of_mem_erase remaining)
  · simp only [perform, if_neg member] at taken
    exact absurd taken (by simp)

theorem write_keeps_owned {run next : ClientRun} {address : Nat} {value : Byte}
    {region : Nat → Prop} (owned : Owned run region)
    (taken : perform run (.write address value) = some next) : Owned next region := by
  obtain ⟨blocks, list, partition⟩ := owned.free
  by_cases inHeld : ∃ page ∈ run.held, (pageSpan page).Covers address
  · simp only [perform, if_pos inHeld, Option.some.injEq] at taken
    subst next
    have kept : ∀ block ∈ blocks, ∀ target, block.Covers target →
        storeByte run.phys.mem address value target = run.phys.mem target := by
      intro block member target inside
      obtain ⟨page, held, covers⟩ := inHeld
      have apart := (List.pairwise_append.mp partition.apart).2.2 block member (pageSpan page)
        (List.mem_map.mpr ⟨page, held, rfl⟩)
      have different : target ≠ address := by
        intro same
        rw [same] at inside
        exact apart address inside covers
      simp only [storeByte, if_neg different]
    exact ⟨⟨blocks, list.frame rfl rfl kept, partition⟩, owned.heldFit⟩
  · simp only [perform, if_neg inHeld] at taken
    exact absurd taken (by simp)

theorem register_usable {state : PhysicalState} {blocks : List Span} {entry : MemmapEntry}
    (list : FreeList state blocks) (usable : entry.type = limineMemmapUsable)
    (fit : FitBlock state.hhdm ⟨entry.base.toNat, entry.length.toNat⟩)
    (apart : ∀ other ∈ blocks, Apart ⟨entry.base.toNat, entry.length.toNat⟩ other) :
    FreeList (registerEntry state entry) (⟨entry.base.toNat, entry.length.toNat⟩ :: blocks) ∧
      (registerEntry state entry).hhdm = state.hhdm := by
  let prepared := (state.setNext (entry.base + state.hhdm) 0).setSize
    (entry.base + state.hhdm) entry.length
  have slot := phys_of_direct state entry.base
  have memory : prepared.mem = storeWord (storeWord state.mem entry.base.toNat 0)
      (entry.base.toNat + 8) entry.length := by
    unfold PhysicalState.physOf at slot
    simp only [prepared, PhysicalState.setSize, PhysicalState.setNext, PhysicalState.physOf, slot]
  have long := fit.page_length
  dsimp only at long
  have preparedList : FreeList prepared blocks := by
    refine list.frame rfl rfl ?_
    intro other member address inside
    have outside : ∀ start, entry.base.toNat ≤ start →
        start + 8 ≤ entry.base.toNat + entry.length.toNat → ¬Within start 8 address := by
      intro start lower upper within
      refine apart other member address ⟨?_, ?_⟩ inside
      · dsimp only
        exact Nat.le_trans lower within.1
      · dsimp only
        exact Nat.lt_of_lt_of_le within.2 upper
    rw [memory, store_word_outside _ _ _ _ (outside _ (by omega) (by omega)),
      store_word_outside _ _ _ _ (outside _ (by omega) (by omega))]
  have preparedSlot : prepared.physOf (entry.base + state.hhdm) = entry.base.toNat := slot
  have sizeWord : prepared.size (entry.base + state.hhdm) = entry.length := by
    rw [PhysicalState.size, preparedSlot, memory, load_store_same]
  have nextWord : prepared.next (entry.base + state.hhdm) = 0 := by
    rw [PhysicalState.next, preparedSlot, memory,
      load_store_apart _ _ _ _ (Or.inr (by omega)), load_store_same]
  obtain ⟨pushed, hhdm, _⟩ := push_spec preparedList fit apart preparedSlot.symm
    (by rw [sizeWord]) fun _ => nextWord
  have registered : registerEntry state entry =
      pushToFreelist prepared (entry.base + state.hhdm) := by
    simp only [registerEntry, if_pos usable, prepared]
  rw [registered]
  exact ⟨pushed, hhdm⟩

theorem register_all {entries : List MemmapEntry} {state : PhysicalState} {blocks : List Span}
    (list : FreeList state blocks)
    (fit : ∀ span ∈ usableSpans entries, FitBlock state.hhdm span)
    (apart : (usableSpans entries).Pairwise Apart)
    (separate : ∀ span ∈ usableSpans entries, ∀ other ∈ blocks, Apart span other) :
    FreeList (entries.foldl registerEntry state) ((usableSpans entries).reverse ++ blocks) := by
  induction entries generalizing state blocks with
  | nil => simpa [usableSpans] using list
  | cons entry rest ih =>
      by_cases usable : entry.type = limineMemmapUsable
      · have spans : usableSpans (entry :: rest) =
            ⟨entry.base.toNat, entry.length.toNat⟩ :: usableSpans rest := by
          simp [usableSpans, usable]
        rw [spans] at fit apart separate ⊢
        obtain ⟨headApart, restApart⟩ := List.pairwise_cons.mp apart
        obtain ⟨registered, hhdm⟩ := register_usable list usable (fit _ (by simp))
          (separate _ (by simp))
        have rest := ih registered
          (fun span member => by rw [hhdm]; exact fit span (by simp [member])) restApart
          (fun span member other inBlocks => by
            rcases List.mem_cons.mp inBlocks with same | earlier
            · rw [same]
              exact (headApart span member).symm
            · exact separate span (by simp [member]) other earlier)
        simpa using rest
      · have spans : usableSpans (entry :: rest) = usableSpans rest := by
          simp [usableSpans, usable]
        rw [spans] at fit apart separate ⊢
        have skipped : registerEntry state entry = state := by
          simp only [registerEntry, if_neg usable]
        rw [List.foldl_cons, skipped]
        exact ih list fit apart separate

/-- After boot the regions stand on the list in reverse map order. -/
theorem boot_list (map : UsableMap) (mem : Memory) {start : PhysicalState}
    (booted : initializePhysicalMemory map.hhdm (some map.entries) mem = some start) :
    FreeList start (usableSpans map.entries).reverse := by
  have folded : start = map.entries.foldl registerEntry ⟨map.hhdm, mem, 0⟩ := by
    cases listed : map.entries with
    | nil => simp [initializePhysicalMemory, listed] at booted
    | cons entry rest =>
        rw [listed] at booted
        exact (Option.some.inj booted).symm
  have empty : FreeList ⟨map.hhdm, mem, 0⟩ [] := ⟨rfl, by simp, List.Pairwise.nil⟩
  have list := register_all empty map.fit map.apart (by simp)
  rw [List.append_nil, ← folded] at list
  exact list

theorem boot_owned (map : UsableMap) (mem : Memory) {start : PhysicalState}
    (booted : initializePhysicalMemory map.hhdm (some map.entries) mem = some start) :
    Owned ⟨start, []⟩ (usableRegion map.entries) := by
  have list := boot_list map mem booted
  refine ⟨⟨_, list, ?_⟩, by simp⟩
  rw [List.map_nil, List.append_nil]
  refine ⟨list.apart, fun address => ?_⟩
  simp [usableRegion]

theorem deallocate_words (state : PhysicalState) (page : U64) :
    (deallocatePhysicalPage state page).head = page + state.hhdm ∧
      (deallocatePhysicalPage state page).hhdm = state.hhdm ∧
      loadWord (deallocatePhysicalPage state page).mem (page.toNat + 8) =
        loadWord state.mem (page.toNat + 8) ∧
      (state.head = 0 → (deallocatePhysicalPage state page).mem = state.mem) ∧
      (state.head ≠ 0 → (deallocatePhysicalPage state page).mem =
        storeWord state.mem page.toNat state.head) := by
  have slot := phys_of_direct state page
  unfold deallocatePhysicalPage pushToFreelist
  by_cases null : state.head = 0
  · simp [null]
  · rw [if_neg null]
    simp only [PhysicalState.setNext, slot]
    exact ⟨trivial, trivial, load_store_apart _ _ _ _ (Or.inl (by omega)),
      fun empty => absurd empty null, fun _ => trivial⟩

/-- The condition is exact at each release: any other node words leave a list that
does not partition the usable memory. -/
theorem release_sound_iff {run next : ClientRun} {page : U64} {region : Nat → Prop}
    (owned : Owned run region) (taken : perform run (.deallocate page) = some next) :
    FreelistSound next region ↔ MeetsRelease run (.deallocate page) := by
  refine ⟨fun sound member => ?_,
    fun clean => owned_sound (deallocate_keeps_owned owned clean taken)⟩
  obtain ⟨blocks, list, partition⟩ := owned.free
  simp only [perform, if_pos member, Option.some.injEq] at taken
  subst next
  have before := partition.perm ((((List.perm_cons_erase member).map pageSpan).append_left
    blocks).trans List.perm_middle)
  have fit := owned.heldFit page member
  obtain ⟨head, hhdm, sizeSame, emptySame, linkedSame⟩ := deallocate_words run.phys page
  obtain ⟨after, chain, _, whole, partitionAfter⟩ := sound.blocks
  dsimp only at chain partitionAfter
  rw [head, hhdm] at chain
  cases after with
  | nil => exact absurd chain (fit.pointer_live (by rw [BitVec.add_sub_cancel, pageSpan]))
  | cons first rest =>
      obtain ⟨_, base, length, tail⟩ := chain
      have firstBase : first.base = page.toNat := by rw [base, BitVec.add_sub_cancel]
      rw [firstBase, sizeSame] at length
      rw [firstBase] at tail
      have firstSpan : first = ⟨page.toNat, first.length⟩ := by rw [← firstBase]
      -- An empty list keeps the page's own link, any other list follows the page.
      have blocksKept : ∀ block ∈ blocks, block ∈ rest := by
        by_cases null : run.phys.head = 0
        · have chain := list.chain
          rw [null] at chain
          cases blocks with
          | nil => simp
          | cons block later => exact absurd rfl chain.1
        · rw [linkedSame null, load_store_same] at tail
          have kept : FreeChain run.phys.hhdm (storeWord run.phys.mem page.toNat run.phys.head)
              run.phys.head blocks := by
            apply free_chain_frame list.chain
            intro block inBlocks offset bound
            have long := (list.fit block inBlocks).page_length
            apply store_word_outside
            intro inside
            exact (List.pairwise_cons.mp before.apart).1 block
              (List.mem_append_left _ inBlocks) (block.base + offset)
              ⟨inside.1, by have := inside.2; dsimp only [pageSpan]; omega⟩
              ⟨by omega, by omega⟩
          rw [free_chain_unique kept tail]
          exact fun block inRest => inRest
      have notLonger : first.length ≤ 4096 := by
        rw [firstSpan] at partitionAfter
        refine before.first_length_le partitionAfter ?_
        intro piece inPieces
        rcases List.mem_append.mp inPieces with inBlocks | inOthers
        · exact List.mem_append_left _ (blocksKept piece inBlocks)
        · exact List.mem_append_right _ inOthers
      obtain ⟨_, aligned, occupied⟩ := whole first (by simp)
      have exact : first.length = 4096 := by omega
      refine ⟨by bv_omega, fun null => ?_⟩
      rw [emptySame null] at tail
      cases rest with
      | nil => exact tail
      | cons block later =>
          have none : blocks = [] := by
            have chain := list.chain
            rw [null] at chain
            cases blocks with
            | nil => rfl
            | cons block later => exact absurd rfl chain.1
          rw [firstSpan, exact] at partitionAfter
          rw [none] at before
          have moved : (block :: later ++ pageSpan page ::
              (run.held.erase page).map pageSpan).Perm _ := List.perm_middle
          have empty := before.added_empty (partitionAfter.perm moved.symm)
            (List.mem_cons_self ..)
          have long := (whole block (by simp)).2.2
          omega

theorem perform_sound_iff {run next : ClientRun} {action : ClientAction}
    {region : Nat → Prop} (owned : Owned run region) (taken : perform run action = some next) :
    FreelistSound next region ↔ MeetsRelease run action := by
  cases action with
  | allocate => simp [MeetsRelease, owned_sound (allocate_keeps_owned owned taken)]
  | deallocate page => exact release_sound_iff owned taken
  | write address value => simp [MeetsRelease, owned_sound (write_keeps_owned owned taken)]

theorem perform_keeps_owned {run next : ClientRun} {action : ClientAction}
    {region : Nat → Prop} (owned : Owned run region) (clean : MeetsRelease run action)
    (taken : perform run action = some next) : Owned next region := by
  cases action with
  | allocate => exact allocate_keeps_owned owned taken
  | deallocate page => exact deallocate_keeps_owned owned clean taken
  | write address value => exact write_keeps_owned owned taken

theorem sound_throughout_head {run : ClientRun} {region : Nat → Prop}
    {actions : List ClientAction} (sound : SoundThroughout run region actions) :
    FreelistSound run region := by
  cases actions with
  | nil => exact sound
  | cons action rest => exact sound.1

theorem owned_run_iff {run : ClientRun} {actions : List ClientAction} {region : Nat → Prop}
    (owned : Owned run region) :
    SoundThroughout run region actions ↔ CleanRun run actions := by
  induction actions generalizing run with
  | nil => simp [SoundThroughout, CleanRun, owned_sound owned]
  | cons action rest ih =>
      simp only [SoundThroughout, CleanRun, owned_sound owned, true_and]
      cases taken : perform run action with
      | none =>
          cases action with
          | deallocate page =>
              have notHeld : page ∉ run.held := by
                intro member
                simp [perform, member] at taken
              simp [MeetsRelease, notHeld]
          | allocate => simp [MeetsRelease]
          | write address value => simp [MeetsRelease]
      | some next =>
          constructor
          · intro sound
            have clean := (perform_sound_iff owned taken).mp (sound_throughout_head sound)
            exact ⟨clean, (ih (perform_keeps_owned owned clean taken)).mp sound⟩
          · intro clean
            exact (ih (perform_keeps_owned owned clean.1 taken)).mpr clean.2

/-- Along any run from boot the free list and the held pages partition the usable
memory in every state exactly when every page is released clean. -/
theorem freelist_sound_iff_released_clean (map : UsableMap) (mem : Memory)
    (start : PhysicalState)
    (booted : initializePhysicalMemory map.hhdm (some map.entries) mem = some start)
    (actions : List ClientAction) :
    SoundThroughout ⟨start, []⟩ (usableRegion map.entries) actions ↔
      CleanRun ⟨start, []⟩ actions :=
  owned_run_iff (boot_owned map mem booted)

theorem perform_allocate {run : ClientRun} {page : U64} {phys : PhysicalState}
    (allocated : allocatePhysicalPage run.phys = (page, phys)) :
    perform run .allocate =
      some { phys, held := if page = 0 then run.held else page :: run.held } := by
  simp only [perform, allocated]

theorem perform_deallocate {run : ClientRun} {page : U64} (member : page ∈ run.held) :
    perform run (.deallocate page) =
      some { phys := deallocatePhysicalPage run.phys page, held := run.held.erase page } := by
  simp only [perform, if_pos member]

theorem clean_run_cons {run next : ClientRun} {action : ClientAction}
    {rest : List ClientAction} (taken : perform run action = some next) :
    CleanRun run (action :: rest) ↔ MeetsRelease run action ∧ CleanRun next rest := by
  simp only [CleanRun, taken]

theorem perform_all_cons {run next : ClientRun} {action : ClientAction}
    {rest : List ClientAction} (taken : perform run action = some next) :
    performAll run (action :: rest) = performAll next rest := by
  simp only [performAll, taken, Option.bind_some]

def twoPageMap : UsableMap where
  hhdm := 0xffff800000000000
  entries := [⟨0x1000, 0x2000, limineMemmapUsable⟩]
  fit := by
    intro span member
    have same : span = ⟨0x1000, 0x2000⟩ := by simpa [usableSpans] using member
    rw [same]
    constructor <;> decide
  apart := by simp [usableSpans]

theorem two_page_release_sound :
    ∃ start, initializePhysicalMemory twoPageMap.hhdm (some twoPageMap.entries) (fun _ => 0) =
        some start ∧
      SoundThroughout ⟨start, []⟩ (usableRegion twoPageMap.entries)
        [.allocate, .deallocate 0x1000] := by
  have booted : initializePhysicalMemory twoPageMap.hhdm (some twoPageMap.entries)
      (fun _ => 0) = some ⟨0xffff800000000000,
        storeWord (storeWord (fun _ => 0) 0x1000 0) 0x1008 0x2000, 0xffff800000001000⟩ := by
    simp [initializePhysicalMemory, twoPageMap, registerEntry, pushToFreelist,
      PhysicalState.setNext, PhysicalState.setSize, PhysicalState.physOf]
  have allocated : allocatePhysicalPage ⟨0xffff800000000000,
      storeWord (storeWord (fun _ => 0) 0x1000 0) 0x1008 0x2000, 0xffff800000001000⟩ =
      (0x1000, ⟨0xffff800000000000, storeWord (storeWord (storeWord (storeWord (storeWord
        (storeWord (fun _ => 0) 0x1000 0) 0x1008 0x2000) 0x2008 0x1000) 0x2000 0) 0x1000 0)
          0x1008 0x1000, 0xffff800000002000⟩) := by
    simp [allocatePhysicalPage, popFromFreelist, pushToFreelist, PhysicalState.setNext,
      PhysicalState.setSize, PhysicalState.physOf, PhysicalState.next, PhysicalState.size,
      load_store_same, load_store_apart]
  refine ⟨_, booted, (freelist_sound_iff_released_clean twoPageMap _ _ booted _).mpr ?_⟩
  rw [clean_run_cons (perform_allocate allocated), clean_run_cons (perform_deallocate (by simp))]
  simp [MeetsRelease, ReleasedClean, CleanRun, load_store_same]

/-- Two separate one-page regions. -/
def twoRegionMap : UsableMap where
  hhdm := 0xffff800000000000
  entries := [⟨0x1000, 0x1000, limineMemmapUsable⟩, ⟨0x3000, 0x1000, limineMemmapUsable⟩]
  fit := by
    intro span member
    have same : span = ⟨0x1000, 0x1000⟩ ∨ span = ⟨0x3000, 0x1000⟩ := by
      simpa [usableSpans] using member
    rcases same with same | same <;> rw [same] <;> constructor <;> decide
  apart := by simp [usableSpans, apart_iff]

def twoRegionMemory : Memory :=
  storeWord (storeWord (storeWord (storeWord (storeWord (fun _ => 0) 0x1000 0) 0x1008 0x1000)
    0x3000 0) 0x3008 0x1000) 0x3000 0xffff800000001000

/-- No client stores a byte here. The second page went out with the first one's
address in its link word; returned to an empty list, it brings that page back
although it is still held. -/
theorem release_relinks_held_page :
    ∃ start final,
      initializePhysicalMemory twoRegionMap.hhdm (some twoRegionMap.entries) (fun _ => 0) =
        some start ∧
      performAll ⟨start, []⟩ [.allocate, .allocate, .deallocate 0x3000] = some final ∧
      ¬FreelistSound final (usableRegion twoRegionMap.entries) := by
  refine ⟨⟨0xffff800000000000, twoRegionMemory, 0xffff800000003000⟩,
    ⟨⟨0xffff800000000000, twoRegionMemory, 0xffff800000003000⟩, [0x1000]⟩, ?_, ?_, ?_⟩
  · simp [initializePhysicalMemory, twoRegionMap, twoRegionMemory, registerEntry, pushToFreelist,
      PhysicalState.setNext, PhysicalState.setSize, PhysicalState.physOf]
  · have first : allocatePhysicalPage ⟨0xffff800000000000, twoRegionMemory,
        0xffff800000003000⟩ = (0x3000, ⟨0xffff800000000000, twoRegionMemory,
          0xffff800000001000⟩) := by
      simp [twoRegionMemory, allocatePhysicalPage, popFromFreelist, PhysicalState.physOf,
        PhysicalState.next, PhysicalState.size, load_store_same, load_store_apart]
    have second : allocatePhysicalPage ⟨0xffff800000000000, twoRegionMemory,
        0xffff800000001000⟩ = (0x1000, ⟨0xffff800000000000, twoRegionMemory, 0⟩) := by
      simp [twoRegionMemory, allocatePhysicalPage, popFromFreelist, PhysicalState.physOf,
        PhysicalState.next, PhysicalState.size, load_store_same, load_store_apart]
    rw [perform_all_cons (perform_allocate first), perform_all_cons (perform_allocate second),
      perform_all_cons (perform_deallocate (by simp))]
    simp [performAll, deallocatePhysicalPage, pushToFreelist]
  · intro sound
    obtain ⟨blocks, chain, _, _, partition⟩ := sound.blocks
    have relinked : FreeChain 0xffff800000000000 twoRegionMemory 0xffff800000003000
        [⟨0x3000, 0x1000⟩, ⟨0x1000, 0x1000⟩] := by
      simp [FreeChain, twoRegionMemory, load_store_same, load_store_apart]
    rw [free_chain_unique chain relinked] at partition
    have apart := partition.apart
    simp [pageSpan, apart_iff] at apart

end KittyOs.PhysicalOwnership
