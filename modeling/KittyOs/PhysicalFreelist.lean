import KittyOs.PhysicalModel

/-!
# The free list as it lies in memory

`FreeChain` reads the list the way the code does: pointer by pointer, node by
node, to the null pointer. It is a function of the words at the start of each
block, so any change elsewhere leaves it alone. `FreeList` adds what makes the
nodes lie inside their own blocks. Each allocator call has one specification,
stated on the list of blocks and on the bytes it may change.
-/

namespace KittyOs.PhysicalFreelist

open KittyOs.Lib.ByteMemory KittyOs.Lib.SpanPartition KittyOs.MachineWord
open KittyOs.PhysicalModel

set_option autoImplicit false

def FreeChain (hhdm : U64) (mem : Memory) : U64 → List Span → Prop
  | pointer, [] => pointer = 0
  | pointer, block :: rest =>
      pointer ≠ 0 ∧ block.base = (pointer - hhdm).toNat ∧
        block.length = (loadWord mem (block.base + 8)).toNat ∧
        FreeChain hhdm mem (loadWord mem block.base) rest

theorem free_chain_frame {hhdm : U64} {mem other : Memory} {pointer : U64} {blocks : List Span}
    (chain : FreeChain hhdm mem pointer blocks)
    (same : ∀ block ∈ blocks, ∀ offset, offset < 16 →
      other (block.base + offset) = mem (block.base + offset)) :
    FreeChain hhdm other pointer blocks := by
  induction blocks generalizing pointer with
  | nil => exact chain
  | cons block rest ih =>
      obtain ⟨live, base, length, tail⟩ := chain
      have nextSame : loadWord other block.base = loadWord mem block.base :=
        load_word_congr fun offset bound => same block (by simp) offset (by omega)
      have sizeSame : loadWord other (block.base + 8) = loadWord mem (block.base + 8) := by
        apply load_word_congr
        intro offset bound
        have shifted := same block (by simp) (8 + offset) (by omega)
        rwa [← Nat.add_assoc] at shifted
      refine ⟨live, base, by rw [sizeSame]; exact length, ?_⟩
      rw [nextSame]
      exact ih tail fun later member => same later (by simp [member])

/-- The chain read from a pointer is unique: the list in memory is a value. -/
theorem free_chain_unique {hhdm : U64} {mem : Memory} {pointer : U64} {left right : List Span}
    (leftChain : FreeChain hhdm mem pointer left) (rightChain : FreeChain hhdm mem pointer right) :
    left = right := by
  induction left generalizing pointer right with
  | nil =>
      cases right with
      | nil => rfl
      | cons block rest => exact absurd leftChain rightChain.1
  | cons block rest ih =>
      cases right with
      | nil => exact absurd rightChain leftChain.1
      | cons other tail =>
          obtain ⟨_, base, length, chain⟩ := leftChain
          obtain ⟨_, otherBase, otherLength, otherChain⟩ := rightChain
          have sameBase : block.base = other.base := base.trans otherBase.symm
          have sameLength : block.length = other.length := by
            rw [length, otherLength, sameBase]
          rw [sameBase] at chain
          have sameBlock : block = other := by
            cases block
            cases other
            simp_all
          rw [sameBlock, ih chain otherChain]

theorem phys_of_direct (state : PhysicalState) (page : U64) :
    state.physOf (page + state.hhdm) = page.toNat := by
  rw [PhysicalState.physOf, BitVec.add_sub_cancel]

/-- A page-aligned block above page zero that the direct map reaches without
wrapping. -/
structure FitBlock (hhdm : U64) (block : Span) : Prop where
  baseAligned : block.base % 4096 = 0
  lengthAligned : block.length % 4096 = 0
  occupied : 0 < block.length
  above : 4096 ≤ block.base
  direct : hhdm.toNat + block.base + block.length ≤ 2 ^ 64

theorem FitBlock.page_length {hhdm : U64} {block : Span} (fit : FitBlock hhdm block) :
    4096 ≤ block.length := by
  have aligned := fit.lengthAligned
  have occupied := fit.occupied
  omega

theorem FitBlock.pointer_live {hhdm : U64} {block : Span} (fit : FitBlock hhdm block)
    {pointer : U64} (base : block.base = (pointer - hhdm).toNat) : pointer ≠ 0 := by
  intro null
  have above := fit.above
  have direct := fit.direct
  have occupied := fit.occupied
  rw [null] at base
  bv_omega

theorem FitBlock.first_page {hhdm : U64} {block : Span} (fit : FitBlock hhdm block) :
    FitBlock hhdm ⟨block.base, 4096⟩ := by
  have long := fit.page_length
  have baseAligned := fit.baseAligned
  have above := fit.above
  have direct := fit.direct
  constructor <;> dsimp only <;> omega

theorem FitBlock.cut {hhdm : U64} {block : Span} (fit : FitBlock hhdm block)
    (large : 4096 < block.length) :
    FitBlock hhdm ⟨block.base + 4096, block.length - 4096⟩ := by
  have baseAligned := fit.baseAligned
  have lengthAligned := fit.lengthAligned
  have direct := fit.direct
  constructor <;> dsimp only <;> omega

/-- A free list of separate blocks whose nodes lie inside them. -/
structure FreeList (state : PhysicalState) (blocks : List Span) : Prop where
  chain : FreeChain state.hhdm state.mem state.head blocks
  fit : ∀ block ∈ blocks, FitBlock state.hhdm block
  apart : blocks.Pairwise Apart

/-- Memory may change anywhere outside the blocks. -/
theorem FreeList.frame {state other : PhysicalState} {blocks : List Span}
    (list : FreeList state blocks) (hhdm : other.hhdm = state.hhdm)
    (head : other.head = state.head)
    (same : ∀ block ∈ blocks, ∀ address, block.Covers address →
      other.mem address = state.mem address) :
    FreeList other blocks where
  chain := by
    rw [hhdm, head]
    apply free_chain_frame list.chain
    intro block member offset bound
    have long := (list.fit block member).page_length
    exact same block member _ ⟨by omega, by omega⟩
  fit := by
    rw [hhdm]
    exact list.fit
  apart := list.apart

/-- Pushing a node whose size word is set adds its block in front. The one case
in which `push_to_freelist` writes no link is the empty list, where the node's
old link word stays: it has to be null already. -/
theorem push_spec {state : PhysicalState} {blocks : List Span} {block : Span} {entry : U64}
    (list : FreeList state blocks) (fit : FitBlock state.hhdm block)
    (apart : ∀ other ∈ blocks, Apart block other)
    (base : block.base = state.physOf entry)
    (length : block.length = (state.size entry).toNat)
    (linked : state.head = 0 → state.next entry = 0) :
    FreeList (pushToFreelist state entry) (block :: blocks) ∧
      (pushToFreelist state entry).hhdm = state.hhdm ∧
      ∀ address, ¬block.Covers address →
        (pushToFreelist state entry).mem address = state.mem address := by
  have long := fit.page_length
  have live := fit.pointer_live base
  unfold pushToFreelist
  by_cases null : state.head = 0
  · rw [if_pos null]
    refine ⟨⟨?_, List.forall_mem_cons.mpr ⟨fit, list.fit⟩,
      List.pairwise_cons.mpr ⟨apart, list.apart⟩⟩, rfl, fun address outside => rfl⟩
    refine ⟨live, base, ?_, ?_⟩
    · rw [length, base]
      rfl
    · have empty : loadWord state.mem block.base = 0 := by
        rw [base]
        exact linked null
      have chain := list.chain
      rw [null] at chain
      rw [empty]
      exact chain
  · rw [if_neg null]
    have outsideNode : ∀ address, ¬block.Covers address →
        storeWord state.mem (state.physOf entry) state.head address = state.mem address := by
      intro address outside
      apply store_word_outside
      intro inside
      exact outside ⟨by rw [base]; exact inside.1, by rw [base]; have := inside.2; omega⟩
    refine ⟨⟨?_, List.forall_mem_cons.mpr ⟨fit, list.fit⟩,
      List.pairwise_cons.mpr ⟨apart, list.apart⟩⟩, rfl, outsideNode⟩
    refine ⟨live, base, ?_, ?_⟩
    · rw [length, base]
      dsimp only [PhysicalState.setNext]
      rw [load_store_apart _ _ _ _ (Or.inl (by omega))]
      rfl
    · dsimp only [PhysicalState.setNext]
      rw [base, load_store_same]
      have kept : FreeList (state.setNext entry state.head) blocks := by
        refine list.frame rfl rfl ?_
        intro other member address inside
        exact outsideNode address fun inBlock => apart other member address inBlock inside
      exact kept.chain

/-- What `allocate_physical_page` puts back of the block it took a page from. -/
def leftover (block : Span) : List Span :=
  if block.length > 4096 then [⟨block.base + 4096, block.length - 4096⟩] else []

theorem allocate_empty {state : PhysicalState} (list : FreeList state []) :
    allocatePhysicalPage state = (0, state) := by
  have null : state.head = 0 := list.chain
  simp only [allocatePhysicalPage, popFromFreelist, if_pos null, if_true]

/-- The state in which `allocate_physical_page` pushes the cut-off rest: both
nodes rewritten, the popped list untouched. -/
def cutNode (state : PhysicalState) (entry : U64) : PhysicalState :=
  let sized := state.setSize (entry + 4096) (state.size entry - 4096)
  let linked := sized.setNext (entry + 4096) (sized.next entry)
  (linked.setNext entry 0).setSize entry 4096

theorem phys_of_congr {left right : PhysicalState} (same : left.hhdm = right.hhdm)
    (pointer : U64) : left.physOf pointer = right.physOf pointer := by
  unfold PhysicalState.physOf
  rw [same]

theorem cut_node_head (state : PhysicalState) (entry : U64) :
    (cutNode state entry).head = state.head := by
  simp only [cutNode, PhysicalState.setSize, PhysicalState.setNext]

theorem cut_node_hhdm (state : PhysicalState) (entry : U64) :
    (cutNode state entry).hhdm = state.hhdm := by
  simp only [cutNode, PhysicalState.setSize, PhysicalState.setNext]

theorem cut_node_spec {state : PhysicalState} {entry : U64} {block : Span}
    (fit : FitBlock state.hhdm block) (base : block.base = state.physOf entry)
    (length : block.length = (state.size entry).toNat) (large : 4096 < block.length) :
    state.physOf (entry + 4096) = block.base + 4096 ∧
      ((cutNode state entry).size (entry + 4096)).toNat = block.length - 4096 ∧
      (cutNode state entry).next (entry + 4096) = state.next entry ∧
      (cutNode state entry).head = state.head ∧ (cutNode state entry).hhdm = state.hhdm ∧
      ∀ address, ¬block.Covers address →
        (cutNode state entry).mem address = state.mem address := by
  have direct := fit.direct
  have above := fit.above
  have slot : state.physOf (entry + 4096) = block.base + 4096 := by
    unfold PhysicalState.physOf at base ⊢
    bv_omega
  have memory : (cutNode state entry).mem =
      storeWord (storeWord (storeWord (storeWord state.mem (block.base + 4096 + 8)
        (state.size entry - 4096)) (block.base + 4096) (state.next entry)) block.base 0)
          (block.base + 8) 4096 := by
    have oldNext : loadWord (storeWord state.mem (block.base + 4096 + 8)
        (state.size entry - 4096)) (state.physOf entry) = state.next entry := by
      unfold PhysicalState.next
      rw [load_store_apart _ _ _ _ (Or.inr (by omega))]
    simp only [PhysicalState.physOf] at slot base oldNext
    simp only [cutNode, PhysicalState.setSize, PhysicalState.setNext, PhysicalState.next,
      PhysicalState.physOf] at oldNext ⊢
    rw [slot, oldNext, ← base]
  refine ⟨slot, ?_, ?_, cut_node_head state entry, cut_node_hhdm state entry, ?_⟩
  · have stored : (cutNode state entry).size (entry + 4096) = state.size entry - 4096 := by
      rw [PhysicalState.size, phys_of_congr (cut_node_hhdm state entry), memory, slot,
        load_store_apart _ _ _ _ (Or.inl (by omega)),
        load_store_apart _ _ _ _ (Or.inl (by omega)),
        load_store_apart _ _ _ _ (Or.inl (by omega)), load_store_same]
    rw [stored, length]
    bv_omega
  · rw [PhysicalState.next, phys_of_congr (cut_node_hhdm state entry), memory, slot,
      load_store_apart _ _ _ _ (Or.inl (by omega)),
      load_store_apart _ _ _ _ (Or.inl (by omega)), load_store_same]
  · intro address outside
    rw [memory]
    unfold Span.Covers at outside
    have apart : ∀ start, block.base ≤ start → start + 8 ≤ block.base + block.length →
        ¬Within start 8 address := by
      intro start lower upper inside
      unfold Within at inside
      omega
    have aligned := fit.lengthAligned
    rw [store_word_outside _ _ _ _ (apart _ (by omega) (by omega)),
      store_word_outside _ _ _ _ (apart _ (by omega) (by omega)),
      store_word_outside _ _ _ _ (apart _ (by omega) (by omega)),
      store_word_outside _ _ _ _ (apart _ (by omega) (by omega))]

theorem push_hhdm (state : PhysicalState) (entry : U64) :
    (pushToFreelist state entry).hhdm = state.hhdm := by
  unfold pushToFreelist PhysicalState.setNext
  split_ifs <;> simp only

theorem pop_live {state : PhysicalState} (live : state.head ≠ 0) :
    ∃ popped, popFromFreelist state = (state.head, popped) ∧ popped.hhdm = state.hhdm ∧
      popped.mem = state.mem ∧ popped.head = state.next state.head := by
  refine ⟨{ state with head := state.next state.head }, ?_, rfl, rfl, rfl⟩
  simp only [popFromFreelist, if_neg live]

theorem allocate_live {state popped : PhysicalState} (live : state.head ≠ 0)
    (pop : popFromFreelist state = (state.head, popped)) :
    allocatePhysicalPage state =
      if popped.size state.head > 4096 then
        (state.head - popped.hhdm,
          pushToFreelist (cutNode popped state.head) (state.head + 4096))
      else (state.head - popped.hhdm, popped) := by
  simp only [allocatePhysicalPage, pop, if_neg live]
  split_ifs with large
  · simp only [push_hhdm, cutNode, PhysicalState.setSize, PhysicalState.setNext]
  · simp only

/-- A successful allocation takes the first page of the first block. It writes
only inside that block and leaves a free list of the rest. -/
theorem allocate_spec {state : PhysicalState} {block : Span} {rest : List Span}
    (list : FreeList state (block :: rest)) :
    (allocatePhysicalPage state).1 = BitVec.ofNat 64 block.base ∧
      FreeList (allocatePhysicalPage state).2 (leftover block ++ rest) ∧
      (allocatePhysicalPage state).2.hhdm = state.hhdm ∧
      ∀ address, ¬block.Covers address →
        (allocatePhysicalPage state).2.mem address = state.mem address := by
  obtain ⟨live, base, length, tail⟩ := list.chain
  obtain ⟨headApart, restApart⟩ := List.pairwise_cons.mp list.apart
  have fit := list.fit block (by simp)
  obtain ⟨popped, pop, hhdm, mem, head⟩ := pop_live live
  have headNext : popped.head = popped.next state.head := by
    rw [head, PhysicalState.next, PhysicalState.next, mem, phys_of_congr hhdm]
  have poppedList : FreeList popped rest := by
    refine ⟨?_, ?_, restApart⟩
    · rw [hhdm, mem, head, PhysicalState.next, PhysicalState.physOf, ← base]
      exact tail
    · intro other member
      rw [hhdm]
      exact list.fit other (by simp [member])
  have poppedBase : block.base = popped.physOf state.head := by
    rw [base, PhysicalState.physOf, hhdm]
  have sizeWord : block.length = (popped.size state.head).toNat := by
    rw [PhysicalState.size, ← poppedBase, mem]
    exact length
  have page : state.head - popped.hhdm = BitVec.ofNat 64 block.base := by
    rw [base, hhdm, BitVec.ofNat_toNat, BitVec.setWidth_eq]
  rw [allocate_live live pop, ← hhdm, ← mem]
  rw [← hhdm] at fit
  by_cases large : 4096 < block.length
  · have branch : popped.size state.head > 4096 := by bv_omega
    obtain ⟨slot, cutSize, cutNext, cutHead, cutHhdm, cutFrame⟩ :=
      cut_node_spec fit poppedBase sizeWord large
    have inner : ∀ address, Span.Covers ⟨block.base + 4096, block.length - 4096⟩ address →
        block.Covers address := by
      intro address inside
      exact ⟨by have := inside.1; dsimp only at this; omega,
        by have := inside.2; dsimp only at this; omega⟩
    have cutList : FreeList (cutNode popped state.head) rest :=
      poppedList.frame cutHhdm cutHead fun other member address inside =>
        cutFrame address fun inBlock => headApart other member address inBlock inside
    obtain ⟨pushed, pushedHhdm, pushedFrame⟩ := push_spec cutList
      (by rw [cutHhdm]; exact fit.cut large)
      (fun other member => (headApart other member).mono inner)
      (by rw [phys_of_congr cutHhdm, slot])
      cutSize.symm (fun null => by rw [cutNext, ← headNext, ← cutHead, null])
    rw [if_pos branch]
    refine ⟨page, ?_, pushedHhdm.trans cutHhdm, ?_⟩
    · rw [leftover, if_pos large]
      exact pushed
    · intro address outside
      rw [pushedFrame address fun inside => outside (inner address inside)]
      exact cutFrame address outside
  · have branch : ¬popped.size state.head > 4096 := by bv_omega
    rw [if_neg branch]
    refine ⟨page, ?_, rfl, fun address outside => rfl⟩
    rw [leftover, if_neg large]
    exact poppedList

theorem deallocate_spec {state : PhysicalState} {blocks : List Span} {page : U64}
    (list : FreeList state blocks) (fit : FitBlock state.hhdm ⟨page.toNat, 4096⟩)
    (apart : ∀ other ∈ blocks, Apart ⟨page.toNat, 4096⟩ other)
    (sized : loadWord state.mem (page.toNat + 8) = 4096)
    (linked : state.head = 0 → loadWord state.mem page.toNat = 0) :
    FreeList (deallocatePhysicalPage state page) (⟨page.toNat, 4096⟩ :: blocks) ∧
      (deallocatePhysicalPage state page).hhdm = state.hhdm ∧
      ∀ address, ¬Within page.toNat 4096 address →
        (deallocatePhysicalPage state page).mem address = state.mem address := by
  have slot := phys_of_direct state page
  refine push_spec list fit apart slot.symm ?_ ?_
  · unfold PhysicalState.size
    rw [slot, sized]
    rfl
  · unfold PhysicalState.next
    rw [slot]
    exact linked

/-! ### One allocation, as its clients see it -/

/-- The bytes the free blocks cover. -/
def FreeAt (blocks : List Span) (address : Nat) : Prop :=
  ∃ block ∈ blocks, block.Covers address

def freeBytes (blocks : List Span) : Nat := (blocks.map Span.length).sum

/-- `page` leaves the free list and nothing but free memory changes. -/
structure TakesPage (state : PhysicalState) (blocks : List Span) (page : Nat)
    (other : PhysicalState) (remaining : List Span) : Prop where
  result : allocatePhysicalPage state = (BitVec.ofNat 64 page, other)
  list : FreeList other remaining
  hhdm : other.hhdm = state.hhdm
  aligned : page % 4096 = 0
  above : 4096 ≤ page
  bound : page + 4096 ≤ 2 ^ 64
  inside : ∀ address, Within page 4096 address → FreeAt blocks address
  left : ∀ address, FreeAt remaining address ↔ FreeAt blocks address ∧ ¬Within page 4096 address
  bytes : freeBytes blocks = freeBytes remaining + 4096
  frame : ∀ address, ¬FreeAt blocks address → other.mem address = state.mem address

theorem leftover_covers {hhdm : U64} {block : Span} (fit : FitBlock hhdm block) (address : Nat) :
    FreeAt (leftover block) address ↔ block.Covers address ∧ ¬Within block.base 4096 address := by
  have long := fit.page_length
  unfold leftover FreeAt Span.Covers Within
  split_ifs with large
  · simp only [List.mem_singleton, exists_eq_left]
    omega
  · simp only [List.not_mem_nil, false_and, exists_false, false_iff]
    omega

theorem free_bytes_cons (block : Span) (rest : List Span) :
    freeBytes (block :: rest) = block.length + freeBytes rest := by
  simp only [freeBytes, List.map_cons, List.sum_cons]

theorem free_bytes_append (blocks rest : List Span) :
    freeBytes (blocks ++ rest) = freeBytes blocks + freeBytes rest := by
  simp only [freeBytes, List.map_append, List.sum_append]

/-- A list that covers less has fewer bytes. -/
theorem free_bytes_mono {state other : PhysicalState} {blocks remaining : List Span}
    (list : FreeList state blocks) (left : FreeList other remaining)
    (taken : ∀ address, FreeAt remaining address → FreeAt blocks address) :
    freeBytes remaining ≤ freeBytes blocks := by
  obtain ⟨covered, members, count⟩ := covered_card list.apart
  obtain ⟨kept, keptMembers, keptCount⟩ := covered_card left.apart
  rw [freeBytes, freeBytes, ← count, ← keptCount]
  apply Finset.card_le_card
  intro address member
  exact (members address).mpr (taken address ((keptMembers address).mp member))

theorem leftover_large {block : Span} (large : 4096 < block.length) :
    ∃ cut : Span, leftover block = [cut] ∧ cut.length = block.length - 4096 := by
  refine ⟨⟨block.base + 4096, block.length - 4096⟩, ?_, ?_⟩
  · rw [leftover, if_pos large]
  · dsimp only

theorem leftover_bytes {hhdm : U64} {block : Span} (fit : FitBlock hhdm block) :
    block.length = freeBytes (leftover block) + 4096 := by
  have long := fit.page_length
  have none : freeBytes [] = 0 := rfl
  by_cases large : 4096 < block.length
  · obtain ⟨cut, shape, length⟩ := leftover_large large
    rw [shape, free_bytes_cons, none, length]
    omega
  · rw [leftover, if_neg large, none]
    omega

theorem allocate_takes {state : PhysicalState} {block : Span} {rest : List Span}
    (list : FreeList state (block :: rest)) :
    TakesPage state (block :: rest) block.base (allocatePhysicalPage state).2
      (leftover block ++ rest) := by
  obtain ⟨page, remaining, hhdm, frame⟩ := allocate_spec list
  have fit := list.fit block (by simp)
  have long := fit.page_length
  have direct := fit.direct
  have headApart := (List.pairwise_cons.mp list.apart).1
  have inBlock : ∀ address, Within block.base 4096 address → block.Covers address := by
    intro address inside
    unfold Within at inside
    unfold Span.Covers
    omega
  refine ⟨Prod.ext page rfl, remaining, hhdm, fit.baseAligned, fit.above, by omega, ?_, ?_, ?_, ?_⟩
  · intro address inside
    exact ⟨block, by simp, inBlock address inside⟩
  · intro address
    have first := leftover_covers fit address
    constructor
    · rintro ⟨other, member, covers⟩
      rcases List.mem_append.mp member with cut | later
      · have both := first.mp ⟨other, cut, covers⟩
        exact ⟨⟨block, by simp, both.1⟩, both.2⟩
      · refine ⟨⟨other, by simp [later], covers⟩, ?_⟩
        intro inside
        exact headApart other later address (inBlock address inside) covers
    · rintro ⟨⟨other, member, covers⟩, outside⟩
      rcases List.mem_cons.mp member with same | later
      · rw [same] at covers
        obtain ⟨cut, cutMember, cutCovers⟩ := first.mpr ⟨covers, outside⟩
        exact ⟨cut, List.mem_append_left _ cutMember, cutCovers⟩
      · exact ⟨other, List.mem_append_right _ later, covers⟩
  · have cut := leftover_bytes fit
    rw [free_bytes_cons, free_bytes_append]
    omega
  · intro address outside
    apply frame
    intro covers
    exact outside ⟨block, by simp, covers⟩

/-- The two ways a call ends: nothing is free, or a page changes hands. -/
theorem allocate_cases {state : PhysicalState} {blocks : List Span} (list : FreeList state blocks) :
    (blocks = [] ∧ allocatePhysicalPage state = (0, state)) ∨
      ∃ page other remaining, TakesPage state blocks page other remaining := by
  cases blocks with
  | nil => exact Or.inl ⟨rfl, allocate_empty list⟩
  | cons block rest => exact Or.inr ⟨_, _, _, allocate_takes list⟩

theorem TakesPage.nonzero {state other : PhysicalState} {blocks remaining : List Span} {page : Nat}
    (takes : TakesPage state blocks page other remaining) : BitVec.ofNat 64 page ≠ 0 := by
  have above := takes.above
  have bound := takes.bound
  intro zero
  have value := congrArg BitVec.toNat zero
  rw [of_nat_to_nat (by omega)] at value
  simp at value
  omega

end KittyOs.PhysicalFreelist
