import Mathlib.Algebra.GroupWithZero.Nat
import Mathlib.Data.List.Basic
import Mathlib.Data.List.Perm.Basic
import Mathlib.Order.Interval.Finset.Nat

/-!
# Spans of addresses and exact partitions of a region

A span is a base and a length. A list of spans partitions a region when no two
of them share an address and together they cover exactly the region. Splitting a
span in two and reordering the list keep a partition; an allocator that only
splits, hands over and takes back spans needs nothing else.
-/

namespace KittyOs.Lib.SpanPartition

set_option autoImplicit false

structure Span where
  base : Nat
  length : Nat
deriving DecidableEq, Repr

def Span.Covers (span : Span) (address : Nat) : Prop :=
  span.base ≤ address ∧ address < span.base + span.length

instance (span : Span) (address : Nat) : Decidable (span.Covers address) :=
  inferInstanceAs (Decidable (_ ∧ _))

/-- Spans without a common address. Empty spans are apart from everything. -/
def Apart (left right : Span) : Prop := ∀ address, left.Covers address → ¬right.Covers address

theorem apart_iff (left right : Span) :
    Apart left right ↔ left.length = 0 ∨ right.length = 0 ∨
      left.base + left.length ≤ right.base ∨ right.base + right.length ≤ left.base := by
  unfold Apart Span.Covers
  constructor
  · intro apart
    by_contra overlap
    have clash := apart (max left.base right.base)
    omega
  · intro separated address inLeft inRight
    omega

instance (left right : Span) : Decidable (Apart left right) :=
  decidable_of_iff _ (apart_iff left right).symm

theorem Apart.symm {left right : Span} (apart : Apart left right) : Apart right left :=
  fun address inRight inLeft => apart address inLeft inRight

theorem Apart.mono {left right inner : Span} (apart : Apart left right)
    (inside : ∀ address, inner.Covers address → left.Covers address) : Apart inner right :=
  fun address inInner => apart address (inside address inInner)

structure Partition (pieces : List Span) (region : Nat → Prop) : Prop where
  apart : pieces.Pairwise Apart
  covers : ∀ address, (∃ piece ∈ pieces, piece.Covers address) ↔ region address

theorem Partition.perm {pieces others : List Span} {region : Nat → Prop}
    (partition : Partition pieces region) (reordered : pieces.Perm others) :
    Partition others region := by
  constructor
  · exact (reordered.pairwise_iff (fun apart => apart.symm)).mp partition.apart
  · intro address
    rw [← partition.covers address]
    constructor
    · rintro ⟨piece, member, inside⟩
      exact ⟨piece, reordered.mem_iff.mpr member, inside⟩
    · rintro ⟨piece, member, inside⟩
      exact ⟨piece, reordered.mem_iff.mp member, inside⟩

/-- Cutting the first span after `count` addresses keeps the partition. -/
theorem Partition.split {base length count : Nat} {rest : List Span} {region : Nat → Prop}
    (partition : Partition (⟨base, length⟩ :: rest) region) (bound : count ≤ length) :
    Partition (⟨base, count⟩ :: ⟨base + count, length - count⟩ :: rest) region := by
  have headApart := (List.pairwise_cons.mp partition.apart).1
  have restApart := (List.pairwise_cons.mp partition.apart).2
  constructor
  · rw [List.pairwise_cons, List.pairwise_cons]
    refine ⟨?_, ?_, restApart⟩
    · intro piece member
      rcases List.mem_cons.mp member with same | later
      · subst piece
        rw [apart_iff]
        dsimp only
        omega
      · apply (headApart piece later).mono
        unfold Span.Covers
        dsimp only
        omega
    · intro piece member
      apply (headApart piece member).mono
      unfold Span.Covers
      dsimp only
      omega
  · intro address
    rw [← partition.covers address]
    simp only [List.mem_cons, exists_eq_or_imp, Span.Covers]
    constructor
    · rintro (first | second | later)
      · exact Or.inl (by omega)
      · exact Or.inl (by omega)
      · exact Or.inr later
    · rintro (whole | later)
      · by_cases low : address < base + count
        · exact Or.inl ⟨whole.1, low⟩
        · exact Or.inr (Or.inl (by omega))
      · exact Or.inr (Or.inr later)

theorem Partition.inside {pieces : List Span} {region : Nat → Prop}
    (partition : Partition pieces region) {piece : Span} (member : piece ∈ pieces)
    {address : Nat} (inside : piece.Covers address) : region address :=
  (partition.covers address).mp ⟨piece, member, inside⟩

/-- Of two partitions of one region that start at the same base, the one with more
further pieces has the shorter first piece. -/
theorem Partition.first_length_le {base left right : Nat} {pieces others : List Span}
    {region : Nat → Prop} (first : Partition (⟨base, left⟩ :: pieces) region)
    (second : Partition (⟨base, right⟩ :: others) region)
    (more : ∀ piece ∈ pieces, piece ∈ others) : right ≤ left := by
  by_contra longer
  have inside : Span.Covers ⟨base, right⟩ (base + left) := ⟨by simp, by dsimp only; omega⟩
  obtain ⟨piece, member, covers⟩ :=
    (first.covers (base + left)).mpr (second.inside (by simp) inside)
  rcases List.mem_cons.mp member with same | later
  · rw [same] at covers
    have upper := covers.2
    dsimp only at upper
    omega
  · exact (List.pairwise_cons.mp second.apart).1 piece (more piece later) _ inside covers

/-- Pieces added to a partition without changing the region are empty. -/
theorem Partition.added_empty {pieces added : List Span} {region : Nat → Prop}
    (small : Partition pieces region) (large : Partition (added ++ pieces) region)
    {piece : Span} (member : piece ∈ added) : piece.length = 0 := by
  by_contra occupied
  have inside : piece.Covers piece.base := ⟨Nat.le_refl _, by omega⟩
  obtain ⟨other, inPieces, covers⟩ :=
    (small.covers piece.base).mpr (large.inside (List.mem_append_left _ member) inside)
  exact (List.pairwise_append.mp large.apart).2.2 piece member other inPieces _ inside covers

/-- Two members of a partition of non-empty spans with a common address occupy
one position: a span that is not empty cannot be listed twice. -/
theorem Partition.nodup {pieces : List Span} {region : Nat → Prop}
    (partition : Partition pieces region) (occupied : ∀ piece ∈ pieces, 0 < piece.length) :
    pieces.Nodup := by
  refine partition.apart.imp_of_mem ?_
  intro left right leftMember _ apart same
  subst same
  have positive := occupied left leftMember
  exact apart left.base ⟨Nat.le_refl _, by omega⟩ ⟨Nat.le_refl _, by omega⟩

/-- Separate spans have as many addresses as their lengths add up to. -/
theorem covered_card {pieces : List Span} (apart : pieces.Pairwise Apart) :
    ∃ covered : Finset Nat, (∀ address, address ∈ covered ↔ ∃ piece ∈ pieces, piece.Covers address) ∧
      covered.card = (pieces.map Span.length).sum := by
  induction pieces with
  | nil => exact ⟨∅, by simp, rfl⟩
  | cons piece rest ih =>
      obtain ⟨headApart, restApart⟩ := List.pairwise_cons.mp apart
      obtain ⟨covered, members, count⟩ := ih restApart
      have here : ∀ address, address ∈ Finset.Ico piece.base (piece.base + piece.length) ↔
          piece.Covers address := by
        intro address
        rw [Finset.mem_Ico, Span.Covers]
      refine ⟨Finset.Ico piece.base (piece.base + piece.length) ∪ covered, ?_, ?_⟩
      · intro address
        rw [Finset.mem_union, here, members]
        simp
      · have separate : Disjoint (Finset.Ico piece.base (piece.base + piece.length)) covered := by
          rw [Finset.disjoint_left]
          intro address inside later
          obtain ⟨other, member, covers⟩ := (members address).mp later
          exact headApart other member address ((here address).mp inside) covers
        rw [Finset.card_union_of_disjoint separate, Nat.card_Ico, count, List.map_cons,
          List.sum_cons]
        omega

theorem total_length_le {pieces : List Span} (apart : pieces.Pairwise Apart) {first last : Nat}
    (bounds : ∀ piece ∈ pieces, first ≤ piece.base ∧ piece.base + piece.length ≤ last) :
    (pieces.map Span.length).sum ≤ last - first := by
  obtain ⟨covered, members, count⟩ := covered_card apart
  have inside : covered ⊆ Finset.Ico first last := by
    intro address member
    obtain ⟨piece, listed, covers⟩ := (members address).mp member
    have bound := bounds piece listed
    unfold Span.Covers at covers
    rw [Finset.mem_Ico]
    omega
  rw [← count, ← Nat.card_Ico]
  exact Finset.card_le_card inside

/-! ### Runs of addresses -/

/-- Spans with an address between them that neither has, unless one is empty. -/
def Distant (left right : Span) : Prop :=
  left.length = 0 ∨ right.length = 0 ∨
    left.base + left.length < right.base ∨ right.base + right.length < left.base

theorem Distant.symm {left right : Span} (distant : Distant left right) : Distant right left := by
  unfold Distant at distant ⊢
  omega

instance : Std.Symm Distant := ⟨fun _ _ distant => distant.symm⟩

theorem Distant.mono {left right inner : Span} (distant : Distant left right)
    (inside : inner.length = 0 ∨
      (left.base ≤ inner.base ∧ inner.base + inner.length ≤ left.base + left.length)) :
    Distant inner right := by
  unfold Distant at distant ⊢
  omega

/-- Consecutive addresses covered by distant spans lie in one of them. -/
theorem run_in_one_piece {pieces : List Span} (distant : pieces.Pairwise Distant)
    {start length : Nat} (covered : ∀ offset, offset ≤ length →
      ∃ piece ∈ pieces, piece.Covers (start + offset)) :
    ∃ piece ∈ pieces, piece.base ≤ start ∧ start + length < piece.base + piece.length := by
  induction length with
  | zero =>
      obtain ⟨piece, member, covers⟩ := covered 0 (Nat.le_refl _)
      exact ⟨piece, member, covers⟩
  | succ length ih =>
      obtain ⟨piece, member, first, last⟩ := ih fun offset bound => covered offset (by omega)
      obtain ⟨next, listed, covers⟩ := covered (length + 1) (Nat.le_refl _)
      by_cases same : piece = next
      · subst same
        exact ⟨piece, member, first, covers.2⟩
      · have gap := distant.forall member listed same
        unfold Distant at gap
        unfold Span.Covers at covers
        omega

end KittyOs.Lib.SpanPartition
