import KittyOs.PrintfModel
import KittyOs.Lib.ByteRuns
import Mathlib.Data.List.GetD
import Mathlib.Data.List.Induction

/-!
# What formatted output writes

`npf_vsnprintf` stores the front of the output that fits with its terminator and
nothing outside of the buffer it was given, whatever the format is, as long as the
format has no `%n` to store elsewhere. The conversions themselves go through a buffer of
23 characters on the stack.
-/

namespace KittyOs.PrintfBuffers

open KittyOs.Lib.ByteMemory KittyOs.Lib.ByteRuns KittyOs.MachineWord KittyOs.RuntimeBlob
open KittyOs.PrintfModel

set_option autoImplicit false

/-! ### The caller's buffer -/

/-- The characters put out. -/
def output : List Emit → List Byte
  | [] => []
  | .put c :: emits => c :: output emits
  | .store _ _ _ :: emits => output emits

/-- Nothing is stored by `%n`. -/
def Plain (emits : List Emit) : Prop := ∀ emit ∈ emits, ∃ c, emit = .put c

theorem output_puts {emits : List Emit} (plain : Plain emits) :
    emits = (output emits).map .put := by
  induction emits with
  | nil => rfl
  | cons emit emits ih =>
      obtain ⟨c, rfl⟩ := plain emit List.mem_cons_self
      have rest := ih fun other member => plain other (List.mem_cons_of_mem _ member)
      rw [output, List.map_cons, ← rest]

theorem put_count_eq (emits : List Emit) : putCount emits = (output emits).length := by
  induction emits with
  | nil => rfl
  | cons emit emits ih =>
      cases emit with
      | put c =>
          rw [putCount, List.countP_cons_of_pos rfl, output, List.length_cons]
          exact congrArg (· + 1) ih
      | store pointer width count =>
          rw [putCount, List.countP_cons_of_neg (by simp), output]
          exact ih

/-- The characters that fit go to the buffer, the others are dropped. -/
theorem puts_store (mem : Memory) (buffer : U64) {len : Nat} (small : len ≤ 2 ^ 64)
    (out : List Byte) :
    (out.map Emit.put).foldl (bufEmit buffer len) (mem, 0) =
      (storeRun mem buffer (min out.length len) (out.getD · 0), min out.length len) := by
  induction out using List.reverseRecOn with
  | nil =>
      rw [List.map_nil, List.foldl_nil, List.length_nil, Nat.zero_min, store_run_zero]
  | append_singleton out c ih =>
      rw [List.map_append, List.foldl_append, ih, List.map_singleton, List.foldl_cons,
        List.foldl_nil, bufEmit, List.length_append, List.length_singleton]
      have front : ∀ index, index < min out.length len →
          out.getD index 0 = (out ++ [c]).getD index 0 := by
        intro index below
        rw [List.getD_append _ _ _ _ (by omega)]
      rw [store_run_congr mem buffer front]
      by_cases room : out.length < len
      · have last : (out ++ [c]).getD out.length 0 = c := by
          simp
        rw [if_pos (by omega), Nat.min_eq_left (by omega), Nat.min_eq_left (by omega),
          ← store_run_succ mem buffer _ (by omega), last]
        rfl
      · rw [if_neg (by omega), Nat.min_eq_right (by omega), Nat.min_eq_right (by omega)]

/-- The memory after a call that put out `out`, with a buffer of `size` characters. -/
def filled (mem : Memory) (buffer : U64) (size : Nat) (out : List Byte) : Memory :=
  storeByte
    (storeRun mem buffer (min (out ++ [0]).length size) ((out ++ [0]).getD · 0))
    (runAddress buffer (size - 1)) 0

section Filled

variable (mem : Memory) (buffer : U64) {size : Nat} (out : List Byte) (some_room : 0 < size)
  (small : size ≤ 2 ^ 64)
include some_room small

theorem filled_byte {index : Nat} (below : index < (out.take (size - 1)).length + 1) :
    filled mem buffer size out (runAddress buffer index) =
      (out.take (size - 1) ++ [0]).getD index 0 := by
  rw [List.length_take] at below
  by_cases last : index = size - 1
  · have full : (out.take (size - 1)).length = index := by
      rw [List.length_take]
      omega
    rw [filled, storeByte, if_pos (by rw [last]), List.getD_eq_getElem?_getD,
      List.getElem?_append_right (by omega), full, Nat.sub_self]
    rfl
  · have elsewhere := run_address_ne buffer (by omega) (by omega : size - 1 < 2 ^ 64) last
    rw [filled, storeByte, if_neg elsewhere, store_run_inside mem buffer _ (by
      rw [List.length_append, List.length_singleton]
      omega) (by omega)]
    by_cases inside : index < out.length
    · rw [List.getD_append _ _ _ _ inside, List.getD_append _ _ _ _ (by
        rw [List.length_take]
        omega), List.getD_eq_getElem?_getD, List.getD_eq_getElem?_getD,
        List.getElem?_take_of_lt (by omega)]
    · rw [List.take_of_length_le (by omega)]

theorem filled_text :
    readRun (filled mem buffer size out) buffer ((out.take (size - 1)).length + 1) =
      out.take (size - 1) ++ [0] := by
  apply List.ext_getElem
  · rw [read_run_length, List.length_append, List.length_singleton]
  · intro index inside inside'
    rw [read_run_length] at inside
    simp only [readRun, List.getElem_map, List.getElem_range]
    rw [filled_byte mem buffer out some_room small inside, List.getD_eq_getElem _ _ inside']

theorem filled_outside {target : Nat}
    (outside : ∀ index, index < size → target ≠ runAddress buffer index) :
    filled mem buffer size out target = mem target := by
  rw [filled, storeByte, if_neg (outside _ (by omega)), store_run_outside]
  intro index below
  exact outside index (by omega)

end Filled

theorem run_address_succ (start : U64) (index : Nat) :
    runAddress (start + 1) index = runAddress start (index + 1) := by
  rw [runAddress, runAddress, BitVec.add_assoc, BitVec.add_comm 1, BitVec.ofNat_add]
  rfl

theorem read_run_succ (mem : Memory) (start : U64) (count : Nat) :
    readRun mem start (count + 1) = mem start.toNat :: readRun mem (start + 1) count := by
  rw [readRun, List.range_succ_eq_map, List.map_cons, List.map_map]
  congr 1
  · rw [runAddress, BitVec.add_zero]
  · apply List.map_congr_left
    intro index _
    rw [Function.comp_apply, run_address_succ]

/-- A text in memory is sent up to its first NUL. -/
theorem debug_puts_text (mem : Memory) (msg : U64) (text : List Byte) {count : Nat}
    (stored : readRun mem msg (text.length + 1) = text ++ [0]) (enough : text.length < count) :
    debugPuts mem msg count = text.takeWhile (· ≠ 0) := by
  induction text generalizing msg count with
  | nil =>
      obtain ⟨count, rfl⟩ : ∃ rest, count = rest + 1 := ⟨count - 1, by
        rw [List.length_nil] at enough
        omega⟩
      rw [read_run_succ, List.nil_append] at stored
      rw [debugPuts, if_pos (List.head_eq_of_cons_eq stored), List.takeWhile_nil]
  | cons c text ih =>
      rw [List.length_cons] at stored enough
      obtain ⟨count, rfl⟩ : ∃ rest, count = rest + 1 := ⟨count - 1, by omega⟩
      rw [read_run_succ, List.cons_append] at stored
      obtain ⟨first, rest⟩ := List.cons.inj stored
      rw [debugPuts, first]
      by_cases ended : c = 0
      · rw [if_pos ended, List.takeWhile_cons_of_neg (by simpa using ended)]
      · rw [if_neg ended, List.takeWhile_cons_of_pos (by simpa using ended),
          ih (msg + 1) rest (by omega)]

theorem last_address (buffer bufsz : U64) (some_room : bufsz ≠ 0) :
    (buffer + bufsz - 1).toNat = runAddress buffer (bufsz.toNat - 1) := by
  have positive : 1 ≤ bufsz.toNat := by
    rw [Nat.one_le_iff_ne_zero]
    exact fun zero => some_room (BitVec.eq_of_toNat_eq zero)
  rw [runAddress]
  congr 1
  apply BitVec.eq_of_toNat_eq
  rw [BitVec.toNat_sub, BitVec.toNat_add, BitVec.toNat_add, BitVec.toNat_ofNat,
    show (1 : U64).toNat = 1 from rfl]
  omega

/-- `npf_vsnprintf` when nothing is stored by `%n`. -/
theorem vsnprintf_eq (mem : Memory) (buffer bufsz : U64) {format : CString} {args : Args}
    {progress : Progress} (formatted : npfVpprintf format args = some progress)
    (plain : Plain progress.emits) :
    npfVsnprintf mem buffer bufsz format args =
      some (BitVec.ofNat 32 (output progress.emits).length,
        if buffer ≠ 0 ∧ bufsz ≠ 0 then
          filled mem buffer bufsz.toNat (output progress.emits)
        else mem) := by
  have puts : progress.emits ++ [.put 0] = (output progress.emits ++ [0]).map .put := by
    rw [List.map_append, ← output_puts plain, List.map_singleton]
  have size : (if buffer = 0 then 0 else bufsz.toNat) ≤ 2 ^ 64 := by
    split_ifs <;> omega
  simp only [npfVsnprintf, formatted, Option.map_some, put_count_eq, puts,
    puts_store mem buffer size]
  congr 2
  by_cases room : buffer ≠ 0 ∧ bufsz ≠ 0
  · rw [if_pos room, if_pos room, if_neg room.1, last_address buffer bufsz room.2, filled]
  · have none_fit : (if buffer = 0 then 0 else bufsz.toNat) = 0 := by
      split_ifs with null
      · rfl
      · rw [not_and, not_not] at room
        rw [room null]
        rfl
    rw [if_neg room, if_neg room, none_fit, Nat.min_zero, store_run_zero]

/-- Nothing is stored but the text and its terminator; the value returned counts what was
dropped too. -/
theorem formatted_text_bounded (mem : Memory) (buffer bufsz : U64) (format : CString)
    (args : Args) (progress : Progress) (formatted : npfVpprintf format args = some progress)
    (plain : Plain progress.emits) :
    ∃ after, npfVsnprintf mem buffer bufsz format args =
        some (BitVec.ofNat 32 (output progress.emits).length, after) ∧
      (∀ target, (∀ index, index < bufsz.toNat → target ≠ runAddress buffer index) →
        after target = mem target) ∧
      (buffer = 0 → after = mem) ∧
      (buffer ≠ 0 → bufsz ≠ 0 →
        let text := (output progress.emits).take (bufsz.toNat - 1)
        readRun after buffer (text.length + 1) = text ++ [0] ∧
          debugPuts after buffer bufsz.toNat = text.takeWhile (· ≠ 0)) := by
  refine ⟨_, vsnprintf_eq mem buffer bufsz formatted plain, ?_, ?_, ?_⟩
  · intro target outside
    by_cases room : buffer ≠ 0 ∧ bufsz ≠ 0
    · rw [if_pos room]
      refine filled_outside mem buffer _ ?_ (Nat.le_of_lt bufsz.isLt) outside
      exact Nat.pos_of_ne_zero fun zero => room.2 (BitVec.eq_of_toNat_eq zero)
    · rw [if_neg room]
  · intro null
    rw [if_neg fun room => room.1 null]
  · intro present some_room
    have positive : 0 < bufsz.toNat :=
      Nat.pos_of_ne_zero fun zero => some_room (BitVec.eq_of_toNat_eq zero)
    rw [if_pos ⟨present, some_room⟩]
    have stored := filled_text mem buffer (output progress.emits) positive
      (Nat.le_of_lt bufsz.isLt)
    refine ⟨stored, debug_puts_text _ buffer _ stored ?_⟩
    rw [List.length_take]
    omega

theorem formatted_number_truncated :
    ∃ after, npfVsnprintf (fun _ => 0xFF) 0x1000 4
        ⟨[ch 'n', ch '=', ch '%', ch 'd'], by decide⟩ ⟨[⟨417, none⟩], [], []⟩ = some (5, after) ∧
      readRun after 0x1000 4 = [ch 'n', ch '=', ch '4', 0] := by
  obtain ⟨after, called, _, _, stored⟩ := formatted_text_bounded (fun _ => 0xFF) 0x1000 4
    ⟨[ch 'n', ch '=', ch '%', ch 'd'], by decide⟩ ⟨[⟨417, none⟩], [], []⟩
    ⟨[.put (ch 'n'), .put (ch '='), .put (ch '4'), .put (ch '1'), .put (ch '7')],
      ⟨[], [], []⟩, [0, 1, 2]⟩ rfl (by simp [Plain])
  exact ⟨after, called, (stored (by decide) (by decide)).1⟩

end KittyOs.PrintfBuffers
