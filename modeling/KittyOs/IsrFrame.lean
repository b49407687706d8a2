import KittyOs.IsrModel

/-!
# The interrupt frame, out and back

The stack of the stubs as a list of words: `listExecute` runs the same code on a
list, and `Represents` ties the list to memory, so that the words `isr_common`
pushes can be compared with the fields of the frame one by one.
-/

namespace KittyOs.IsrFrame

open KittyOs.Lib.WordStack KittyOs.MachineWord KittyOs.IsrModel

set_option autoImplicit false

structure ListMachine where
  registers : Registers
  words : List U64

/-- The stack pointer under a stack that ends at `stackTop`. -/
def pointerAt (stackTop : U64) (count : Nat) : U64 := stackTop - BitVec.ofNat 64 (8 * count)

def ListMachine.pushWord (machine : ListMachine) (word : U64) : ListMachine :=
  { machine with words := word :: machine.words }

/-- One instruction on a list of words. A pop of the stack pointer is only followed
when it loads the pointer behind the popped word. -/
def listStep (descriptorBase : BitVec 16 → U64) (stackTop : U64) (machine : ListMachine) :
    Instruction → Option ListMachine
  | .pushImmediate value => some (machine.pushWord value)
  | .push name => some (machine.pushWord (machine.registers.gpr name))
  | .pushRsp => some (machine.pushWord (pointerAt stackTop machine.words.length))
  | .pop name =>
      match machine.words with
      | [] => none
      | word :: rest => some ⟨machine.registers.setGpr name word, rest⟩
  | .popRsp =>
      match machine.words with
      | [] => none
      | word :: rest =>
          if word = pointerAt stackTop rest.length then some ⟨machine.registers, rest⟩ else none
  | .clearRax => some { machine with registers := machine.registers.setGpr .rax 0 }
  | .moveToAx name =>
      some { machine with
        registers := machine.registers.setGpr .rax
          (machine.registers.gpr .rax >>> 16 <<< 16 |||
            (machine.registers.segment name).setWidth 64) }
  | .moveFromAx name =>
      some { machine with
        registers := machine.registers.setSegment descriptorBase name
          ((machine.registers.gpr .rax).setWidth 16) }
  | .moveToRax name =>
      some { machine with
        registers := machine.registers.setGpr .rax (machine.registers.readSpecial name) }
  | .moveFromRax name =>
      some { machine with
        registers := machine.registers.setSpecial name (machine.registers.gpr .rax) }
  | .clearDirection =>
      some { machine with
        registers := { machine.registers with
          rflags := machine.registers.rflags &&& ~~~directionFlag } }
  | .loadFrameAddress =>
      some { machine with
        registers := machine.registers.setGpr .rdi (pointerAt stackTop machine.words.length) }
  | .dropWords count =>
      if count ≤ machine.words.length then
        some { machine with words := machine.words.drop count }
      else none

def listExecute (descriptorBase : BitVec 16 → U64) (stackTop : U64) :
    List Instruction → ListMachine → Option ListMachine
  | [], machine => some machine
  | instruction :: rest, machine =>
      (listStep descriptorBase stackTop machine instruction).bind
        (listExecute descriptorBase stackTop rest)

structure Represents (stackTop : U64) (machine : Machine) (list : ListMachine) : Prop where
  registers : machine.registers = list.registers
  pointer : machine.rsp = pointerAt stackTop list.words.length
  words : Holds machine.memory machine.rsp list.words

section Simulation

variable {descriptorBase : BitVec 16 → U64} {stackTop : U64} {machine : Machine}
variable {list next : ListMachine}

theorem pointer_at_succ (stackTop : U64) (count : Nat) :
    pointerAt stackTop (count + 1) = pointerAt stackTop count - 8 := by
  unfold pointerAt
  bv_omega

theorem pointer_at_up (stackTop : U64) (count : Nat) :
    pointerAt stackTop (count + 1) + 8 = pointerAt stackTop count := by
  unfold pointerAt
  bv_omega

theorem Represents.push (represents : Represents stackTop machine list)
    (short : list.words.length < 2 ^ 60) (word : U64) :
    Represents stackTop (machine.pushWord word) (list.pushWord word) where
  registers := represents.registers
  pointer := by
    rw [Machine.pushWord, ListMachine.pushWord, List.length_cons, pointer_at_succ,
      represents.pointer]
  words := represents.words.push short word

theorem Represents.pop {word : U64} {rest : List U64} (represents : Represents stackTop machine list)
    (shape : list.words = word :: rest) :
    machine.memory machine.rsp = word ∧ machine.rsp + 8 = pointerAt stackTop rest.length ∧
      Holds machine.memory (machine.rsp + 8) rest := by
  have words := represents.words
  have pointer := represents.pointer
  rw [shape] at words pointer
  refine ⟨words.top, ?_, words.pop⟩
  rw [pointer, List.length_cons, pointer_at_up]

/-- The list machine simulates the machine. -/
theorem Represents.step {instruction : Instruction} (represents : Represents stackTop machine list)
    (short : list.words.length < 2 ^ 60)
    (stepped : listStep descriptorBase stackTop list instruction = some next) :
    Represents stackTop (step descriptorBase machine instruction) next ∧
      next.words.length ≤ list.words.length + 1 := by
  have same := represents.registers
  cases instruction with
  | pushImmediate value =>
      rw [listStep, Option.some.injEq] at stepped
      rw [← stepped]
      exact ⟨represents.push short value, by simp [ListMachine.pushWord]⟩
  | push name =>
      rw [listStep, Option.some.injEq, ← same] at stepped
      rw [← stepped]
      exact ⟨represents.push short _, by simp [ListMachine.pushWord]⟩
  | pushRsp =>
      rw [listStep, Option.some.injEq, ← represents.pointer] at stepped
      rw [← stepped]
      exact ⟨represents.push short _, by simp [ListMachine.pushWord]⟩
  | pop name =>
      rw [listStep] at stepped
      cases shape : list.words with
      | nil =>
          rw [shape] at stepped
          exact absurd stepped (by simp)
      | cons word rest =>
          rw [shape] at stepped
          obtain ⟨top, pointer, words⟩ := represents.pop shape
          rw [← Option.some.inj stepped]
          refine ⟨⟨?_, pointer, words⟩, by simp; omega⟩
          simp only [IsrModel.step, top, same]
  | popRsp =>
      rw [listStep] at stepped
      cases shape : list.words with
      | nil =>
          rw [shape] at stepped
          exact absurd stepped (by simp)
      | cons word rest =>
          rw [shape] at stepped
          obtain ⟨top, pointer, words⟩ := represents.pop shape
          dsimp only at stepped
          split_ifs at stepped with loads
          rw [← Option.some.inj stepped]
          refine ⟨⟨same, ?_, ?_⟩, by simp; omega⟩
          · simp only [IsrModel.step, top, loads]
          · simp only [IsrModel.step, top]
            rw [loads, ← pointer]
            exact words
  | dropWords count =>
      rw [listStep] at stepped
      split_ifs at stepped with enough
      rw [← Option.some.inj stepped]
      refine ⟨⟨same, ?_, ?_⟩, by simp; omega⟩
      · simp only [IsrModel.step, represents.pointer, List.length_drop, pointerAt]
        bv_omega
      · exact represents.words.drop count
  | loadFrameAddress =>
      rw [listStep, Option.some.injEq, ← represents.pointer] at stepped
      rw [← stepped]
      refine ⟨⟨?_, represents.pointer, represents.words⟩, by simp⟩
      simp only [IsrModel.step, same]
  | clearRax | moveToAx name | moveFromAx name | moveToRax name | moveFromRax name |
    clearDirection =>
      rw [listStep, Option.some.injEq] at stepped
      rw [← stepped]
      refine ⟨⟨?_, represents.pointer, represents.words⟩, by simp⟩
      simp only [IsrModel.step, same]

theorem Represents.execute {code : List Instruction} {final : ListMachine}
    (represents : Represents stackTop machine list)
    (short : list.words.length + code.length < 2 ^ 60)
    (executed : listExecute descriptorBase stackTop code list = some final) :
    Represents stackTop (execute descriptorBase code machine) final := by
  induction code generalizing machine list with
  | nil =>
      rw [listExecute, Option.some.injEq] at executed
      rw [← executed]
      exact represents
  | cons instruction rest ih =>
      obtain ⟨middle, stepped, later⟩ := Option.bind_eq_some_iff.mp executed
      rw [List.length_cons] at short
      obtain ⟨after, growth⟩ := represents.step (by omega) stepped
      exact ih after (by omega) later

end Simulation

/-! ### What the code pushes and pops -/

section Code

variable (descriptorBase : BitVec 16 → U64) (stackTop : U64)

theorem list_execute_append (before after : List Instruction) (machine : ListMachine) :
    listExecute descriptorBase stackTop (before ++ after) machine =
      (listExecute descriptorBase stackTop before machine).bind
        (listExecute descriptorBase stackTop after) := by
  induction before generalizing machine with
  | nil => rfl
  | cons instruction rest ih =>
      rw [List.cons_append, listExecute, listExecute, Option.bind_assoc]
      congr 1
      funext middle
      exact ih middle

theorem merge_zero (selector : BitVec 16) :
    (0 : U64) >>> 16 <<< 16 ||| selector.setWidth 64 = selector.setWidth 64 := by
  simp

theorem merge_selector (old selector : BitVec 16) :
    (old.setWidth 64 : U64) >>> 16 <<< 16 ||| selector.setWidth 64 = selector.setWidth 64 := by
  have high : (old.setWidth 64 : U64) >>> 16 = 0 := by
    apply BitVec.eq_of_toNat_eq
    have bound := old.isLt
    rw [BitVec.toNat_ushiftRight, BitVec.toNat_setWidth, Nat.shiftRight_eq_div_pow]
    have zero : (0 : U64).toNat = 0 := rfl
    omega
  rw [high]
  simp

def generalWords (registers : Registers) (pointer : U64) : List U64 :=
  [registers.gpr .r15, registers.gpr .r14, registers.gpr .r13, registers.gpr .r12,
    registers.gpr .r11, registers.gpr .r10, registers.gpr .r9, registers.gpr .r8,
    registers.gpr .rdi, registers.gpr .rsi, registers.gpr .rbp, pointer, registers.gpr .rdx,
    registers.gpr .rcx, registers.gpr .rbx, registers.gpr .rax]

def segmentWords (registers : Registers) : List U64 :=
  [(registers.segment .gs).setWidth 64, (registers.segment .fs).setWidth 64,
    (registers.segment .es).setWidth 64, (registers.segment .ds).setWidth 64]

def specialWords (registers : Registers) : List U64 :=
  [registers.readSpecial .dr0, registers.readSpecial .dr1, registers.readSpecial .dr2,
    registers.readSpecial .dr3, registers.readSpecial .dr4, registers.readSpecial .dr5,
    registers.readSpecial .dr6, registers.readSpecial .dr7, registers.readSpecial .cr0,
    registers.readSpecial .cr2, registers.readSpecial .cr3, registers.readSpecial .cr4,
    registers.readSpecial .cr8]

/-- The words `isr_common` pushes, the last one first. -/
def savedWords (registers : Registers) (pointer : U64) : List U64 :=
  specialWords registers ++ (segmentWords registers ++ generalWords registers pointer)

theorem save_general_pushes (registers : Registers) (words : List U64) :
    listExecute descriptorBase stackTop saveGeneral ⟨registers, words⟩ =
      some ⟨registers, generalWords registers (pointerAt stackTop (words.length + 4)) ++ words⟩ :=
  rfl

theorem save_segments_pushes (registers : Registers) (words : List U64) :
    listExecute descriptorBase stackTop saveSegments ⟨registers, words⟩ =
      some ⟨registers.setGpr .rax ((registers.segment .gs).setWidth 64),
        segmentWords registers ++ words⟩ := by
  simp only [saveSegments, listExecute, listStep, ListMachine.pushWord, Option.bind_some,
    Registers.setGpr, Function.update_self, Function.update_idem, merge_zero, merge_selector,
    segmentWords, List.cons_append, List.nil_append]

theorem save_special_pushes (registers : Registers) (words : List U64) :
    listExecute descriptorBase stackTop saveSpecial ⟨registers, words⟩ =
      some ⟨registers.setGpr .rax (registers.readSpecial .dr0), specialWords registers ++ words⟩ := by
  simp only [saveSpecial, listExecute, listStep, ListMachine.pushWord, Option.bind_some,
    Registers.setGpr, Registers.readSpecial, Function.update_self, Function.update_idem,
    specialWords, List.cons_append, List.nil_append]

theorem save_pushes (registers : Registers) (words : List U64) :
    ∃ after, listExecute descriptorBase stackTop isrSave ⟨registers, words⟩ =
        some ⟨after, savedWords registers (pointerAt stackTop (words.length + 4)) ++ words⟩ ∧
      after.gpr .rdi = pointerAt stackTop (words.length + 33) := by
  obtain ⟨saved, savedIs⟩ : ∃ saved,
      savedWords registers (pointerAt stackTop (words.length + 4)) ++ words = saved := ⟨_, rfl⟩
  have count : saved.length = words.length + 33 := by
    rw [← savedIs]
    simp [savedWords, specialWords, segmentWords, generalWords]
  have pushed : listExecute descriptorBase stackTop (saveGeneral ++ saveSegments ++ saveSpecial)
      ⟨registers, words⟩ =
        some ⟨(registers.setGpr .rax ((registers.segment .gs).setWidth 64)).setGpr .rax
          (registers.readSpecial .dr0), saved⟩ := by
    rw [list_execute_append, list_execute_append, save_general_pushes, Option.bind_some,
      save_segments_pushes, Option.bind_some, save_special_pushes, ← savedIs]
    simp only [savedWords, List.append_assoc]
    rfl
  rw [isrSave, list_execute_append, pushed, Option.bind_some, ← count]
  simp only [listExecute, listStep, Option.bind_some, Option.some.injEq, ListMachine.mk.injEq,
    savedIs, and_true, exists_eq_left']
  simp only [Registers.setGpr, Function.update_self]

/-! ### The way back -/

theorem restore_special_pops (registers saved : Registers) (words : List U64) :
    ∃ after, listExecute descriptorBase stackTop restoreSpecial
        ⟨registers, specialWords saved ++ words⟩ = some ⟨after, words⟩ ∧
      after.readSpecial = saved.readSpecial := by
  simp only [restoreSpecial, specialWords, List.cons_append, List.nil_append, listExecute,
    listStep, Option.bind_some, Option.some.injEq, ListMachine.mk.injEq, and_true, exists_eq_left']
  funext name
  cases name <;>
    simp [Registers.setGpr, Registers.setSpecial, Registers.readSpecial, Special.physical]

theorem restore_segments_pops (registers saved : Registers) (words : List U64) :
    ∃ after, listExecute descriptorBase stackTop restoreSegments
        ⟨registers, segmentWords saved ++ words⟩ = some ⟨after, words⟩ ∧
      after.segment = saved.segment ∧ after.gsBase = descriptorBase (saved.segment .gs) ∧
      after.readSpecial = registers.readSpecial := by
  simp only [restoreSegments, segmentWords, List.cons_append, List.nil_append, listExecute,
    listStep, Option.bind_some, Option.some.injEq, ListMachine.mk.injEq, and_true, exists_eq_left']
  refine ⟨?_, ?_, rfl⟩
  · funext name
    cases name <;> simp [Registers.setGpr, Registers.setSegment]
  · simp [Registers.setGpr, Registers.setSegment]

theorem restore_general_pops (registers saved : Registers) (number code : U64) (words : List U64) :
    ∃ after, listExecute descriptorBase stackTop (restoreGeneral ++ [.dropWords 2])
        ⟨registers, generalWords saved (pointerAt stackTop (words.length + 6)) ++
          number :: code :: words⟩ = some ⟨after, words⟩ ∧
      after.gpr = saved.gpr ∧ after.segment = registers.segment ∧
      after.gsBase = registers.gsBase ∧ after.readSpecial = registers.readSpecial := by
  have enough : 2 ≤ (number :: code :: words).length := by simp
  have loads : pointerAt stackTop (words.length + 6) = pointerAt stackTop
      (saved.gpr .rdx :: saved.gpr .rcx :: saved.gpr .rbx :: saved.gpr .rax ::
        number :: code :: words).length := rfl
  simp only [restoreGeneral, generalWords, List.cons_append, List.nil_append, listExecute,
    listStep, Option.bind_some, if_pos loads, if_pos enough, List.drop_succ_cons, List.drop_zero,
    Option.some.injEq, ListMachine.mk.injEq, and_true, exists_eq_left']
  refine ⟨?_, rfl, rfl, rfl⟩
  funext name
  cases name <;> simp [Registers.setGpr]

theorem restore_pops (registers saved : Registers) (number code : U64) (words : List U64) :
    ∃ after, listExecute descriptorBase stackTop isrRestore
        ⟨registers, savedWords saved (pointerAt stackTop (words.length + 6)) ++
          number :: code :: words⟩ = some ⟨after, words⟩ ∧
      after.gpr = saved.gpr ∧ after.segment = saved.segment ∧
      after.gsBase = descriptorBase (saved.segment .gs) ∧
      after.readSpecial = saved.readSpecial := by
  obtain ⟨first, special, specials⟩ := restore_special_pops descriptorBase stackTop registers saved
    (segmentWords saved ++ (generalWords saved (pointerAt stackTop (words.length + 6)) ++
      number :: code :: words))
  obtain ⟨second, segments, selectors, base, keptFirst⟩ :=
    restore_segments_pops descriptorBase stackTop first
    saved (generalWords saved (pointerAt stackTop (words.length + 6)) ++ number :: code :: words)
  obtain ⟨last, general, names, keptSelectors, keptBase, keptLast⟩ :=
    restore_general_pops descriptorBase stackTop second saved number code words
  refine ⟨last, ?_, names, keptSelectors.trans selectors, keptBase.trans base,
    keptLast.trans (keptFirst.trans specials)⟩
  rw [isrRestore, List.append_assoc, list_execute_append, list_execute_append, savedWords,
    List.append_assoc, List.append_assoc, special, Option.bind_some, segments, Option.bind_some,
    general]

end Code

/-! ### The frame -/

/-- The interrupted value of the register a field names. -/
def interruptedValue (vector : Nat) (errorCode : U64) (machine : Machine) : FrameField → U64
  | .special name => machine.registers.readSpecial name
  | .segment name => (machine.registers.segment name).setWidth 64
  | .gpr name => machine.registers.gpr name
  | .rsp => machine.rsp
  | .interruptNumber => BitVec.ofNat 64 vector
  | .errorCode => if vector ∈ errorCodeVectors then errorCode else 0
  | .rip => machine.registers.rip
  | .cs => machine.registers.cs.setWidth 64
  | .rflags => machine.registers.rflags
  | .origRsp => machine.rsp
  | .ss => machine.registers.ss.setWidth 64

/-- The handler gets the address of a frame whose fields, but the stack pointer
pushed halfway, hold what was interrupted. -/
def FrameFaithful (descriptorBase : BitVec 16 → U64) (vector : Nat) (errorCode stackTop : U64)
    (machine : Machine) : Prop :=
  ∀ field, field ≠ .rsp →
    frameField (entered descriptorBase vector errorCode stackTop machine)
      ((entered descriptorBase vector errorCode stackTop machine).registers.gpr .rdi) field =
        interruptedValue vector errorCode machine field

/-- However the handler returns, if it leaves the frame as it was then `iretq` does
to the registers and the stack pointer as well. -/
def Resumes (descriptorBase : BitVec 16 → U64) (vector : Nat) (errorCode stackTop : U64)
    (machine : Machine) : Prop :=
  ∀ returned : Machine,
    returned.rsp = (entered descriptorBase vector errorCode stackTop machine).rsp →
    (∀ field, frameField returned returned.rsp field =
      frameField (entered descriptorBase vector errorCode stackTop machine) returned.rsp field) →
    (resumed descriptorBase returned).registers.gpr = machine.registers.gpr ∧
    (resumed descriptorBase returned).registers.segment = machine.registers.segment ∧
    (resumed descriptorBase returned).registers.gsBase = machine.registers.gsBase ∧
    (resumed descriptorBase returned).registers.rip = machine.registers.rip ∧
    (resumed descriptorBase returned).registers.cs = machine.registers.cs ∧
    (resumed descriptorBase returned).registers.rflags = machine.registers.rflags ∧
    (resumed descriptorBase returned).registers.ss = machine.registers.ss ∧
    (resumed descriptorBase returned).rsp = machine.rsp

section Frame

variable {descriptorBase : BitVec 16 → U64} {vector : Nat} {errorCode stackTop : U64}
variable {machine : Machine}

/-- What the processor pushes, the last word first. -/
def cpuWords (vector : Nat) (errorCode : U64) (machine : Machine) : List U64 :=
  (if vector ∈ errorCodeVectors then [errorCode] else []) ++
    [machine.registers.rip, machine.registers.cs.setWidth 64, machine.registers.rflags,
      machine.rsp, machine.registers.ss.setWidth 64]

def stubWords (vector : Nat) : List U64 :=
  if vector ∈ errorCodeStubs then [BitVec.ofNat 64 vector] else [BitVec.ofNat 64 vector, 0]

theorem deliver_represents (vector : Nat) (errorCode stackTop : U64) (machine : Machine) :
    ∃ registers, Represents stackTop (deliver vector errorCode stackTop machine)
        ⟨registers, cpuWords vector errorCode machine⟩ ∧
      ∀ pointer, savedWords registers pointer = savedWords machine.registers pointer := by
  have start : Represents stackTop { machine with rsp := stackTop } ⟨machine.registers, []⟩ := by
    refine ⟨rfl, ?_, holds_nil _ _⟩
    simp [pointerAt]
  have pushed := ((((start.push (by simp) (machine.registers.ss.setWidth 64)).push
    (by simp [ListMachine.pushWord]) machine.rsp).push
    (by simp [ListMachine.pushWord]) machine.registers.rflags).push
    (by simp [ListMachine.pushWord]) (machine.registers.cs.setWidth 64)).push
    (by simp [ListMachine.pushWord]) machine.registers.rip
  refine ⟨{ machine.registers with
    cs := 8, rflags := machine.registers.rflags &&& ~~~gateFlags }, ?_, fun _ => rfl⟩
  unfold deliver cpuWords
  by_cases coded : vector ∈ errorCodeVectors
  · have last := pushed.push (by simp [ListMachine.pushWord]) errorCode
    simp only [if_pos coded]
    exact ⟨rfl, last.pointer, last.words⟩
  · simp only [if_neg coded]
    exact ⟨rfl, pushed.pointer, pushed.words⟩

theorem stub_pushes (vector : Nat) (registers : Registers) (words : List U64) :
    listExecute descriptorBase stackTop (stub vector) ⟨registers, words⟩ =
      some ⟨registers, stubWords vector ++ words⟩ := by
  unfold stub stubWords
  split_ifs
  · rfl
  · rfl

/-- The stack under the handler, and the address it is given. -/
theorem entered_represents (descriptorBase : BitVec 16 → U64) (vector : Nat)
    (errorCode stackTop : U64) (machine : Machine) {words : List U64}
    (shape : stubWords vector ++ cpuWords vector errorCode machine = words) :
    ∃ registers, Represents stackTop (entered descriptorBase vector errorCode stackTop machine)
        ⟨registers, savedWords machine.registers (pointerAt stackTop (words.length + 4)) ++ words⟩ ∧
      registers.gpr .rdi = (entered descriptorBase vector errorCode stackTop machine).rsp := by
  obtain ⟨registers, delivered, same⟩ := deliver_represents vector errorCode stackTop machine
  obtain ⟨after, saved, frame⟩ := save_pushes descriptorBase stackTop registers words
  rw [same] at saved
  have short : words.length ≤ 8 := by
    rw [← shape, stubWords, cpuWords, List.length_append, List.length_append]
    split_ifs <;> simp
  have pushed : (cpuWords vector errorCode machine).length ≤ words.length := by
    rw [← shape, List.length_append]
    omega
  have code : (stub vector ++ isrSave).length ≤ 60 := by
    have save : isrSave.length = 53 := rfl
    rw [List.length_append, save, stub]
    split_ifs <;> simp
  have represents := delivered.execute (show _ < 2 ^ 60 by dsimp only; omega) (show
    listExecute descriptorBase stackTop (stub vector ++ isrSave) _ = _ by
      rw [list_execute_append, stub_pushes, Option.bind_some, shape, saved])
  refine ⟨after, represents, ?_⟩
  rw [frame, entered, represents.pointer]
  congr 1

theorem frame_field_of_holds {frame : U64} {value : FrameField → U64}
    (holds : Holds machine.memory frame (interruptFrame.map value)) (field : FrameField) :
    frameField machine frame field = value field := by
  have member : field ∈ interruptFrame := by
    rcases field with name | name | name | _ | _ | _ | _ | _ | _ | _ | _
    · cases name <;> decide
    · cases name <;> decide
    · cases name <;> decide
    all_goals decide
  apply holds
  rw [List.getElem?_map, List.getElem?_idxOf member, Option.map_some]

/-- With the right stub the words are the fields in order. -/
theorem entry_words_matched (errorCode : U64) (machine : Machine)
    (matched : vector ≠ 29 ∧ vector ≠ 30) :
    stubWords vector ++ cpuWords vector errorCode machine =
      [BitVec.ofNat 64 vector, if vector ∈ errorCodeVectors then errorCode else 0,
        machine.registers.rip, machine.registers.cs.setWidth 64, machine.registers.rflags,
        machine.rsp, machine.registers.ss.setWidth 64] := by
  have same : vector ∈ errorCodeVectors ↔ vector ∈ errorCodeStubs := by
    simp [errorCodeVectors, errorCodeStubs, matched.1, matched.2]
  unfold stubWords cpuWords
  by_cases coded : vector ∈ errorCodeStubs
  · simp only [if_pos coded, if_pos (same.mpr coded)]
    rfl
  · have uncoded : vector ∉ errorCodeVectors := fun member => coded (same.mp member)
    simp only [if_neg coded, if_neg uncoded]
    rfl

/-- Vectors 29 and 30 get a dummy word although the processor pushed a code. -/
theorem entry_words_shifted (errorCode : U64) (machine : Machine)
    (shifted : vector = 29 ∨ vector = 30) :
    stubWords vector ++ cpuWords vector errorCode machine =
      [BitVec.ofNat 64 vector, 0, errorCode, machine.registers.rip,
        machine.registers.cs.setWidth 64, machine.registers.rflags, machine.rsp,
        machine.registers.ss.setWidth 64] := by
  rcases shifted with same | same
  · rw [same]
    rfl
  · rw [same]
    rfl

theorem saved_frame (machine : Machine) (pointer : U64) :
    savedWords machine.registers pointer ++
      [BitVec.ofNat 64 vector, if vector ∈ errorCodeVectors then errorCode else 0,
        machine.registers.rip, machine.registers.cs.setWidth 64, machine.registers.rflags,
        machine.rsp, machine.registers.ss.setWidth 64] =
      interruptFrame.map
        (Function.update (interruptedValue vector errorCode machine) .rsp pointer) := rfl

theorem frame_faithful_iff (descriptorBase : BitVec 16 → U64) (vector : Nat)
    (errorCode stackTop : U64) (machine : Machine)
    (reserved : machine.registers.rflags.getLsbD 1 = true) :
    FrameFaithful descriptorBase vector errorCode stackTop machine ↔
      vector ≠ 29 ∧ vector ≠ 30 := by
  constructor
  · intro faithful
    by_contra unmatched
    have shifted : vector = 29 ∨ vector = 30 := by
      by_contra neither
      rw [not_or] at neither
      exact unmatched neither
    have coded : vector ∈ errorCodeVectors := by
      rcases shifted with same | same
      · rw [same]
        decide
      · rw [same]
        decide
    obtain ⟨registers, represents, frame⟩ := entered_represents descriptorBase vector errorCode
      stackTop machine (entry_words_shifted errorCode machine shifted)
    have words := represents.words
    have address : (entered descriptorBase vector errorCode stackTop machine).registers.gpr .rdi =
        (entered descriptorBase vector errorCode stackTop machine).rsp := by
      rw [represents.registers, frame]
    unfold FrameFaithful at faithful
    rw [address] at faithful
    have code : 0 = errorCode := by
      rw [← (faithful .errorCode (by decide)).trans (if_pos coded)]
      exact (words 34 0 rfl).symm
    have rip : errorCode = machine.registers.rip :=
      (words 35 errorCode rfl).symm.trans (faithful .rip (by decide))
    have cs : machine.registers.rip = machine.registers.cs.setWidth 64 :=
      (words 36 machine.registers.rip rfl).symm.trans (faithful .cs (by decide))
    have rflags : machine.registers.cs.setWidth 64 = machine.registers.rflags :=
      (words 37 (machine.registers.cs.setWidth 64) rfl).symm.trans (faithful .rflags (by decide))
    rw [← rflags, ← cs, ← rip, ← code] at reserved
    exact absurd reserved (by decide)
  · intro matched field different
    obtain ⟨registers, represents, frame⟩ := entered_represents descriptorBase vector errorCode
      stackTop machine (entry_words_matched errorCode machine matched)
    have words := represents.words
    rw [saved_frame] at words
    have address : (entered descriptorBase vector errorCode stackTop machine).registers.gpr .rdi =
        (entered descriptorBase vector errorCode stackTop machine).rsp := by
      rw [represents.registers, frame]
    rw [address, frame_field_of_holds words, Function.update_of_ne different]

theorem holds_of_frame_fields {frame : U64} {value : FrameField → U64}
    (fields : ∀ field, frameField machine frame field = value field) :
    Holds machine.memory frame (interruptFrame.map value) := by
  intro position word here
  rw [List.getElem?_map] at here
  obtain ⟨field, found, same⟩ := Option.map_eq_some_iff.mp here
  obtain ⟨bound, element⟩ := List.getElem?_eq_some_iff.mp found
  have once : interruptFrame.Nodup := by decide
  have index : interruptFrame.idxOf field = position := by
    rw [← element]
    exact once.idxOf_getElem position bound
  rw [← same, ← fields field, frameField, index]

/-- What `isr_common` resumes with when the frame is the interrupted one. -/
theorem resumed_registers (matched : vector ≠ 29 ∧ vector ≠ 30) {returned : Machine}
    (balanced : returned.rsp = (entered descriptorBase vector errorCode stackTop machine).rsp)
    (kept : ∀ field, frameField returned returned.rsp field =
      frameField (entered descriptorBase vector errorCode stackTop machine) returned.rsp field) :
    (resumed descriptorBase returned).registers.gpr = machine.registers.gpr ∧
    (resumed descriptorBase returned).registers.segment = machine.registers.segment ∧
    (resumed descriptorBase returned).registers.gsBase =
      descriptorBase (machine.registers.segment .gs) ∧
    (resumed descriptorBase returned).registers.rip = machine.registers.rip ∧
    (resumed descriptorBase returned).registers.cs = machine.registers.cs ∧
    (resumed descriptorBase returned).registers.rflags = machine.registers.rflags ∧
    (resumed descriptorBase returned).registers.ss = machine.registers.ss ∧
    (resumed descriptorBase returned).rsp = machine.rsp ∧
    (resumed descriptorBase returned).registers.readSpecial = machine.registers.readSpecial := by
  obtain ⟨registers, represents, frame⟩ := entered_represents descriptorBase vector errorCode
    stackTop machine (entry_words_matched errorCode machine matched)
  have words := represents.words
  rw [saved_frame, ← balanced] at words
  have returnedWords : Holds returned.memory returned.rsp _ := holds_of_frame_fields
    fun field => (kept field).trans (frame_field_of_holds words field)
  rw [← saved_frame] at returnedWords
  have start : Represents stackTop returned ⟨returned.registers, _⟩ :=
    ⟨rfl, balanced.trans represents.pointer, returnedWords⟩
  obtain ⟨after, popped, gpr, segment, base, special⟩ := restore_pops descriptorBase stackTop
    returned.registers machine.registers (BitVec.ofNat 64 vector)
    (if vector ∈ errorCodeVectors then errorCode else 0)
    [machine.registers.rip, machine.registers.cs.setWidth 64, machine.registers.rflags,
      machine.rsp, machine.registers.ss.setWidth 64]
  have final : Represents stackTop (execute descriptorBase isrRestore returned) _ :=
    start.execute (show 40 + 52 < 2 ^ 60 by omega) popped
  have same := final.registers
  unfold resumed iretq
  rw [same]
  refine ⟨gpr, segment, base, final.words 0 _ rfl, ?_, final.words 2 _ rfl, ?_,
    final.words 3 _ rfl, special⟩
  · exact (congrArg (BitVec.setWidth 16) (final.words 1 _ rfl)).trans (by simp)
  · exact (congrArg (BitVec.setWidth 16) (final.words 4 _ rfl)).trans (by simp)

/-- For a table of 256 vectors and flags whose bit 1 is set, as it always is. -/
theorem frame_and_return_iff (descriptorBase : BitVec 16 → U64) (vector : Fin 256)
    (errorCode stackTop : U64) (machine : Machine)
    (reserved : machine.registers.rflags.getLsbD 1 = true) :
    (FrameFaithful descriptorBase vector errorCode stackTop machine ∧
        Resumes descriptorBase vector errorCode stackTop machine) ↔
      (vector.val ≠ 29 ∧ vector.val ≠ 30) ∧
        descriptorBase (machine.registers.segment .gs) = machine.registers.gsBase := by
  rw [frame_faithful_iff descriptorBase vector errorCode stackTop machine reserved]
  constructor
  · rintro ⟨matched, resumes⟩
    have same := resumes _ rfl fun _ => rfl
    have base := resumed_registers matched (show
      (entered descriptorBase vector errorCode stackTop machine).rsp = _ from rfl) fun _ => rfl
    exact ⟨matched, base.2.2.1.symm.trans same.2.2.1⟩
  · rintro ⟨matched, base⟩
    refine ⟨matched, ?_⟩
    intro returned balanced kept
    obtain ⟨gpr, segment, gsBase, rip, cs, rflags, ss, rsp, -⟩ :=
      resumed_registers matched balanced kept
    exact ⟨gpr, segment, gsBase.trans base, rip, cs, rflags, ss, rsp⟩

end Frame

/-- A machine that runs in the kernel's segments with a GS base. -/
def kernelMachine (gsBase : U64) : Machine where
  registers :=
    { gpr := fun _ => 0
      segment := fun _ => 0x10
      special := fun _ => 0
      gsBase
      rip := 0xffffffff80001000
      cs := 0x8
      rflags := 0x202
      ss := 0x10 }
  rsp := 0xffff800000100000
  memory := fun _ => 0

theorem timer_interrupt_returns :
    FrameFaithful (fun _ => 0) 32 0 0xffff800000100000 (kernelMachine 0) ∧
      Resumes (fun _ => 0) 32 0 0xffff800000100000 (kernelMachine 0) :=
  (frame_and_return_iff (fun _ => 0) 32 0 0xffff800000100000 (kernelMachine 0) (by decide)).mpr
    ⟨by decide, rfl⟩

/-- Every descriptor of the kernel has base 0, so a return clears the GS base; and the
frame of vector 29 is shifted by one word. -/
theorem gs_base_lost_and_frame_shifted :
    ¬Resumes (fun _ => 0) 32 0 0xffff800000100000 (kernelMachine 0xffff900000000000) ∧
      ¬FrameFaithful (fun _ => 0) 29 0 0xffff800000100000 (kernelMachine 0) := by
  constructor
  · intro resumes
    have same := resumes _ rfl fun _ => rfl
    have base := resumed_registers (show (32 : Nat) ≠ 29 ∧ (32 : Nat) ≠ 30 by decide) (show
      (entered (fun _ => 0) 32 0 0xffff800000100000 (kernelMachine 0xffff900000000000)).rsp = _
        from rfl) fun _ => rfl
    have lost : (0 : U64) = 0xffff900000000000 := base.2.2.1.symm.trans same.2.2.1
    exact absurd lost (by decide)
  · rw [frame_faithful_iff _ _ _ _ _ (by decide)]
    intro matched
    exact matched.1 rfl

end KittyOs.IsrFrame
