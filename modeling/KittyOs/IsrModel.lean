import KittyOs.Lib.WordStack
import KittyOs.MachineWord

/-!
# Interrupt entry and return

A transcription of `hal/idt/load_idt.asm` and `hal/idt/idt.inc`, with the layout of
`struct interrupt_frame`. The stack is memory by word address: the processor
aligns the pointer before it pushes, so all accesses are to whole words. Loading
a GS selector sets the GS base from the descriptor. Debug registers 4 and 5 are
names of 6 and 7. The C handler is any function of the machine.
-/

namespace KittyOs.IsrModel

open KittyOs.MachineWord

set_option autoImplicit false

/-- The general registers but the stack pointer. -/
inductive Gpr where
  | rax | rbx | rcx | rdx | rbp | rsi | rdi
  | r8 | r9 | r10 | r11 | r12 | r13 | r14 | r15
deriving DecidableEq, Repr

inductive Segment where
  | ds | es | fs | gs
deriving DecidableEq, Repr

inductive Special where
  | cr0 | cr2 | cr3 | cr4 | cr8
  | dr0 | dr1 | dr2 | dr3 | dr4 | dr5 | dr6 | dr7
deriving DecidableEq, Repr

/-- The register behind a name. -/
def Special.physical : Special → Special
  | .dr4 => .dr6
  | .dr5 => .dr7
  | special => special

structure Registers where
  gpr : Gpr → U64
  segment : Segment → BitVec 16
  special : Special → U64
  gsBase : U64
  rip : U64
  cs : BitVec 16
  rflags : U64
  ss : BitVec 16

structure Machine where
  registers : Registers
  rsp : U64
  memory : U64 → U64

def Registers.setGpr (registers : Registers) (name : Gpr) (value : U64) : Registers :=
  { registers with gpr := Function.update registers.gpr name value }

def Registers.readSpecial (registers : Registers) (name : Special) : U64 :=
  registers.special name.physical

def Registers.setSpecial (registers : Registers) (name : Special) (value : U64) : Registers :=
  { registers with special := Function.update registers.special name.physical value }

/-- `descriptorBase` is the base in the descriptor a selector selects. -/
def Registers.setSegment (descriptorBase : BitVec 16 → U64) (registers : Registers)
    (name : Segment) (selector : BitVec 16) : Registers :=
  { registers with
    segment := Function.update registers.segment name selector
    gsBase := if name = .gs then descriptorBase selector else registers.gsBase }

/-- The instructions of the stubs and of `isr_common`, but the call and `iretq`. -/
inductive Instruction where
  | pushImmediate (value : U64)
  | push (name : Gpr)
  | pushRsp
  | pop (name : Gpr)
  | popRsp
  | clearRax
  | moveToAx (name : Segment)
  | moveFromAx (name : Segment)
  | moveToRax (name : Special)
  | moveFromRax (name : Special)
  | clearDirection
  | loadFrameAddress
  | dropWords (count : Nat)
deriving DecidableEq, Repr

/-- The direction flag. -/
def directionFlag : U64 := 0x400

section Step

variable (descriptorBase : BitVec 16 → U64)

def Machine.pushWord (machine : Machine) (word : U64) : Machine :=
  { machine with
    rsp := machine.rsp - 8
    memory := Function.update machine.memory (machine.rsp - 8) word }

/-- The effect on flags of `xor` and `add` is left out: `iretq` restores them. -/
def step (machine : Machine) : Instruction → Machine
  | .pushImmediate value => machine.pushWord value
  | .push name => machine.pushWord (machine.registers.gpr name)
  | .pushRsp => machine.pushWord machine.rsp
  | .pop name =>
      { machine with
        registers := machine.registers.setGpr name (machine.memory machine.rsp)
        rsp := machine.rsp + 8 }
  | .popRsp => { machine with rsp := machine.memory machine.rsp }
  | .clearRax => { machine with registers := machine.registers.setGpr .rax 0 }
  | .moveToAx name =>
      { machine with
        registers := machine.registers.setGpr .rax
          (machine.registers.gpr .rax >>> 16 <<< 16 |||
            (machine.registers.segment name).setWidth 64) }
  | .moveFromAx name =>
      { machine with
        registers := machine.registers.setSegment descriptorBase name
          ((machine.registers.gpr .rax).setWidth 16) }
  | .moveToRax name =>
      { machine with
        registers := machine.registers.setGpr .rax (machine.registers.readSpecial name) }
  | .moveFromRax name =>
      { machine with
        registers := machine.registers.setSpecial name (machine.registers.gpr .rax) }
  | .clearDirection =>
      { machine with
        registers := { machine.registers with
          rflags := machine.registers.rflags &&& ~~~directionFlag } }
  | .loadFrameAddress =>
      { machine with registers := machine.registers.setGpr .rdi machine.rsp }
  | .dropWords count => { machine with rsp := machine.rsp + BitVec.ofNat 64 (8 * count) }

def execute (code : List Instruction) (machine : Machine) : Machine :=
  code.foldl (step descriptorBase) machine

end Step

/-! ### The code -/

/-- The vectors `idt.inc` gives the macro without a dummy error code. -/
def errorCodeStubs : List Nat := [8, 10, 11, 12, 13, 14, 17, 21]

/-- `ISR_ERRORCODE` or `ISR_NOERRORCODE`. -/
def stub (vector : Nat) : List Instruction :=
  if vector ∈ errorCodeStubs then [.pushImmediate (BitVec.ofNat 64 vector)]
  else [.pushImmediate 0, .pushImmediate (BitVec.ofNat 64 vector)]

def saveGeneral : List Instruction :=
  [.push .rax, .push .rbx, .push .rcx, .push .rdx, .pushRsp, .push .rbp, .push .rsi, .push .rdi,
    .push .r8, .push .r9, .push .r10, .push .r11, .push .r12, .push .r13, .push .r14, .push .r15]

def saveSegments : List Instruction :=
  [.clearRax,
    .moveToAx .ds, .push .rax, .moveToAx .es, .push .rax, .moveToAx .fs, .push .rax,
    .moveToAx .gs, .push .rax]

def saveSpecial : List Instruction :=
  [.moveToRax .cr8, .push .rax, .moveToRax .cr4, .push .rax, .moveToRax .cr3, .push .rax,
    .moveToRax .cr2, .push .rax, .moveToRax .cr0, .push .rax, .moveToRax .dr7, .push .rax,
    .moveToRax .dr6, .push .rax, .moveToRax .dr5, .push .rax, .moveToRax .dr4, .push .rax,
    .moveToRax .dr3, .push .rax, .moveToRax .dr2, .push .rax, .moveToRax .dr1, .push .rax,
    .moveToRax .dr0, .push .rax]

/-- `isr_common` up to the call. -/
def isrSave : List Instruction :=
  saveGeneral ++ saveSegments ++ saveSpecial ++ [.clearDirection, .loadFrameAddress]

def restoreSpecial : List Instruction :=
  [.pop .rax, .moveFromRax .dr0, .pop .rax, .moveFromRax .dr1, .pop .rax, .moveFromRax .dr2,
    .pop .rax, .moveFromRax .dr3, .pop .rax, .moveFromRax .dr4, .pop .rax, .moveFromRax .dr5,
    .pop .rax, .moveFromRax .dr6, .pop .rax, .moveFromRax .dr7, .pop .rax, .moveFromRax .cr0,
    .pop .rax, .moveFromRax .cr2, .pop .rax, .moveFromRax .cr3, .pop .rax, .moveFromRax .cr4,
    .pop .rax, .moveFromRax .cr8]

def restoreSegments : List Instruction :=
  [.clearRax,
    .pop .rax, .moveFromAx .gs, .pop .rax, .moveFromAx .fs, .pop .rax, .moveFromAx .es,
    .pop .rax, .moveFromAx .ds]

def restoreGeneral : List Instruction :=
  [.pop .r15, .pop .r14, .pop .r13, .pop .r12, .pop .r11, .pop .r10, .pop .r9, .pop .r8,
    .pop .rdi, .pop .rsi, .pop .rbp, .popRsp, .pop .rdx, .pop .rcx, .pop .rbx, .pop .rax]

/-- `isr_common` from the return of the call up to `iretq`. -/
def isrRestore : List Instruction :=
  restoreSpecial ++ restoreSegments ++ restoreGeneral ++ [.dropWords 2]

/-! ### The processor's part -/

/-- The vectors with an error code. -/
def errorCodeVectors : List Nat := [8, 10, 11, 12, 13, 14, 17, 21, 29, 30]

/-- The flags an interrupt gate clears: TF, IF, NT and RF. -/
def gateFlags : U64 := 0x14300

/-- Delivery on the stack that ends at `stackTop`; the gate's segment is 8. -/
def deliver (vector : Nat) (errorCode stackTop : U64) (machine : Machine) : Machine :=
  let interrupted := machine.registers
  let onStack : Machine := { machine with rsp := stackTop }
  let pushed := ((((onStack.pushWord (interrupted.ss.setWidth 64)).pushWord
    machine.rsp).pushWord interrupted.rflags).pushWord
      (interrupted.cs.setWidth 64)).pushWord interrupted.rip
  let entered :=
    if vector ∈ errorCodeVectors then pushed.pushWord errorCode else pushed
  { entered with
    registers := { interrupted with cs := 8, rflags := interrupted.rflags &&& ~~~gateFlags } }

def iretq (machine : Machine) : Machine :=
  let word (position : Nat) := machine.memory (machine.rsp + BitVec.ofNat 64 (8 * position))
  { machine with
    registers := { machine.registers with
      rip := word 0
      cs := (word 1).setWidth 16
      rflags := word 2
      ss := (word 4).setWidth 16 }
    rsp := word 3 }

/-- What `interrupt_handler` is called with, in `rdi` and on the stack. -/
def entered (descriptorBase : BitVec 16 → U64) (vector : Nat) (errorCode stackTop : U64)
    (machine : Machine) : Machine :=
  execute descriptorBase (stub vector ++ isrSave) (deliver vector errorCode stackTop machine)

/-- The return through the rest of `isr_common`. -/
def resumed (descriptorBase : BitVec 16 → U64) (returned : Machine) : Machine :=
  iretq (execute descriptorBase isrRestore returned)

/-! ### The frame -/

inductive FrameField where
  | special (name : Special)
  | segment (name : Segment)
  | gpr (name : Gpr)
  | rsp
  | interruptNumber
  | errorCode
  | rip
  | cs
  | rflags
  | origRsp
  | ss
deriving DecidableEq, Repr

/-- The fields of `struct interrupt_frame` in order. -/
def interruptFrame : List FrameField :=
  [.special .dr0, .special .dr1, .special .dr2, .special .dr3, .special .dr4, .special .dr5,
    .special .dr6, .special .dr7, .special .cr0, .special .cr2, .special .cr3, .special .cr4,
    .special .cr8, .segment .gs, .segment .fs, .segment .es, .segment .ds, .gpr .r15, .gpr .r14,
    .gpr .r13, .gpr .r12, .gpr .r11, .gpr .r10, .gpr .r9, .gpr .r8, .gpr .rdi, .gpr .rsi,
    .gpr .rbp, .rsp, .gpr .rdx, .gpr .rcx, .gpr .rbx, .gpr .rax, .interruptNumber, .errorCode,
    .rip, .cs, .rflags, .origRsp, .ss]

/-- A field of the frame at an address. -/
def frameField (machine : Machine) (frame : U64) (field : FrameField) : U64 :=
  machine.memory (frame + BitVec.ofNat 64 (8 * interruptFrame.idxOf field))

end KittyOs.IsrModel
