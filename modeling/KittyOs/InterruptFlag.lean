import KittyOs.IrqModel

/-!
# Sections with interrupts disabled

Every section of the kernel opens with `cli` and closes with `sti` on each of its
exits; the spinlock of the ACPI layer closes with `sti` when the flags word it
saved is not zero. What runs inside a section may contain further sections, in
container growth and helper calls, so a run is a forest of nested sections over
the flags register.
-/

namespace KittyOs.InterruptFlag

open KittyOs.MachineWord KittyOs.IrqModel

set_option autoImplicit false

inductive SectionKind where
  | hookIrq
  | operatorNew
  | operatorDelete
  | processWrite
  | processRead
  | initializeRtc
  | spinlock
deriving DecidableEq, Repr

/-- Sections one after the other, each with the sections inside it. -/
inductive Sections where
  | done
  | enter (kind : SectionKind) (inner rest : Sections)
deriving DecidableEq, Repr

/-- The interrupt-enable bit of RFLAGS. -/
def interruptFlag : U64 := 0x200

def enabled (flags : U64) : Bool := flags.getLsbD 9

def cli (flags : U64) : U64 := flags &&& ~~~interruptFlag

def sti (flags : U64) : U64 := flags ||| interruptFlag

/-- The end of a section, given the flags it was entered with and the current ones.
`uacpi_kernel_lock_spinlock` returns the whole flags register. -/
def leave : SectionKind → U64 → U64 → U64
  | .spinlock, saved, flags => if saved ≠ 0 then sti flags else flags
  | _, _, flags => sti flags

def run : Sections → U64 → U64
  | .done, flags => flags
  | .enter kind inner rest, flags => run rest (leave kind flags (run inner (cli flags)))

/-! ### What the code nests -/

/-- `hook_irq`: the callbacks of a fresh slot have no buffer, so on success
`push_back` allocates one; `copied` is what the copy of the handler allocates. -/
def hookIrqSections (status : Status) (copied rest : Sections) : Sections :=
  match status with
  | .success => .enter .hookIrq (.enter .operatorNew .done copied) rest
  | _ => .enter .hookIrq .done rest

/-- `initialize_rtc` with its call of `hook_irq`; a negative status halts. -/
def initializeRtcSections (status : Status) (copied rest : Sections) : Option Sections :=
  if status.code < 0 then none
  else some (.enter .initializeRtc (hookIrqSections status copied .done) rest)

/-! ### The property -/

/-- Every section leaves the flag as it found it. -/
def Restores : Sections → U64 → Prop
  | .done, _ => True
  | .enter kind inner rest, flags =>
      enabled (leave kind flags (run inner (cli flags))) = enabled flags ∧
        Restores inner (cli flags) ∧ Restores rest (leave kind flags (run inner (cli flags)))

/-- Interrupts are disabled at every point of the run. -/
def StaysDisabled : Sections → U64 → Prop
  | .done, flags => enabled flags = false
  | .enter kind inner rest, flags =>
      enabled flags = false ∧ StaysDisabled inner (cli flags) ∧
        StaysDisabled rest (leave kind flags (run inner (cli flags)))

/-- Interrupts are disabled from the opening of every section to its end. -/
def DisabledInside : Sections → U64 → Prop
  | .done, _ => True
  | .enter kind inner rest, flags =>
      StaysDisabled inner (cli flags) ∧ DisabledInside inner (cli flags) ∧
        DisabledInside rest (leave kind flags (run inner (cli flags)))

/-- No section has another one inside. -/
def Flat : Sections → Prop
  | .done => True
  | .enter _ inner rest => inner = .done ∧ Flat rest

/-! ### One section -/

theorem enabled_cli (flags : U64) : enabled (cli flags) = false := by
  simp [enabled, cli, interruptFlag]

theorem enabled_sti (flags : U64) : enabled (sti flags) = true := by
  simp [enabled, sti, interruptFlag]

/-- Bit 1 of the flags register is always set. -/
def Reserved (flags : U64) : Prop := flags.getLsbD 1 = true

theorem reserved_cli {flags : U64} (reserved : Reserved flags) : Reserved (cli flags) := by
  unfold Reserved at reserved
  simp [Reserved, cli, interruptFlag, reserved]

theorem reserved_sti {flags : U64} (reserved : Reserved flags) : Reserved (sti flags) := by
  unfold Reserved at reserved
  simp [Reserved, sti, reserved]

theorem reserved_nonzero {flags : U64} (reserved : Reserved flags) : flags ≠ 0 := by
  intro zero
  rw [Reserved, zero] at reserved
  exact absurd reserved (by decide)

/-- Every section ends with interrupts enabled. -/
theorem leave_enables (kind : SectionKind) {saved : U64} (reserved : Reserved saved)
    (flags : U64) : leave kind saved flags = sti flags := by
  cases kind with
  | spinlock => rw [leave, if_pos (reserved_nonzero reserved)]
  | hookIrq | operatorNew | operatorDelete | processWrite | processRead | initializeRtc => rfl

theorem run_reserved {sections : Sections} {flags : U64} (reserved : Reserved flags) :
    Reserved (run sections flags) := by
  induction sections generalizing flags with
  | done => exact reserved
  | enter kind inner rest innerReserved restReserved =>
      apply restReserved
      rw [leave_enables kind reserved]
      exact reserved_sti (innerReserved (reserved_cli reserved))

/-- Under a cleared flag the first section already breaks the rule. -/
theorem restores_disabled {sections : Sections} {flags : U64} (reserved : Reserved flags)
    (disabled : enabled flags = false) (restores : Restores sections flags) : sections = .done := by
  cases sections with
  | done => rfl
  | enter kind inner rest =>
      have same := restores.1
      rw [leave_enables kind reserved, enabled_sti, disabled] at same
      exact absurd same (by simp)

theorem restores_enabled {sections : Sections} {flags : U64} (reserved : Reserved flags)
    (start : enabled flags = true) :
    Restores sections flags ∧ DisabledInside sections flags ↔ Flat sections := by
  induction sections generalizing flags with
  | done => exact ⟨fun _ => trivial, fun _ => ⟨trivial, trivial⟩⟩
  | enter kind inner rest _ restIff =>
      have after : Reserved (leave kind flags (run inner (cli flags))) := by
        rw [leave_enables kind reserved]
        exact reserved_sti (run_reserved (reserved_cli reserved))
      have enabledAfter : enabled (leave kind flags (run inner (cli flags))) = true := by
        rw [leave_enables kind reserved, enabled_sti]
      have later := restIff after enabledAfter
      constructor
      · rintro ⟨⟨_, innerRestores, restRestores⟩, _, _, restInside⟩
        exact ⟨restores_disabled (reserved_cli reserved) (enabled_cli flags) innerRestores,
          later.mp ⟨restRestores, restInside⟩⟩
      · rintro ⟨leaf, flat⟩
        obtain ⟨restRestores, restInside⟩ := later.mpr flat
        refine ⟨⟨enabledAfter.trans start.symm, ?_, restRestores⟩, ?_, ?_, restInside⟩
        · rw [leaf]
          trivial
        · rw [leaf]
          exact enabled_cli flags
        · rw [leaf]
          trivial

/-- The flag survives every section, and stays clear inside, exactly when nothing is
nested and nothing is entered with interrupts disabled. -/
theorem flag_restored_iff_flat (sections : Sections) (flags : U64) (reserved : Reserved flags) :
    (Restores sections flags ∧ DisabledInside sections flags) ↔
      sections = .done ∨ (enabled flags = true ∧ Flat sections) := by
  constructor
  · rintro ⟨restores, inside⟩
    cases start : enabled flags with
    | false => exact Or.inl (restores_disabled reserved start restores)
    | true => exact Or.inr ⟨rfl, (restores_enabled reserved start).mp ⟨restores, inside⟩⟩
  · rintro (nothing | ⟨start, flat⟩)
    · rw [nothing]
      exact ⟨trivial, trivial⟩
    · exact (restores_enabled reserved start).mpr flat

theorem allocation_restores_flag :
    Restores (.enter .operatorNew .done .done) 0x202 ∧
      DisabledInside (.enter .operatorNew .done .done) 0x202 :=
  (flag_restored_iff_flat (.enter .operatorNew .done .done) 0x202 rfl).mpr
    (Or.inr ⟨rfl, rfl, trivial⟩)

/-- In `initialize_rtc` interrupts are enabled again once `hook_irq` has returned. -/
theorem rtc_setup_enables_interrupts :
    ∃ sections, initializeRtcSections .success .done .done = some sections ∧
      enabled (run (hookIrqSections .success .done .done) (cli 0x202)) = true ∧
      ¬(Restores sections 0x202 ∧ DisabledInside sections 0x202) := by
  refine ⟨_, rfl, by decide, ?_⟩
  rw [restores_enabled (show Reserved 0x202 from rfl) rfl]
  rintro ⟨nested, _⟩
  exact absurd nested (by decide)

end KittyOs.InterruptFlag
