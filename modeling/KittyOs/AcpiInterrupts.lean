import KittyOs.IrqRouting
import Mathlib.Data.List.Nodup

/-!
# Shared interrupt lines of the ACPI layer

`uacpi_kernel_install_interrupt_handler` appends the handler to one global list
and hooks the line with a closure that calls every handler of the handle's line.
Each install takes a new vector and takes the entry of the pin over, so sharing
works through the list and not through the vectors.
-/

namespace KittyOs.AcpiInterrupts

open KittyOs.MachineWord KittyOs.IrqModel KittyOs.IrqVectors KittyOs.IrqRouting

set_option autoImplicit false

variable {Function Context Handler : Type}

/-- `interrupt_handler_t`. -/
structure InterruptHandler (Function Context : Type) where
  handle : Context
  irq : BitVec 32
  handler : Function

/-- What is hooked: the closure of the ACPI layer or any other handler. -/
inductive Callback (Handler : Type) where
  | acpi
  | other (handler : Handler)

structure AcpiState (Function Context Handler : Type) where
  irqs : IrqState (Callback Handler)
  interruptHandlers : List (InterruptHandler Function Context)

/-- The result of `hook_irq` is ignored. -/
def uacpiKernelInstallInterruptHandler (platform : Platform)
    (state : AcpiState Function Context Handler) (processorId : U64) (irq : BitVec 32)
    (intHandler : Function) (ctx : Context) : AcpiState Function Context Handler where
  interruptHandlers := state.interruptHandlers ++ [⟨ctx, irq, intHandler⟩]
  irqs := (hookIrq platform state.irqs true processorId (irq.setWidth 64) .acpi).2

/-- The calls the closure makes. -/
def closureCalls (state : AcpiState Function Context Handler) (irq : IrqHandle) :
    List (Function × Context) :=
  (state.interruptHandlers.filter fun interruptHandler =>
    interruptHandler.irq.setWidth 64 == getIrqFromHandle state.irqs irq).map
      fun interruptHandler => (interruptHandler.handler, interruptHandler.handle)

def callbackCalls (state : AcpiState Function Context Handler) :
    Callback Handler × IrqHandle → List (Function × Context)
  | (.acpi, irq) => closureCalls state irq
  | (.other _, _) => []

/-- The ACPI handlers called when a GSI is raised: its entry is followed to a
processor and a vector, and the vector is dispatched there. -/
def raise (platform : Platform) (state : AcpiState Function Context Handler) (gsi : U64) :
    Option (List (Function × Context)) :=
  match pinOf platform state.irqs.devices gsi with
  | none => none
  | some pin =>
      (dispatchIrq state.irqs (destinationOf (pinWord state.irqs.devices pin))
        (vectorOf (pinWord state.irqs.devices pin))).map
          fun invocations => invocations.flatMap (callbackCalls state)

/-! ### Runs -/

inductive Event (Function Context Handler : Type) where
  | install (irq : BitVec 32) (handler : Function) (context : Context)
  | hook (isGsi : Bool) (cpuId irq : U64) (handler : Handler)

structure AcpiRun (Function Context Handler : Type) where
  hooks : HookRun (Callback Handler)
  interruptHandlers : List (InterruptHandler Function Context)

def AcpiRun.state (run : AcpiRun Function Context Handler) : AcpiState Function Context Handler :=
  ⟨run.hooks.state, run.interruptHandlers⟩

/-- The `hook_irq` call an event makes; installs are made on processor `cpu`. -/
def Event.call (cpu : U64) : Event Function Context Handler → HookCall (Callback Handler)
  | .install irq _ _ => ⟨true, cpu, irq.setWidth 64, .acpi⟩
  | .hook isGsi cpuId irq handler => ⟨isGsi, cpuId, irq, .other handler⟩

def AcpiRun.perform (platform : Platform) (cpu : U64) (run : AcpiRun Function Context Handler)
    (event : Event Function Context Handler) : AcpiRun Function Context Handler :=
  let hooks := run.hooks.perform platform (event.call cpu)
  match event with
  | .install irq handler context =>
      let state :=
        uacpiKernelInstallInterruptHandler platform run.state cpu irq handler context
      ⟨{ hooks with state := state.irqs }, state.interruptHandlers⟩
  | .hook .. => ⟨hooks, run.interruptHandlers⟩

def Event.Succeeds (platform : Platform) (cpu : U64) (run : AcpiRun Function Context Handler)
    (event : Event Function Context Handler) : Prop :=
  (hookIrq platform run.hooks.state (event.call cpu).isGsi (event.call cpu).cpuId
    (event.call cpu).irq (event.call cpu).handler).1.1 = .success

def AllSucceed (platform : Platform) (cpu : U64) :
    AcpiRun Function Context Handler → List (Event Function Context Handler) → Prop
  | _, [] => True
  | run, event :: rest =>
      event.Succeeds platform cpu run ∧ AllSucceed platform cpu (run.perform platform cpu event) rest

def acpiBooted (devices : IoApics) : AcpiRun Function Context Handler := ⟨booted devices, []⟩

def acpiRun (platform : Platform) (devices : IoApics) (cpu : U64)
    (events : List (Event Function Context Handler)) : AcpiRun Function Context Handler :=
  events.foldl (AcpiRun.perform platform cpu) (acpiBooted devices)

/-- Handlers hooked directly are for GSIs that nothing is installed for. -/
def OtherLines (platform : Platform) (events : List (Event Function Context Handler)) : Prop :=
  ∀ isGsi cpuId irq handler, Event.hook isGsi cpuId irq handler ∈ events →
    ∀ line intHandler context, Event.install line intHandler context ∈ events →
      resolveIrq platform isGsi irq ≠ line.setWidth 64

/-! ### What the list and the hooks have to do with each other -/

theorem perform_hooks (platform : Platform) (cpu : U64) (run : AcpiRun Function Context Handler)
    (event : Event Function Context Handler) :
    (run.perform platform cpu event).hooks = run.hooks.perform platform (event.call cpu) := by
  cases event with
  | install irq handler context => rfl
  | hook isGsi cpuId irq handler => rfl

/-- A successful call adds one hook, for its own processor, line and handler. -/
theorem perform_success {Stored : Type} {platform : Platform} {run : HookRun Stored}
    {call : HookCall Stored}
    (success : (hookIrq platform run.state call.isGsi call.cpuId call.irq call.handler).1.1 =
      .success) :
    ∃ vector, (run.perform platform call).hooked = run.hooked ++
      [⟨call.cpuId.toNat, vector, resolveIrq platform call.isGsi call.irq, call.handler⟩] := by
  unfold hookIrq at success
  split_ifs at success with unknown
  dsimp only at success
  split_ifs at success with none
  cases routed : pinOf platform run.state.devices (resolveIrq platform call.isGsi call.irq) with
  | none =>
      rw [routed] at success
      exact absurd success (by simp)
  | some pin =>
      refine ⟨(allocateVectorOnCpu run.state.vectors call.cpuId).1.toNat, ?_⟩
      simp only [HookRun.perform, hookIrq, if_neg unknown, if_neg none, routed]

/-- Every hook comes from an event, and every installed handler has a hook. -/
structure Traced (platform : Platform) (cpu : U64) (events : List (Event Function Context Handler))
    (run : AcpiRun Function Context Handler) : Prop where
  acpi : ∀ hook ∈ run.hooks.hooked, hook.handler = .acpi →
    hook.cpu = cpu.toNat ∧ ∃ installed ∈ run.interruptHandlers, hook.irq = installed.irq.setWidth 64
  other : ∀ hook ∈ run.hooks.hooked, ∀ handler, hook.handler = .other handler →
    ∃ isGsi cpuId irq, Event.hook isGsi cpuId irq handler ∈ events ∧
      hook.irq = resolveIrq platform isGsi irq ∧ hook.cpu = cpuId.toNat
  installed : ∀ handler ∈ run.interruptHandlers,
    Event.install handler.irq handler.handler handler.handle ∈ events
  hooked : ∀ handler ∈ run.interruptHandlers, ∃ hook ∈ run.hooks.hooked,
    hook.handler = .acpi ∧ hook.irq = handler.irq.setWidth 64

theorem booted_traced (platform : Platform) (cpu : U64) (devices : IoApics) :
    Traced platform cpu [] (acpiBooted devices : AcpiRun Function Context Handler) := by
  constructor
  · intro hook member
    exact absurd member (by simp [acpiBooted, booted])
  · intro hook member
    exact absurd member (by simp [acpiBooted, booted])
  · intro handler member
    exact absurd member (by simp [acpiBooted])
  · intro handler member
    exact absurd member (by simp [acpiBooted])

theorem Traced.step {platform : Platform} {cpu : U64}
    {events : List (Event Function Context Handler)} {run : AcpiRun Function Context Handler}
    (traced : Traced platform cpu events run) {event : Event Function Context Handler}
    (success : event.Succeeds platform cpu run) :
    Traced platform cpu (events ++ [event]) (run.perform platform cpu event) := by
  obtain ⟨vector, hooked⟩ := perform_success success
  rw [← perform_hooks] at hooked
  cases event with
  | install irq intHandler context =>
      have list : (run.perform platform cpu (.install irq intHandler context)).interruptHandlers =
          run.interruptHandlers ++ [⟨context, irq, intHandler⟩] := rfl
      have plain : resolveIrq platform true (irq.setWidth 64) = irq.setWidth 64 := by
        simp [resolveIrq]
      simp only [Event.call, plain] at hooked
      constructor
      · rw [hooked, list]
        intro hook member kind
        rcases List.mem_append.mp member with old | new
        · obtain ⟨same, installed, inside, line⟩ := traced.acpi hook old kind
          exact ⟨same, installed, List.mem_append_left _ inside, line⟩
        · rw [List.mem_singleton.mp new]
          exact ⟨rfl, ⟨context, irq, intHandler⟩, by simp, rfl⟩
      · rw [hooked]
        intro hook member handler kind
        rcases List.mem_append.mp member with old | new
        · obtain ⟨isGsi, cpuId, line, inside, resolved⟩ := traced.other hook old handler kind
          exact ⟨isGsi, cpuId, line, List.mem_append_left _ inside, resolved⟩
        · rw [List.mem_singleton.mp new] at kind
          exact absurd kind (by simp)
      · rw [list]
        intro handler member
        rcases List.mem_append.mp member with old | new
        · exact List.mem_append_left _ (traced.installed handler old)
        · rw [List.mem_singleton.mp new]
          simp
      · rw [hooked, list]
        intro handler member
        rcases List.mem_append.mp member with old | new
        · obtain ⟨hook, inside, both⟩ := traced.hooked handler old
          exact ⟨hook, List.mem_append_left _ inside, both⟩
        · rw [List.mem_singleton.mp new]
          exact ⟨_, List.mem_append_right _ (List.mem_singleton_self _), rfl, rfl⟩
  | hook isGsi cpuId irq stored =>
      have list : (run.perform platform cpu (.hook isGsi cpuId irq stored)).interruptHandlers =
          run.interruptHandlers := rfl
      simp only [Event.call] at hooked
      constructor
      · rw [hooked, list]
        intro hook member kind
        rcases List.mem_append.mp member with old | new
        · exact traced.acpi hook old kind
        · rw [List.mem_singleton.mp new] at kind
          exact absurd kind (by simp)
      · rw [hooked]
        intro hook member handler kind
        rcases List.mem_append.mp member with old | new
        · obtain ⟨gsi, target, line, inside, resolved⟩ := traced.other hook old handler kind
          exact ⟨gsi, target, line, List.mem_append_left _ inside, resolved⟩
        · rw [List.mem_singleton.mp new] at kind ⊢
          have same : stored = handler := by simpa using kind
          exact ⟨isGsi, cpuId, irq, by simp [same], rfl, rfl⟩
      · rw [list]
        intro handler member
        exact List.mem_append_left _ (traced.installed handler member)
      · rw [hooked, list]
        intro handler member
        obtain ⟨hook, inside, both⟩ := traced.hooked handler member
        exact ⟨hook, List.mem_append_left _ inside, both⟩

theorem acpi_run_traced {platform : Platform} {cpu : U64} {devices : IoApics}
    {events : List (Event Function Context Handler)}
    (success : AllSucceed platform cpu (acpiBooted devices) events) :
    Traced platform cpu events (acpiRun platform devices cpu events) := by
  have every : ∀ (done : List (Event Function Context Handler))
      (run : AcpiRun Function Context Handler), Traced platform cpu done run →
      AllSucceed platform cpu run events →
      Traced platform cpu (done ++ events) (events.foldl (AcpiRun.perform platform cpu) run) := by
    clear success
    induction events with
    | nil =>
        intro done run traced _
        rw [List.append_nil]
        exact traced
    | cons event rest ih =>
        intro done run traced success
        have later := ih (done ++ [event]) _ (traced.step success.1) success.2
        rw [List.append_assoc] at later
        exact later
  exact every [] _ (booted_traced platform cpu devices) success

/-- The hooks of a run are those of the calls its events make. -/
theorem acpi_run_hooks (platform : Platform) (devices : IoApics) (cpu : U64)
    (events : List (Event Function Context Handler)) :
    (acpiRun platform devices cpu events).hooks =
      hookRun platform devices (events.map (Event.call cpu)) := by
  have every : ∀ run : AcpiRun Function Context Handler,
      (events.foldl (AcpiRun.perform platform cpu) run).hooks =
        (events.map (Event.call cpu)).foldl (HookRun.perform platform) run.hooks := by
    induction events with
    | nil =>
        intro run
        rfl
    | cons event rest ih =>
        intro run
        rw [List.map_cons, List.foldl_cons, List.foldl_cons, ih, perform_hooks]
  exact every _

/-- At distinct addresses a pin belongs to one GSI. -/
theorem pin_of_injective {platform : Platform} {devices : IoApics}
    (distinct : (platform.ioApics.map IoApicEntry.ioApicAddress).Nodup) {irq other : U64} {pin : Pin}
    (here : pinOf platform devices irq = some pin)
    (there : pinOf platform devices other = some pin) : irq = other := by
  obtain ⟨left, leftMember, leftPin⟩ := List.exists_of_findSome?_eq_some here
  obtain ⟨right, rightMember, rightPin⟩ := List.exists_of_findSome?_eq_some there
  simp only [pinOn, Bool.and_eq_true, decide_eq_true_eq] at leftPin rightPin
  split_ifs at leftPin rightPin with leftRange rightRange
  rw [Option.some.injEq] at leftPin rightPin
  have both := leftPin.trans rightPin.symm
  rw [Pin.mk.injEq] at both
  have address : left.ioApicAddress = right.ioApicAddress := by
    have sum := both.1
    bv_omega
  have same : left = right :=
    List.inj_on_of_nodup_map distinct leftMember rightMember address
  subst same
  have count := (getIoapicMaxRedirections devices
    (left.ioApicAddress.setWidth 64 + platform.hhdm)).isLt
  generalize getIoapicMaxRedirections devices
    (left.ioApicAddress.setWidth 64 + platform.hhdm) = max at leftRange rightRange count
  have index := congrArg BitVec.toNat both.2
  simp only [BitVec.toNat_setWidth] at index
  apply BitVec.eq_of_toNat_eq
  bv_omega

/-- Raising any GSI that is in use calls the handlers installed for it, in order,
each once with its own context, and no others. -/
def LinesServed (platform : Platform) (run : AcpiRun Function Context Handler) : Prop :=
  ∀ gsi, ((∃ installed ∈ run.interruptHandlers, installed.irq.setWidth 64 = gsi) ∨
      ∃ hook ∈ run.hooks.hooked, hook.irq = gsi) →
    raise platform run.state gsi =
      some ((run.interruptHandlers.filter fun installed => installed.irq.setWidth 64 == gsi).map
        fun installed => (installed.handler, installed.handle))

/-- No entry written by a direct hook selects, by the four bits it keeps of the
processor number, a place that holds the closure. -/
def NoStrayClosure (pins : U64 → Option Pin) (hooked : List (Hook (Callback Handler))) : Prop :=
  ∀ pin last handler, lastOn pins hooked pin = some last → last.handler = .other handler →
    ∀ closure ∈ hooked, closure.handler = .acpi → closure.place ≠ (last.cpu % 16, last.vector)

theorem raise_last {pins : U64 → Option Pin} {platform : Platform}
    {run : AcpiRun Function Context Handler} (consistent : Consistent run.hooks)
    (routed : Routed pins platform run.hooks) {gsi : U64} {pin : Pin} {last : Hook (Callback Handler)}
    (here : pins gsi = some pin) (found : lastOn pins run.hooks.hooked pin = some last) :
    raise platform run.state gsi =
      some ((run.hooks.hooked.find? fun hook => hook.place == (last.cpu % 16, last.vector)).toList.flatMap
        fun hook => callbackCalls run.state (hook.handler, hook.handle)) := by
  obtain ⟨destination, vector⟩ := selected_place consistent routed found
  have known : (destinationOf (pinWord run.hooks.state.devices pin)).toNat < maxCpus := by
    unfold maxCpus
    omega
  have dispatched := dispatch_reads_hooks consistent known
    (vectorOf (pinWord run.hooks.state.devices pin))
  rw [BitVec.ofNat_toNat, BitVec.setWidth_eq, destination, vector] at dispatched
  have wired : pinOf platform run.state.irqs.devices gsi = some pin := (routed.kept gsi).trans here
  unfold raise
  rw [wired]
  dsimp only [AcpiRun.state]
  rw [dispatched]
  cases stored : run.hooks.hooked.find? fun hook =>
      hook.place == (last.cpu % 16, last.vector) with
  | none => rfl
  | some hook =>
      have place : hook.place = (last.cpu % 16, last.vector) := by
        simpa using List.find?_some stored
      have handle : hook.handle = ⟨last.cpu % 16, last.vector⟩ := by
        rw [Hook.place, Prod.mk.injEq] at place
        rw [Hook.handle, place.1, place.2]
      simp [handle]

/-- The closure in a hook's place calls what is installed for that hook's line. -/
theorem closure_calls_line {run : AcpiRun Function Context Handler}
    (consistent : Consistent run.hooks) {hook : Hook (Callback Handler)}
    (member : hook ∈ run.hooks.hooked) :
    closureCalls run.state hook.handle =
      (run.interruptHandlers.filter fun installed =>
        installed.irq.setWidth 64 == hook.irq).map
          fun installed => (installed.handler, installed.handle) := by
  have entry := consistent.handle_entry member
  have line : getIrqFromHandle run.state.irqs hook.handle = hook.irq := by
    rw [getIrqFromHandle]
    exact congrArg MapEntry.irqId entry
  rw [closureCalls, line]
  rfl

theorem lines_served_iff {pins : U64 → Option Pin} {platform : Platform} {cpu : U64}
    {events : List (Event Function Context Handler)} {run : AcpiRun Function Context Handler}
    (consistent : Consistent run.hooks) (routed : Routed pins platform run.hooks)
    (traced : Traced platform cpu events run) (separate : OtherLines platform events)
    (injective : ∀ irq other pin, pins irq = some pin → pins other = some pin → irq = other)
    (small : cpu.toNat < 16) :
    LinesServed platform run ↔ NoStrayClosure pins run.hooks.hooked := by
  have silent : ∀ hook ∈ run.hooks.hooked, ∀ handler, hook.handler = .other handler →
      (run.interruptHandlers.filter fun installed => installed.irq.setWidth 64 == hook.irq) = [] := by
    intro hook member handler kind
    obtain ⟨isGsi, cpuId, irq, inside, resolved, _⟩ := traced.other hook member handler kind
    rw [List.filter_eq_nil_iff]
    intro installed handlerMember same
    apply separate isGsi cpuId irq handler inside _ _ _ (traced.installed installed handlerMember)
    rw [← resolved]
    exact (beq_iff_eq.mp same).symm
  constructor
  · intro served pin last handler found kind closure member closureKind place
    obtain ⟨lastMember, here⟩ := last_on_member found
    have calls := served last.irq (Or.inr ⟨last, lastMember, rfl⟩)
    have stored := consistent.find_hook member
    rw [place] at stored
    rw [raise_last consistent routed here found, stored, silent last lastMember handler kind]
      at calls
    simp only [Option.toList_some, List.flatMap_cons, List.flatMap_nil, List.append_nil,
      closureKind, callbackCalls, closure_calls_line consistent member, List.map_nil,
      Option.some.injEq, List.map_eq_nil_iff, List.filter_eq_nil_iff] at calls
    obtain ⟨_, installed, inside, line⟩ := traced.acpi closure member closureKind
    exact calls installed inside (by simp [line])
  · intro clean gsi used
    obtain ⟨hook, member, line⟩ : ∃ hook ∈ run.hooks.hooked, hook.irq = gsi := by
      rcases used with ⟨installed, inside, same⟩ | hooked
      · obtain ⟨hook, member, _, line⟩ := traced.hooked installed inside
        exact ⟨hook, member, line.trans same⟩
      · exact hooked
    obtain ⟨pin, here⟩ := routed.wired hook member
    obtain ⟨last, found⟩ := last_on_exists member here
    obtain ⟨lastMember, lastHere⟩ := last_on_member found
    have lastLine : last.irq = gsi := (injective _ _ pin lastHere here).trans line
    rw [line] at here
    rw [raise_last consistent routed here found]
    cases kind : last.handler with
    | acpi =>
        have own : last.cpu % 16 = last.cpu := by
          rw [(traced.acpi last lastMember kind).1]
          exact Nat.mod_eq_of_lt small
        have stored := consistent.find_hook lastMember
        rw [own]
        rw [Hook.place] at stored
        rw [stored]
        simp only [Option.toList_some, List.flatMap_cons, List.flatMap_nil, List.append_nil, kind,
          callbackCalls, closure_calls_line consistent lastMember, lastLine]
    | other handler =>
        rw [← lastLine, silent last lastMember handler kind, List.map_nil]
        cases stored : run.hooks.hooked.find? fun hook =>
            hook.place == (last.cpu % 16, last.vector) with
        | none => rfl
        | some closure =>
            have closureMember := List.mem_of_find?_eq_some stored
            have place : closure.place = (last.cpu % 16, last.vector) := by
              simpa using List.find?_some stored
            cases closureKind : closure.handler with
            | acpi =>
                exact absurd place (clean pin last handler found kind closure closureMember
                  closureKind)
            | other _ => simp [closureKind, callbackCalls]

/-- The direct hooks are for processors that the entry can name. -/
def DirectHooksBelow (bound : Nat) (events : List (Event Function Context Handler)) : Prop :=
  ∀ isGsi cpuId irq handler, Event.hook isGsi cpuId irq handler ∈ events → cpuId.toNat < bound

/-- An entry that keeps the whole processor number selects the place of its own hook. -/
theorem no_stray_closure {platform : Platform} {cpu : U64} {pins : U64 → Option Pin}
    {events : List (Event Function Context Handler)} {run : AcpiRun Function Context Handler}
    (consistent : Consistent run.hooks) (traced : Traced platform cpu events run)
    (below : DirectHooksBelow 16 events) : NoStrayClosure pins run.hooks.hooked := by
  intro pin last handler found kind closure member closureKind place
  have lastMember := (last_on_member found).1
  obtain ⟨isGsi, cpuId, irq, inside, _, cpuSame⟩ := traced.other last lastMember handler kind
  have small := below isGsi cpuId irq handler inside
  rw [Nat.mod_eq_of_lt (by omega)] at place
  have stored := consistent.find_hook member
  rw [show closure.place = last.place from place, consistent.find_hook lastMember] at stored
  rw [← Option.some.inj stored, kind] at closureKind
  exact absurd closureKind (by simp)

/-- Installs on one processor below 16 and direct hooks of other lines for processors below
16, all successful, over I/O APICs at distinct addresses. -/
theorem lines_served_below_sixteen (platform : Platform) (devices : IoApics) (cpu : U64)
    (events : List (Event Function Context Handler)) (small : cpu.toNat < 16)
    (success : AllSucceed platform cpu (acpiBooted devices) events)
    (separate : OtherLines platform events)
    (distinct : (platform.ioApics.map IoApicEntry.ioApicAddress).Nodup)
    (below : DirectHooksBelow 16 events) :
    LinesServed platform (acpiRun platform devices cpu events) := by
  have hooks := acpi_run_hooks platform devices cpu events
  have consistent : Consistent (acpiRun platform devices cpu events).hooks := by
    rw [hooks]
    exact hook_run_consistent platform devices _
  have routed : Routed (pinOf platform devices) platform
      (acpiRun platform devices cpu events).hooks := by
    rw [hooks]
    exact hook_run_routed platform devices _
  have traced := acpi_run_traced success
  apply (lines_served_iff consistent routed traced separate ?_ small).mpr
  · exact no_stray_closure consistent traced below
  · intro irq other pin here there
    exact pin_of_injective distinct here there

/-- Two handlers on line 9 and a direct hook of line 4. -/
def sharedLine : List (Event String String String) :=
  [.install 9 "power" "button", .install 9 "embedded" "controller", .hook true 0 4 "serial"]

theorem shared_line_served : LinesServed singleIoApic
    (acpiRun singleIoApic resetIoApics (getCurrentProcessorId 0) sharedLine) := by
  have success : AllSucceed singleIoApic (getCurrentProcessorId 0) (acpiBooted resetIoApics)
      sharedLine :=
    ⟨rfl, rfl, rfl, trivial⟩
  have separate : OtherLines singleIoApic sharedLine := by
    intro isGsi cpuId irq handler member line intHandler context installed
    simp only [sharedLine, List.mem_cons, reduceCtorEq, Event.hook.injEq, Event.install.injEq,
      List.not_mem_nil, or_false, false_or] at member installed
    obtain ⟨gsi, _, number, _⟩ := member
    rw [gsi, number]
    rcases installed with ⟨nine, _⟩ | ⟨nine, _⟩
    · rw [nine]
      decide
    · rw [nine]
      decide
  apply lines_served_below_sixteen _ _ _ _ (by decide) success separate (by decide)
  intro isGsi cpuId irq handler member
  simp only [sharedLine, List.mem_cons, reduceCtorEq, Event.hook.injEq, List.not_mem_nil, or_false,
    false_or] at member
  rw [member.2.1]
  decide

/-- Line 6 is hooked for processor 16; its entry names processor 0, where the same
vector holds the closure installed for line 5. -/
def strayLine : List (Event String String String) :=
  [.install 5 "power" "button", .hook true 16 6 "serial"]

theorem direct_hook_runs_installed_handler :
    AllSucceed singleIoApic (getCurrentProcessorId 0) (acpiBooted resetIoApics) strayLine ∧
      OtherLines singleIoApic strayLine ∧
      raise singleIoApic (acpiRun singleIoApic resetIoApics (getCurrentProcessorId 0)
        strayLine).state 6 = some [("power", "button")] ∧
      ¬LinesServed singleIoApic (acpiRun singleIoApic resetIoApics (getCurrentProcessorId 0)
        strayLine) := by
  have hooks : (acpiRun singleIoApic resetIoApics (getCurrentProcessorId 0)
      strayLine).hooks.hooked = [⟨0, 32, 5, .acpi⟩, ⟨16, 32, 6, .other "serial"⟩] := by rfl
  have called : raise singleIoApic (acpiRun singleIoApic resetIoApics (getCurrentProcessorId 0)
      strayLine).state 6 = some [("power", "button")] := by rfl
  refine ⟨⟨rfl, rfl, trivial⟩, ?_, called, ?_⟩
  · intro isGsi cpuId irq handler member line intHandler context installed
    simp only [strayLine, List.mem_cons, reduceCtorEq, Event.hook.injEq, Event.install.injEq,
      List.not_mem_nil, or_false, false_or] at member installed
    rw [member.1, member.2.2.1, installed.1]
    decide
  · intro served
    have nothing := served 6 (Or.inr ⟨⟨16, 32, 6, .other "serial"⟩, by rw [hooks]; simp, rfl⟩)
    rw [called] at nothing
    exact absurd nothing (by decide)

end KittyOs.AcpiInterrupts
