import KittyOs.RuntimeBlob

/-!
# The virtual kernel filesystem

The operations of `fs/fs/virt_kernel/vk_sys.cpp` over the modules the bootloader
has left in memory. A path argument is the string it points to, which its owner
leaves alone. The open files are a `std::vector`, and the address of an element is
the handle of the file: the vector is its buffer, its capacity and its elements,
and an append to a full one moves them to a buffer that `operator new` returned.
-/

namespace KittyOs.VkfsModel

open KittyOs.Lib.ByteMemory KittyOs.MachineWord KittyOs.RuntimeBlob

set_option autoImplicit false

/-- The fields of `limine_file` that are used. -/
structure Module where
  path : CString
  address : U64
  size : U64
deriving DecidableEq

structure OpenFile where
  path : CString
deriving DecidableEq

structure OpenFiles where
  buffer : U64
  capacity : Nat
  files : List OpenFile
deriving DecidableEq

/-- The vector before its first use. -/
def OpenFiles.empty : OpenFiles := ⟨0, 0, []⟩

/-- What `operator new` returns. -/
abbrev Allocation := { address : U64 // address ≠ 0 }

/-- The address of an element; `sizeof(open_file)` is eight. -/
def OpenFiles.handle (openFiles : OpenFiles) (index : Nat) : U64 :=
  openFiles.buffer + BitVec.ofNat 64 (index * 8)

def OpenFiles.full (openFiles : OpenFiles) : Bool :=
  openFiles.files.length == openFiles.capacity

def OpenFiles.pushBack (openFiles : OpenFiles) (file : OpenFile) (fresh : Allocation) :
    OpenFiles where
  buffer := if openFiles.full then fresh.val else openFiles.buffer
  capacity :=
    if openFiles.full then openFiles.capacity + max openFiles.capacity 1 else openFiles.capacity
  files := openFiles.files ++ [file]

/-- The element a handle points to. -/
def OpenFiles.indexOf (openFiles : OpenFiles) (file : U64) : Option Nat :=
  (List.range openFiles.files.length).find? fun index => openFiles.handle index == file

/-- `open_file`; 0 is the null pointer. The structured binding of its first loop hides
the parameter `path`, so the loop compares each open path with itself. -/
def openFile (modules : List Module) (openFiles : OpenFiles) (path : CString)
    (fresh : Allocation) : U64 × OpenFiles :=
  if openFiles.files.any fun file => strcmp file.path file.path = 0 then (0, openFiles)
  else if modules.any fun module => strcmp path module.path = 0 then
    let openFiles := openFiles.pushBack ⟨path⟩ fresh
    (openFiles.handle (openFiles.files.length - 1), openFiles)
  else (0, openFiles)

def closeFile (openFiles : OpenFiles) (file : U64) : OpenFiles :=
  match openFiles.indexOf file with
  | some index => { openFiles with files := openFiles.files.eraseIdx index }
  | none => openFiles

/-! ### Reading -/

/-- The loop of `read` over the modules: the last one of that path, or a null pointer and
length 0. -/
def findModule (modules : List Module) (path : CString) : U64 × U64 :=
  modules.foldl
    (fun found module =>
      if strcmp path module.path = 0 then (module.address, module.size) else found)
    (0, 0)

/-- The assignments to `size`. -/
def clampedSize (fileLength size offset : U64) : U64 :=
  if size + offset ≥ fileLength then
    if size > fileLength then fileLength else size - offset
  else size

def bytesToRead (fileLength size offset : U64) : U64 :=
  if offset ≥ fileLength then 0
  else
    let size := clampedSize fileLength size offset
    if size + offset ≤ fileLength then size else fileLength - offset

/-- What a read returns and leaves, and the bytes of source and destination it touches. -/
structure ReadOutcome where
  returned : U64
  mem : Memory
  sources : List U64
  targets : List U64

def read (mem : Memory) (modules : List Module) (file : OpenFile) (buffer size offset : U64) :
    ReadOutcome :=
  let (fileData, fileLength) := findModule modules file.path
  let count := bytesToRead fileLength size offset
  { returned := count
    mem := memcpy mem buffer (fileData + offset) count.toNat
    sources := spanFrom (fileData + offset) count.toNat
    targets := spanFrom buffer count.toNat }

end KittyOs.VkfsModel
