import KernelModules.Kernel

/-!
# The modules that read a file: `vfs_basic.c` and `read_write_vfs.c`

Both open `/etc/shadow` when they are loaded, read up to 256 bytes of it into a buffer on the stack
and print the buffer as a string. `vfs_basic.c` keeps the file open until it is unloaded;
`read_write_vfs.c` closes it at once.

`Kernel` has what the two functions of a module share with the rest: the address limit of the task
that loads and unloads, the number of files that are open, and the log. `filpOpen` returns an error
pointer when it fails, never `NULL`; `filpClose` and a read of a pointer that is not a file have no
result (`none`), as the string of a buffer without a NUL has none. A read copies to a kernel
address, which the address limit `USER_DS` does not allow.

C → Lean naming: `file_open` / `file_close` / `file_read` → `fileOpen` / `fileClose` / `fileRead`,
`file_init` / `file_exit` → `VfsBasic.fileInit` / `VfsBasic.fileExit`, `init_module` /
`cleanup_module` → `ReadWriteVfs.initModule` / `ReadWriteVfs.cleanupModule`, `mm_segment_t` →
`MmSegment`.
-/

namespace KernelModules.Vfs

/-- C `mm_segment_t` -/
inductive MmSegment where
  | userDs
  | kernelDs
  deriving Repr, DecidableEq

/-- A pointer to a `struct file`. -/
inductive Filp where
  | null
  | err (e : Int)
  | file
  deriving Repr, DecidableEq

/-- A line of the log. -/
inductive Line where
  | errorInOpening                  -- "Error in opening the file"
  | openedWithoutIssue              -- "File opened without any issue"
  | myModuleIsLoaded                -- "My module is loaded"
  | filpOpenError                   -- "filp_open error!!."
  | myModuleIsUnloaded              -- "My module is unloaded"
  | text (str : List UInt8)         -- the string in the buffer
  deriving Repr, DecidableEq

/-- The address limit of the task, the number of open files, and the log. -/
structure Kernel where
  fs : MmSegment
  files : Nat
  log : List Line
  deriving Repr, DecidableEq

/-- The file system while a module is loaded: the error of the open, what is in the file, and the
    answer to the read, an error or the number of bytes that it delivers at most. -/
structure Disk where
  opening : Option Int
  content : List UInt8
  reading : Except Int Nat

/-- `sizeof(buf)` -/
def bufSize : Nat := 256

/-- C `get_ds` -/
def getDs : MmSegment := .kernelDs

namespace Kernel

/-- C `set_fs` -/
def setFs (k : Kernel) (fs : MmSegment) : Kernel := { k with fs }

/-- C `printk` -/
def print (k : Kernel) (line : Line) : Kernel := { k with log := k.log ++ [line] }

/-- C `filp_open` -/
def filpOpen (k : Kernel) (disk : Disk) : Filp × Kernel :=
  match disk.opening with
  | some e => (.err e, k)
  | none => (.file, { k with files := k.files + 1 })

/-- C `filp_close` -/
def filpClose (k : Kernel) : Filp → Option Kernel
  | .file => some { k with files := k.files - 1 }
  | _ => none

/-- The read of a file (C `vfs_read`): the buffer, the offset and the result. -/
def vfsRead {n : Nat} (k : Kernel) (disk : Disk) (filp : Filp) (buf : Buf UInt8 n)
    (size off : Nat) :
    Option (Buf UInt8 n × Nat × Int) :=
  match filp, k.fs, disk.reading with
  | .file, .userDs, _ => some (buf, off, eFault)
  | .file, .kernelDs, .error e => some (buf, off, e)
  | .file, .kernelDs, .ok most =>
    let bytes := slice disk.content off (off + min size most)
    some (buf.overlay 0 bytes, off + bytes.length, (bytes.length : Int))
  | _, _, _ => none

/-- The string in a buffer, for `"%s"`. Without a NUL it is read beyond the buffer. -/
def printString {n : Nat} (k : Kernel) (buf : Buf UInt8 n) : Option Kernel :=
  if 0 ∈ buf.toList then some (k.print (.text (cstring buf.toList))) else none

end Kernel

/-! ## `vfs_basic.c` -/

namespace VfsBasic

/-- C `file_open` -/
def fileOpen (k : Kernel) (disk : Disk) : Filp × Kernel :=
  let oldfs := k.fs
  let (filp, k) := (k.setFs getDs).filpOpen disk
  let k := k.setFs oldfs
  match filp with
  | .err _ => (.null, k)
  | filp => (filp, k)

/-- C `file_close` -/
def fileClose (k : Kernel) (filp : Filp) : Option Kernel := k.filpClose filp

/-- C `file_read` -/
def fileRead {n : Nat} (k : Kernel) (disk : Disk) (filp : Filp) (off : Nat) (buf : Buf UInt8 n)
    (size : Nat) :
    Option (Kernel × Buf UInt8 n × Int) := do
  let oldfs := k.fs
  let k := k.setFs getDs
  let (buf, _, ret) ← k.vfsRead disk filp buf size off
  some (k.setFs oldfs, buf, ret)

/-- The load (C `file_init`), which never fails: `open_file`, and the kernel. `buffer` has what was
    on the stack. -/
def fileInit (k : Kernel) (disk : Disk) (buffer : Buf UInt8 bufSize) : Option (Filp × Kernel) :=
  let (openFile, k) := fileOpen k disk
  if openFile = .null then some (openFile, k.print .errorInOpening)
  else do
    let k := k.print .openedWithoutIssue
    let (k, buffer, _) ← fileRead k disk openFile 0 buffer bufSize
    let k ← k.printString buffer
    some (openFile, k)

/-- The unload (C `file_exit`). -/
def fileExit (k : Kernel) (openFile : Filp) : Option Kernel := fileClose k openFile

/-- The module: whether it is loaded, and `open_file`. -/
structure State where
  kernel : Kernel
  loaded : Bool
  openFile : Filp

/-- Nothing has been loaded. -/
def State.boot : State := ⟨⟨.userDs, 0, []⟩, false, .null⟩

/-- What `insmod` and `rmmod` can ask for. -/
inductive Event where
  | load (disk : Disk) (stack : Buf UInt8 bufSize)
  | unload

/-- A load or an unload. A load of a loaded module is refused, and so is an unload of one that is
    not. -/
def step (s : State) : Event → Option State
  | .load disk stack =>
    if s.loaded then some s
    else (fileInit s.kernel disk stack).map fun (openFile, k) => ⟨k, true, openFile⟩
  | .unload =>
    if s.loaded then
      (fileExit s.kernel s.openFile).map fun k => { s with kernel := k, loaded := false }
    else some s

end VfsBasic

/-! ## `read_write_vfs.c` -/

namespace ReadWriteVfs

/-- The load (C `init_module`), which never fails. -/
def initModule (k : Kernel) (disk : Disk) : Option Kernel := do
  let buf : Buf UInt8 bufSize := .filled bufSize 0
  let k := k.print .myModuleIsLoaded
  let (f, k) := k.filpOpen disk
  let k ←
    if f = .null then some (k.print .filpOpenError)
    else do
      let fs := k.fs
      let k := k.setFs getDs
      let (buf, _, _) ← k.vfsRead disk f buf bufSize 0
      (k.setFs fs).printString buf
  k.filpClose f

/-- The unload (C `cleanup_module`). -/
def cleanupModule (k : Kernel) : Kernel := k.print .myModuleIsUnloaded

/-- The module: whether it is loaded. -/
structure State where
  kernel : Kernel
  loaded : Bool

/-- Nothing has been loaded. -/
def State.boot : State := ⟨⟨.userDs, 0, []⟩, false⟩

/-- What `insmod` and `rmmod` can ask for. -/
inductive Event where
  | load (disk : Disk)
  | unload

/-- A load or an unload. -/
def step (s : State) : Event → Option State
  | .load disk => if s.loaded then some s else (initModule s.kernel disk).map fun k => ⟨k, true⟩
  | .unload => if s.loaded then some ⟨cleanupModule s.kernel, false⟩ else some s

end ReadWriteVfs

end KernelModules.Vfs
