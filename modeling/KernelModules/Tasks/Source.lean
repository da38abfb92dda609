import KernelModules.Base.Heap
import KernelModules.Base.Ring

/-!
# Walks over the task list

Model of the task iterator of `seq_file_procfs.c` and of the process walk of `thread_tree.c`. The
tasks (C `struct task_struct`) live in a heap that nobody changes. They are linked by lists without
an end marker: all tasks by `tasks`, and the children of a task by `sibling`, starting and ending at
the `children` of their parent. A pointer to the `tasks` of a task is the address of the task, since
`container_of` leads from one to the other. A pointer to one of the other two members is a
`ListHead`. An access through `NULL` or to an address that holds no task has no result (`none`).

The cursor of the iterator is a pointer to the `tasks` of a task, and `my_show` prints the task that
the cursor's link leads to. `*pos` is neither read nor written.

`hello_init` logs a few lines for each task (`Line`, one constructor for each format).
`list_for_each_entry` is the loop `forLoop`, and the `do` loop of `hello_init` is `doLoop`; both are
given one more iteration than there are tasks.

C → Lean naming: `my_start` / `my_next` / `my_show` → `myStart` / `myNext` / `myShow`, `next_task` →
`nextTask`, `list_for_each_entry` → `listForEachEntry`, `hello_init` → `helloInit`.
-/

namespace KernelModules.Tasks

/-- A pointer to a list head inside a task: its `children` or its `sibling`. -/
inductive ListHead where
  | children (l : Loc)
  | sibling (l : Loc)
  deriving Repr, DecidableEq

/-- What `task->stack` points to: the address, and the `pid` and `comm` of the task that it
    names. -/
structure ThreadInfo where
  addr : BitVec 64
  pid : BitVec 32
  comm : List Char
  deriving Repr, DecidableEq

/-- C `struct sched_info` -/
structure SchedInfo where
  pcount : BitVec 64
  runDelay : BitVec 64
  lastArrival : BitVec 64
  lastQueued : BitVec 64
  deriving Repr, DecidableEq

/-- The files of a user task: the inode numbers of `fd_array[0]` and of `fdt->fd[0]`, unless they
    are `NULL`. -/
structure FilesStruct where
  fdArray : Option (BitVec 64)
  fdtFd : Option (BitVec 64)
  deriving Repr, DecidableEq

/-- A task (C `struct task_struct`). A kernel thread has no address space (`mm == NULL`), and a user
    task has `files`. -/
structure Task where
  pid : BitVec 32
  comm : List Char
  tasks : Option Loc
  children : Option ListHead
  sibling : Option ListHead
  stack : ThreadInfo
  nrThreads : BitVec 32
  schedInfo : SchedInfo
  rtTimeout : BitVec 64
  files : Option FilesStruct
  deriving Repr, DecidableEq

variable (h : Heap Task)

/-- The task that the link of a task leads to (C `next_task`). -/
def nextTask (l : Loc) : Option Loc := (h.get l).bind Task.tasks

/-- The tasks of a ring are in memory. -/
lemma exists_task {h : Heap Task} {c : Cycle Loc} (ring : Circular (nextTask h) c) {l}
    (mem : l ∈ c) :
    ∃ t, h.get l = some t := by
  obtain ⟨l', link⟩ := ring.exists_next mem
  obtain ⟨t, get, -⟩ := Option.bind_eq_some_iff.mp link
  exact ⟨t, get⟩

/-! ## The iterator of `seq_file_procfs.c` -/

/-- Starts an iteration at the task that reads (C `my_start`). -/
def myStart (current : Loc) : Option Loc := some current

/-- The cursor behind a cursor (C `my_next`). -/
def myNext (v : Option Loc) : Option (Option Loc) := do
  let l ← v
  let task ← h.get l
  some task.tasks

/-- The task that is shown for a cursor. -/
def shownTask (v : Option Loc) : Option Loc := do
  let l ← v
  nextTask h l

/-- The line `"%u\t:\t%s\n"` of a task. -/
def Task.record (t : Task) : List Char :=
  Nat.toDigits 10 t.pid.toNat ++ "\t:\t".toList ++ t.comm ++ ['\n']

/-- Prints the task behind a cursor (C `my_show`). -/
def myShow (v : Option Loc) : Option (List Char) := do
  let ptr ← shownTask h v
  let task ← h.get ptr
  some task.record

/-! ## The walk of `thread_tree.c` -/

/-- What `hello_init` logs. -/
inductive Line where
  | entering                                                      -- ENTERING THREAD TREE MODULE
  | address (ti : BitVec 64)                                      -- First Check Address %p
  | check (pid : BitVec 32) (comm : List Char)                    -- Check :: %d, %s
  | process (pid : BitVec 32) (comm : List Char) (n : BitVec 32)  -- Process %d : %s has %d threads
  | sched (info : SchedInfo)                                      -- ... %lu time, %llu wait, ...
  | timeout (t : BitVec 64)                                       -- %lu
  | kernelThread                                                  -- KERNEL THREAD
  | userThread                                                    -- USER THREAD
  | firstInode (ino : BitVec 64)                                  -- 1> FD inode : %lu
  | secondInode (ino : BitVec 64)                                 -- 2> FD inode : %lu
  | child (pid : BitVec 32) (comm : List Char)                    -- %d : %s
  deriving Repr, DecidableEq

/-- The lines about the files of a user task. -/
def FilesStruct.lines (files : FilesStruct) : List Line :=
  match files.fdArray, files.fdtFd with
  | some inode, some inode2 => [.firstInode inode, .secondInode inode2]
  | _, _ => []

/-- The lines about a task, up to its children. -/
def Task.lines (t : Task) : List Line :=
  [.address t.stack.addr, .check t.stack.pid t.stack.comm, .process t.pid t.comm t.nrThreads,
    .sched t.schedInfo, .timeout t.rtTimeout] ++
  match t.files with
  | none => [.kernelThread]
  | some files => .userThread :: files.lines

/-- The list head that a list head leads to. -/
def ListHead.next : ListHead → Option ListHead
  | children l => (h.get l).bind Task.children
  | sibling l => (h.get l).bind Task.sibling

/-- The line about a child. Behind a list head that is not the `sibling` of a task there is none. -/
def visitChild : ListHead → Option (List Line)
  | .sibling l => do
    let child ← h.get l
    some [.child child.pid child.comm]
  | .children _ => none

/-- The loop over the children of a task (C `list_for_each_entry`). -/
def listForEachEntry (l : Loc) : Option (List Line) := do
  let first ← ListHead.next h (.children l)
  forLoop (ListHead.next h) (.children l) (visitChild h) (h.size + 1) first

/-- The body of the loop for a task. -/
def visit (l : Loc) : Option (List Line) := do
  let task ← h.get l
  let kids ← if task.pid = 2 then listForEachEntry h l else some []
  some (task.lines ++ kids)

/-- What `hello_init` logs, from `init_task` on. -/
def helloInit (initTask : Loc) : Option (List Line) := do
  let lines ← doLoop (nextTask h) initTask (visit h) (h.size + 1) initTask
  some (.entering :: lines)

end KernelModules.Tasks
