import KernelModules.Base.Setup

/-!
# The init and exit functions of the modules

Most modules acquire a few resources when they are loaded. Their init functions differ in what they
create, in what they return when a call fails, and in what they give back then; here each of them is
a `Setup.Driver` with its own values. A call that answers with a pointer fails with `NULL`, whatever
the reason is; the others fail with an error number, and the module returns its own error or the one
of the call.

* `procexample_module_init` / `procexample_module_exit` of `procfs.c` and of `seq_file_procfs.c`: a
  directory and a file in it. `init_simacc` / `cleanup_simacc` of `file_proc.c`: one file.
* `memory_init` / `memory_exit` of `chardev_fops.c`: the major number 60, and the buffer. The error
  path calls `memory_exit`, which finds no buffer to free.
* `example_init` / `example_exit` of `kobjects.c`: the directory, and the attribute group in it.
  `kobject_put` removes the directory with its files.
* `task1_init` / `task1_exit` of `misc_char_dev.c`, and `keybrd_int_register` /
  `keybrd_int_unregister` of `keyboard_interrupt.c`: one call each.
* `my_debugfs_init` / `module_cleanup` of `debugfs_basic.c` and `jiffies_init` / `jiffies_exit` of
  `debugfs_jiffies.c`: a directory and the files in it. The error paths give nothing back; the exit
  functions remove the directory with its files.
-/

namespace KernelModules.Lifecycle

open Setup

/-- What the modules create. -/
inductive Resource where
  | procExample          -- the directory /proc/example
  | procFirst            -- the file first in it
  | procSeqProc          -- the file seq_proc in it
  | procSimacc           -- the file /proc/simacc
  | chrdevMemory         -- the character device with the major number 60
  | memoryBuffer
  | kobjectExample       -- the directory /sys/kernel/kobject_example
  | attrGroup            -- the files foo, baz and bar in it
  | miscRitsz            -- the misc device ritsz
  | keyboardIrq          -- the handler of the interrupt 1
  | debugfsBasics        -- the directory basics of the debugfs
  | debugfsAdd           -- the file add in it
  | debugfsSum           -- the file sum in it
  | debugfsMyTime        -- the directory my_time of the debugfs
  | debugfsTime          -- the file time in it
  deriving Repr, DecidableEq

/-- `-ENOMEM` -/
def eNoMem : Errno := ⟨-12, by decide⟩

/-- `-ENODEV` -/
def eNoDev : Errno := ⟨-19, by decide⟩

/-- The value -1. -/
def minusOne : Errno := ⟨-1, by decide⟩

/-- A directory of the procfs with one file. -/
def procexampleModule (file : Resource) : Driver Resource where
  stages := [⟨.procExample, fun _ => eNoMem, []⟩, ⟨file, fun _ => eNoMem, [.procExample]⟩]
  exit := [file, .procExample]

/-- `procfs.c` -/
def procfs : Driver Resource := procexampleModule .procFirst

/-- `seq_file_procfs.c` -/
def seqFileProcfs : Driver Resource := procexampleModule .procSeqProc

/-- `file_proc.c` -/
def simacc : Driver Resource where
  stages := [⟨.procSimacc, fun _ => eNoMem, []⟩]
  exit := [.procSimacc]

/-- `chardev_fops.c` -/
def memory : Driver Resource where
  stages := [⟨.chrdevMemory, id, []⟩, ⟨.memoryBuffer, fun _ => eNoMem, [.chrdevMemory]⟩]
  exit := [.chrdevMemory, .memoryBuffer]

/-- `kobjects.c` -/
def kobjects : Driver Resource where
  stages := [⟨.kobjectExample, fun _ => eNoMem, []⟩, ⟨.attrGroup, id, [.kobjectExample]⟩]
  exit := [.kobjectExample, .attrGroup]

/-- `misc_char_dev.c` -/
def task1 : Driver Resource where
  stages := [⟨.miscRitsz, id, []⟩]
  exit := [.miscRitsz]

/-- `keyboard_interrupt.c` -/
def keybrdInt : Driver Resource where
  stages := [⟨.keyboardIrq, id, []⟩]
  exit := [.keyboardIrq]

/-- `debugfs_basic.c` -/
def myDebugfs : Driver Resource where
  stages := [⟨.debugfsBasics, fun _ => minusOne, []⟩, ⟨.debugfsAdd, fun _ => minusOne, []⟩,
    ⟨.debugfsSum, fun _ => minusOne, []⟩]
  exit := [.debugfsBasics, .debugfsAdd, .debugfsSum]

/-- `debugfs_jiffies.c` -/
def jiffies : Driver Resource where
  stages := [⟨.debugfsMyTime, fun _ => eNoDev, []⟩, ⟨.debugfsTime, fun _ => minusOne, []⟩]
  exit := [.debugfsMyTime, .debugfsTime]

/-! ## Runs of loads and unloads -/

/-- Every module without a debugfs directory gives back what it has acquired: in every run of loads,
    with any failing calls, and unloads, it holds all its resources while it is loaded and nothing
    otherwise, and every load returns the error of its first failing call. -/
theorem resources_given_back {d es s}
    (mem : d ∈ [procfs, seqFileProcfs, simacc, memory, kobjects, task1, keybrdInt])
    (go : run (step d) .boot es = some s) :
    s.held = (if s.loaded then d.resources else []) ∧
    s.returned = es.filterMap (Event.result d) := by
  have unwinds : Unwinds d := by
    simp only [List.mem_cons, List.not_mem_nil, or_false] at mem
    rcases mem with rfl | rfl | rfl | rfl | rfl | rfl | rfl
    all_goals exact ⟨by decide, by decide, by decide⟩
  exact unwinds.run go

/-- A load of the memory device whose allocation fails, and one that succeeds. -/
theorem resources_given_back_memory :
    ∃ s, run (step memory) .boot [.load [none, some eNoMem], .load []] = some s ∧
      s.held = [.chrdevMemory, .memoryBuffer] ∧ s.returned = [some eNoMem, none] := by
  have go : run (step memory) .boot [.load [none, some eNoMem], .load []] =
      some ⟨[.chrdevMemory, .memoryBuffer], true, [some eNoMem, none]⟩ := rfl
  exact ⟨_, go, resources_given_back (List.mem_of_getElem? (i := 3) rfl) go⟩

/-- The modules with a debugfs directory do not: as soon as one load fails behind the creation of
    the directory, which is their first resource, the directory stays for ever with what else was
    created, and the module cannot be loaded any more. Without such a load, they give everything
    back. -/
theorem debugfs_stuck {d es s} (mem : d ∈ [myDebugfs, jiffies])
    (go : run (step d) .boot es = some s) :
    ((∀ e ∈ es, ¬ HalfDone d e) →
      s.held = (if s.loaded then d.resources else []) ∧
      s.returned = es.filterMap (Event.result d)) ∧
    ((∃ e ∈ es, HalfDone d e) → (∃ r, d.resources.head? = some r ∧ r ∈ s.held) ∧ s.loaded = false ∧
      ∀ es' s', run (step d) s es' = some s' → s'.held = s.held ∧ s'.loaded = false) := by
  have abandons : Abandons d := by
    simp only [List.mem_cons, List.not_mem_nil, or_false] at mem
    rcases mem with rfl | rfl
    all_goals exact ⟨by decide, by decide, by decide⟩
  exact abandons.run go

/-- The file `sum` is not created; the second load fails although nothing else does. -/
theorem debugfs_stuck_myDebugfs :
    ∃ s, run (step myDebugfs) .boot [.load [none, none, some eNoMem], .load []] = some s ∧
      s.held = [.debugfsBasics, .debugfsAdd] ∧ s.returned = [some minusOne, some minusOne] ∧
      (∃ r, myDebugfs.resources.head? = some r ∧ r ∈ s.held) ∧
      ∀ es' s', run (step myDebugfs) s es' = some s' → s'.held = s.held ∧ s'.loaded = false := by
  have go : run (step myDebugfs) .boot [.load [none, none, some eNoMem], .load []] =
      some ⟨[.debugfsBasics, .debugfsAdd], false, [some minusOne, some minusOne]⟩ := rfl
  have half : HalfDone myDebugfs (.load [none, none, some eNoMem]) := ⟨rfl, by decide⟩
  obtain ⟨stays, -, ever⟩ := (debugfs_stuck List.mem_cons_self go).2 ⟨_, List.mem_cons_self, half⟩
  exact ⟨_, go, rfl, rfl, stays, ever⟩

end KernelModules.Lifecycle
