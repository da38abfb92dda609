import KernelModules.Kernel

/-!
# The attributes `foo` and `id` of the sysfs example

Model of `foo_store`, `foo_show` and `id_store` of `sysfs_example.c`. The attribute `foo` is a page
of memory, `my_page_buffer`, that `my_sysfs_init` gets from `kmalloc`, with whatever it holds.
`PAGE_SIZE` is the parameter `n`. Each function of `foo` holds `my_rwlock` and is one step.

`my_sysfs_init` and `my_sysfs_exit` are cut into steps at their kernel calls (`Pc`), between which
the attribute can be accessed; what a call answers is part of the event. An access to a page that
has been freed touches memory that is not part of the model.

C → Lean naming: `foo_store` → `fooStore`, `foo_show` → `fooShow`, `id_store` → `idStore`,
`my_sysfs_init` → the events `kmalloc` to `kobjectPut`, `my_sysfs_exit` → the events `exitKfree` and
`exitKobjectPut`.
-/

namespace KernelModules.SysfsExample

variable {n : Nat}

/-- A store of the bytes `buf` (C `foo_store`): the page and the value returned. -/
def fooStore (page : Buf UInt8 n) (buf : List UInt8) : Buf UInt8 n × Nat :=
  (strncpy page buf buf.length, buf.length)

/-- What is shown (C `foo_show`). -/
def fooShow (page : Buf UInt8 n) : Option (List UInt8) := sprintfLine page

/-- The word "ritsz". -/
def ritsz : List UInt8 := [114, 105, 116, 115, 122]

/-- A store to `id` (C `id_store`): `kern_buff` and the value returned. -/
def idStore (kernBuff : Buf UInt8 128) (buf : List UInt8) : Option (Buf UInt8 128 × Int) := do
  let kernBuff ← sscanfWord buf kernBuff
  some (kernBuff, if cstring kernBuff.toList ≠ ritsz then eInval else buf.length)

/-! ## Loading and unloading -/

/-- How far `my_sysfs_init` and `my_sysfs_exit` are. -/
inductive Pc where
  | kmalloc                   -- before `kmalloc`
  | createKobject             -- before `kobject_create_and_add`
  | createGroup               -- before `sysfs_create_group`
  | putKobject (retval : Int) -- before the `kobject_put` of `my_sysfs_init`
  | failed (retval : Int)     -- `my_sysfs_init` has returned an error
  | loaded                    -- `my_sysfs_init` has returned 0
  | exitPut                   -- before the `kobject_put` of `my_sysfs_exit`
  | unloaded                  -- `my_sysfs_exit` has finished
  deriving Repr, DecidableEq

/-- The page behind `my_page_buffer` while it is allocated, whether the module holds
    `my_sysfs_kobj`, and whether the files of `attr_group` exist. -/
structure Module (n : Nat) where
  page : Option (Buf UInt8 n)
  kobj : Bool
  group : Bool
  pc : Pc

/-- The module when it is inserted. -/
def Module.boot (n : Nat) : Module n := ⟨none, false, false, .kmalloc⟩

/-- What can happen. -/
inductive Event (n : Nat) where
  | kmalloc (ans : Option (Buf UInt8 n))  -- my_page_buffer = kmalloc(PAGE_SIZE)
  | kobjectCreateAndAdd (ok : Bool)       -- my_sysfs_kobj = kobject_create_and_add("my_sysfs")
  | sysfsCreateGroup (retval : Int)       -- retval = sysfs_create_group(my_sysfs_kobj, &attr_group)
  | kobjectPut                            -- kobject_put(my_sysfs_kobj); return retval
  | exitKfree                             -- kfree(my_page_buffer)
  | exitKobjectPut                        -- kobject_put(my_sysfs_kobj), which removes the files
  | fooShow
  | fooStore (buf : List UInt8)

/-- One step. -/
def step (s : Module n) : Event n → Option (Module n)
  | .kmalloc ans =>
    if s.pc = .kmalloc then
      some { s with page := ans, pc := if ans = none then .failed eNoMem else .createKobject }
    else none
  | .kobjectCreateAndAdd ok =>
    if s.pc = .createKobject then
      some { s with kobj := ok, pc := if ok then .createGroup else .failed eNoMem }
    else none
  | .sysfsCreateGroup retval =>
    if s.pc = .createGroup then
      some { s with group := retval = 0, pc := if retval = 0 then .loaded else .putKobject retval }
    else none
  | .kobjectPut =>
    match s.pc with
    | .putKobject retval => some { s with kobj := false, pc := .failed retval }
    | _ => none
  | .exitKfree => if s.pc = .loaded then some { s with page := none, pc := .exitPut } else none
  | .exitKobjectPut =>
    if s.pc = .exitPut then some { s with kobj := false, group := false, pc := .unloaded } else none
  | .fooShow => if s.group then some s else none
  | .fooStore buf =>
    if s.group then
      some { s with page := s.page.map fun page => (SysfsExample.fooStore page buf).1 }
    else none

end KernelModules.SysfsExample
