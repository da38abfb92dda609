import KernelModules.Kernel

/-!
# The VRAM device

Model of `hardware_map.c`. Its handlers `my_read` and `my_write` move bytes one at a time between
user space and a mapped window of `VRAM_SIZE` bytes. The arithmetic is that of the C types: `loff_t`
and `size_t` are 64-bit words, the first one signed, and the loop counter is a 32-bit `int`. In
`*off + len > VRAM_SIZE` both sides are converted to an unsigned type, in `*off >= VRAM_SIZE` they
are signed.

The window is plain memory: `ioread8` and `iowrite8` have no result outside of it. Whether a copy of
one byte from or to user space succeeds is an argument (`user`, `ok`), by the index in the user's
buffer. The loops bound the number of their iterations by one more than the size of the window; a
call that would go on has no result.

`vram_init` and `vram_exit` are given by the resources they acquire and release (`Call`). What the
five kernel calls of `vram_init` answer is an argument (`Outcomes`): `ioremap` fails with `NULL`,
`class_create` and `device_create` with an error pointer, the other two with a negative error
number.

C → Lean naming: `my_read` / `my_write` → `myRead` / `myWrite`, their loops → `readLoop` /
`writeLoop`, `vram_init` → `vramInit`, `vram_exit` → `vramExit`.
-/

namespace KernelModules.Vram

/-- `VRAM_SIZE` -/
def vramSize : Nat := 0x20000

/-- The mapped window. -/
abbrev Window := Buf UInt8 vramSize

/-- Reads a byte of the window (C `ioread8`). -/
def ioread8 (vram : Window) (i : Int) : Option UInt8 :=
  if 0 ≤ i then vram.toList[i.toNat]? else none

/-- Writes a byte of the window (C `iowrite8`). -/
def iowrite8 (vram : Window) (byte : UInt8) (i : Int) : Option Window :=
  if 0 ≤ i ∧ i < vramSize then some (vram.poke i byte) else none

/-- The lengths that both handlers work with: nothing behind the end of the window, and otherwise
    the length asked for, clamped to the end. -/
def clamp (off len : BitVec 64) : Option (BitVec 64) :=
  if off.toInt ≥ vramSize then none
  else if (off + len).toNat > vramSize then some (BitVec.ofNat 64 vramSize - off)
  else some len

/-- The loop of `my_read`: the bytes delivered, and whether every copy succeeded. -/
def readLoop (vram : Window) (off len : BitVec 64) (ok : Nat → Bool) :
    Nat → BitVec 32 → List UInt8 → Option (List UInt8 × Bool)
  | 0, _, _ => none
  | fuel + 1, i, out =>
    if (i.signExtend 64).toNat < len.toNat then do
      let byte ← ioread8 vram (off.toInt + i.toInt)
      if ok i.toNat then readLoop vram off len ok fuel (i + 1) (out ++ [byte])
      else some (out, false)
    else some (out, true)

/-- Reads (C `my_read`): the bytes delivered, the new `*off` and the value returned. -/
def myRead (vram : Window) (ok : Nat → Bool) (len off : BitVec 64) :
    Option (List UInt8 × BitVec 64 × Int) :=
  match clamp off len with
  | none => some ([], off, 0)
  | some len => do
    let (out, done) ← readLoop vram off len ok (vramSize + 1) 0 []
    some (if done then (out, off + len, len.toInt) else (out, off, eFault))

/-- The loop of `my_write`: the window, and whether every copy succeeded. -/
def writeLoop (user : Nat → Option UInt8) (off len : BitVec 64) :
    Nat → BitVec 32 → Window → Option (Window × Bool)
  | 0, _, _ => none
  | fuel + 1, i, vram =>
    if (i.signExtend 64).toNat < len.toNat then
      match user i.toNat with
      | none => some (vram, false)
      | some byte => do
        let vram' ← iowrite8 vram byte (off.toInt + i.toInt)
        writeLoop user off len fuel (i + 1) vram'
    else some (vram, true)

/-- Writes (C `my_write`): the window, the new `*off` and the value returned. -/
def myWrite (vram : Window) (user : Nat → Option UInt8) (len off : BitVec 64) :
    Option (Window × BitVec 64 × Int) :=
  match clamp off len with
  | none => some (vram, off, 0)
  | some len => do
    let (vram', done) ← writeLoop user off len (vramSize + 1) 0 vram
    some (if done then (vram', off + len, len.toInt) else (vram', off, eFault))

/-! ## Loading and unloading -/

/-- What the driver acquires. -/
inductive Resource where
  | mapping        -- ioremap, iounmap
  | region         -- alloc_chrdev_region, unregister_chrdev_region
  | deviceClass    -- class_create, class_destroy
  | device         -- device_create, device_destroy
  | cdev           -- cdev_add, cdev_del
  deriving Repr, DecidableEq

/-- A call that has acquired a resource, or one that releases it. -/
inductive Call where
  | acquire (r : Resource)
  | release (r : Resource)
  deriving Repr, DecidableEq

/-- An error number. -/
structure Errno where
  val : Nat
  pos : 1 ≤ val
  le : val ≤ 4095
  deriving Repr, DecidableEq

/-- A pointer that a kernel function returns. -/
inductive Ptr where
  | null
  | object
  | errPtr (e : Errno)
  deriving Repr, DecidableEq

/-- Whether a call succeeds, or the error it fails with. -/
abbrev Outcome := Option Errno

/-- The `int` that a call returns. -/
def Outcome.toInt : Outcome → Int
  | none => 0
  | some e => -e.val

/-- The pointer that a call returns. -/
def Outcome.toPtr : Outcome → Ptr
  | none => .object
  | some e => .errPtr e

/-- What a call acquires. -/
def Outcome.acquired (o : Outcome) (r : Resource) : List Call :=
  if o = none then [.acquire r] else []

/-- The answers of the kernel during a load. -/
structure Outcomes where
  ioremap : Bool
  allocChrdevRegion : Outcome
  classCreate : Outcome
  deviceCreate : Outcome
  cdevAdd : Outcome
  deriving Repr, DecidableEq

/-- Loads the driver (C `vram_init`): the resources acquired and released, and the value
    returned. -/
def vramInit (o : Outcomes) : List Call × Int :=
  if (if o.ioremap then Ptr.object else Ptr.null) = .null then ([], -1) else
    let log := [.acquire .mapping]
    if o.allocChrdevRegion.toInt < 0 then (log, -1) else
    let log := log ++ [.acquire .region]
    if o.classCreate.toPtr = .null then (log ++ [.release .region], -1) else
    let log := log ++ o.classCreate.acquired .deviceClass
    if o.deviceCreate.toPtr = .null then
      (log ++ [.release .deviceClass, .release .region], -1) else
    let log := log ++ o.deviceCreate.acquired .device
    if o.cdevAdd.toInt = -1 then
      (log ++ [.release .device, .release .deviceClass, .release .region], -1) else
    (log ++ o.cdevAdd.acquired .cdev, 0)

/-- Unloads the driver (C `vram_exit`). -/
def vramExit : List Call :=
  [.release .cdev, .release .device, .release .deviceClass, .release .region, .release .mapping]

end KernelModules.Vram
