import KernelModules.Kernel

/-!
# The write handlers of the misc device and of the procfs file

Model of `my_write` of `misc_char_dev.c` and of `procfs.c`. Both copy the written bytes into a
static buffer `kern_buff` with `simple_write_to_buffer`, store a NUL at the index that this call
returns, and compare the buffer with a word. The common part is `writeHandler`, in the two steps
that an unlock separates in the misc device: the copy with the terminator (`copyIn`) and the
comparison (`verdict`).

C → Lean naming: `my_write` → `MiscCharDev.myWrite` and `Procfs.myWrite`, `kern_buff` →
`File.kernBuff`, `*off` → `File.off`.
-/

namespace KernelModules

namespace KernBuff

/-- A static buffer and the position of an open file. -/
structure File (n : Nat) where
  kernBuff : Buf UInt8 n
  off : Nat

variable {n : Nat}

/-- The first step of a write: the copy, and `kern_buff[ret] = '\0'`. -/
def copyIn (f : File n) (src : List UInt8) (left : Nat) : File n × Int :=
  let (buf, off, ret) := simpleWriteToBuffer f.kernBuff f.off src left
  (⟨buf.poke ret 0, off⟩, ret)

/-- The second step of a write: `strcmp(kern_buff, word)`, and the value returned. -/
def verdict (word : List UInt8) (buf : Buf UInt8 n) (ret : Int) : Int :=
  if cstring buf.toList ≠ cstring word then eInval else ret

/-- A write handler for a buffer of `n` bytes. -/
def writeHandler (word : List UInt8) (f : File n) (src : List UInt8) (left : Nat) : File n × Int :=
  let (f', ret) := copyIn f src left
  (f', verdict word f'.kernBuff ret)

end KernBuff

/-- The string literal `"linux"`. -/
def linux : List UInt8 := [108, 105, 110, 117, 120]

namespace MiscCharDev

/-- `MAXBUFF` -/
def maxBuff : Nat := 128

/-- The write handler of the misc device (C `my_write`). -/
def myWrite : KernBuff.File maxBuff → List UInt8 → Nat → KernBuff.File maxBuff × Int :=
  KernBuff.writeHandler linux

end MiscCharDev

namespace Procfs

/-- `MAXBUFF` -/
def maxBuff : Nat := 128

/-- The write handler of the procfs file (C `my_write`). -/
def myWrite : KernBuff.File maxBuff → List UInt8 → Nat → KernBuff.File maxBuff × Int :=
  KernBuff.writeHandler linux

end Procfs

end KernelModules
