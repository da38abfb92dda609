import Mathlib.Tactic.Common

/-!
# The one-byte memory device

Model of `memory_read` and `memory_write` of `chardev_fops.c`. The device is the byte that
`memory_buffer` points to; `memory_init` sets it to 0. `memory_read` copies it to the user whatever
the count and the position are. `memory_write` takes the byte at the end of the user's buffer, at
the index `count - 1`, and reports one byte consumed.

The user's buffer is a function of the index, `none` where it cannot be accessed. The results of
`copy_to_user` and `copy_from_user` are ignored; a byte that `copy_from_user` cannot read becomes 0.

C → Lean naming: `memory_read` → `memoryRead`, `memory_write` → `memoryWrite`.
-/

namespace KernelModules.Chardev

/-- What a read gives back: the byte that reaches the user, the new `*f_pos` and the value
    returned. -/
structure Read where
  delivered : Option UInt8
  fPos : Int
  ret : Int
  deriving Repr, DecidableEq

/-- A read (C `memory_read`); `ok` says whether the user's buffer can be written. -/
def memoryRead (mem : UInt8) (ok : Bool) (_count : Nat) (fPos : Int) : Read :=
  let delivered := if ok then some mem else none
  if fPos = 0 then ⟨delivered, fPos + 1, 1⟩ else ⟨delivered, fPos, 0⟩

/-- A write (C `memory_write`): the byte stored and the value returned. -/
def memoryWrite (user : Int → Option UInt8) (count : Nat) : UInt8 × Int :=
  ((user ((count : Int) - 1)).getD 0, 1)

end KernelModules.Chardev
