import KernelModules.Base.Rmw
import Mathlib.Algebra.BigOperators.Group.List.Basic
import Mathlib.Data.BitVec

/-!
# The running sum of `debugfs_basic.c`

Writes to the file `add` go through `add_write`, which adds the number to the global `sum`; the file
`sum` shows it. Nothing but the mutex of the open file orders the writes, so `sum += value` of two
open files may overlap, and the load and the store of it are two steps.
-/

namespace KernelModules.Debugfs

/-- The new value of `sum`, a `u32`, after `sum += value` with a `u64` (C `add_write`). -/
def addWrite (sum : BitVec 32) (value : BitVec 64) : BitVec 32 :=
  (sum.setWidth 64 + value).setWidth 32

/-- `sum`, the writes in progress, one for each open file, and the values that have been added. -/
abbrev Files := Rmw.State (BitVec 32) (BitVec 64)

/-- The module after `my_debugfs_init`: `sum` is 0. -/
def Files.init : Files := .start 0

/-- An open file loads `sum` for its write, or stores the result. -/
def step : Files → Rmw.Event (BitVec 64) → Option Files := Rmw.step addWrite

/-- The sum of the values as a `u32`. -/
def total (values : List (BitVec 64)) : BitVec 32 := (values.map (·.setWidth 32)).sum

/-- A write adds the low 32 bits of its value. -/
lemma addWrite_eq (sum : BitVec 32) (value : BitVec 64) :
    addWrite sum value = sum + value.setWidth 32 := by
  rw [addWrite, BitVec.setWidth_add _ _ (by decide), BitVec.setWidth_setWidth_of_le _ (by decide),
    BitVec.setWidth_eq]

/-- Writes one after the other add their total. -/
lemma foldl_addWrite (sum : BitVec 32) (values : List (BitVec 64)) :
    values.foldl addWrite sum = sum + total values := by
  induction values generalizing sum with
  | nil => exact (add_zero sum).symm
  | cons value values ih =>
    rw [List.foldl_cons, ih, addWrite_eq, add_assoc]
    rfl

/-- From 0 on they make their total. -/
lemma foldl_addWrite_init (values : List (BitVec 64)) : values.foldl addWrite 0 = total values := by
  rw [foldl_addWrite, zero_add]

/-- After the writes `values`, in the order of their stores, the file `sum` can show the totals of
    those sublists of `values` that have its last write, and nothing else. -/
theorem sum_shows (values : List (BitVec 64)) (v : BitVec 32) :
    (∃ es s, run step Files.init es = some s ∧ s.done = values ∧ s.shared = v) ↔
      ∃ counted : List (BitVec 64),
        counted.Sublist values ∧ counted.getLast? = values.getLast? ∧ v = total counted := by
  rw [step, Files.init, Rmw.shared_iff]
  simp only [foldl_addWrite_init]

/-- Writes that do not overlap all count. -/
theorem sum_of_serial {es s} (alone : Admits Rmw.Alone step Files.init es)
    (go : run step Files.init es = some s) :
    s.shared = total s.done := by
  rw [← foldl_addWrite_init]
  exact Rmw.shared_of_serial alone go

end KernelModules.Debugfs
