import Mathlib.Tactic.Common
import Mathlib.Algebra.Ring.Nat

/-!
# Sums of decimal numbers in a text

The numbers of a text are its maximal runs of digits. A run is closed when a byte that is not a
digit follows it. `runSum` adds up the closed runs; a text is cut at the other bytes, so that
neighbouring ones enclose an empty run, whose value is 0.

* `runSum_append`: a separator splits the sum. `digitSum_eq`: the sum of all runs has the value of
  the run at the end in addition (`openRun`).
* `runValues`: the values of the closed runs in one pass from left to right, with the value `n` of
  the run that is open. `sum_runValues` says that from 0 on they add up to `runSum`.
-/

namespace KernelModules

/-- Whether a byte is one of the characters `0` to `9`. -/
def isDigit (b : UInt8) : Bool := 48 ≤ b && b ≤ 57

/-- The number that digits make behind the number `n`. -/
def decimalFrom (n : Nat) (ds : List UInt8) : Nat := ds.foldl (fun n d => n * 10 + (d.toNat - 48)) n

/-- The number that digits make. -/
def decimal (ds : List UInt8) : Nat := decimalFrom 0 ds

/-- The runs of digits, one between any two neighbouring separators. -/
def digitRuns (bs : List UInt8) : List (List UInt8) := bs.splitOnP fun b => !isDigit b

/-- The sum of all runs. -/
def digitSum (bs : List UInt8) : Nat := ((digitRuns bs).map decimal).sum

/-- The sum of the closed runs. -/
def runSum (bs : List UInt8) : Nat := ((digitRuns bs).dropLast.map decimal).sum

/-- There is always a run, at least an empty one. -/
lemma digitRuns_ne_nil (bs : List UInt8) : digitRuns bs ≠ [] := List.splitOnP_ne_nil _ bs

/-- The run at the end, which nothing closes; it is empty when the text does not end in a digit. -/
def openRun (bs : List UInt8) : List UInt8 := (digitRuns bs).getLast (digitRuns_ne_nil bs)

/-- The sum of all runs is that of the closed ones and the open one. -/
lemma digitSum_eq (bs : List UInt8) : digitSum bs = runSum bs + decimal (openRun bs) := by
  rw [digitSum, ← List.dropLast_concat_getLast (digitRuns_ne_nil bs), List.map_append,
    List.sum_append, List.map_singleton, List.sum_singleton]
  rfl

/-- A separator closes the runs in front of it. -/
lemma runSum_append {xs ys : List UInt8} {sep} (no : isDigit sep = false) :
    runSum (xs ++ sep :: ys) = digitSum xs + runSum ys := by
  have split : digitRuns (xs ++ sep :: ys) = digitRuns xs ++ digitRuns ys :=
    List.splitOnP_append_cons xs ys (by simp [no])
  rw [runSum, split, List.dropLast_append_of_ne_nil (digitRuns_ne_nil ys), List.map_append,
    List.sum_append]
  rfl

/-- The values of the closed runs, when `n` is the value of the run that is open at the
    beginning. -/
def runValues (n : Nat) : List UInt8 → List Nat
  | [] => []
  | b :: bs => if isDigit b then runValues (n * 10 + (b.toNat - 48)) bs else n :: runValues 0 bs

/-- The first run goes on with the number in front, the last one is not closed. -/
lemma runValues_eq {n : Nat} {bs : List UInt8} {first rest} (e : digitRuns bs = first :: rest) :
    runValues n bs = (decimalFrom n first :: rest.map decimal).dropLast := by
  induction bs generalizing n first rest with
  | nil =>
    cases e
    rfl
  | cons b bs ih =>
    obtain ⟨first', rest', e'⟩ := List.exists_cons_of_ne_nil (digitRuns_ne_nil bs)
    rw [digitRuns, List.splitOnP_cons_eq_if_modifyHead,
      show bs.splitOnP (fun b => !isDigit b) = first' :: rest' from e'] at e
    rw [runValues]
    cases digit : isDigit b with
    | true =>
      rw [digit] at e
      cases e
      exact ih e'
    | false =>
      rw [digit] at e
      cases e
      rw [if_neg nofun, ih e']
      rfl

/-- From 0 on, the values of the closed runs add up to their sum. -/
lemma sum_runValues {bs : List UInt8} : (runValues 0 bs).sum = runSum bs := by
  obtain ⟨first, rest, e⟩ := List.exists_cons_of_ne_nil (digitRuns_ne_nil bs)
  rw [runValues_eq e, runSum, e, List.map_dropLast]
  rfl

/-- Without a digit the sum is 0. -/
lemma runSum_of_no_digit {bs : List UInt8} (no : ∀ b ∈ bs, isDigit b = false) : runSum bs = 0 := by
  rw [← sum_runValues]
  induction bs with
  | nil => rfl
  | cons b bs ih =>
    obtain ⟨here, rest⟩ := List.forall_mem_cons.mp no
    rw [runValues, here, if_neg Bool.false_ne_true, List.sum_cons, ih rest]

end KernelModules
