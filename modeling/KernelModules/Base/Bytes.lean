import Mathlib.Tactic.Common
import Mathlib.Algebra.Ring.Nat
import Mathlib.Data.List.Basic
import Mathlib.Data.List.TakeWhile

/-!
# Stores into a buffer of fixed size

A buffer is the list of its elements; no store changes its length. A store outside the buffer hits
memory that is not part of it, so the buffer stays as it is.

* `poke`: one element stored at an index, which is an `Int` because an index can be negative.
* `fillDown`: elements stored one by one at the indices a fixed-width counter runs down through, the
  counter read as a signed index. `getElem?_fillDown` says what the buffer holds afterwards.
* `overlay`: a block stored from an offset on. `slice`: the elements of a range.
* `Buf`: a list with the proof of its size, for buffers of a size known in advance.
* `cstring`: the string that starts at the beginning of a buffer. `cstring_eq_iff` compares it with
  a word byte by byte.
-/

namespace KernelModules

variable {α : Type*}

/-- Stores one element. -/
def poke (buf : List α) (i : Int) (a : α) : List α := if 0 ≤ i then buf.set i.toNat a else buf

/-- A store does not change the size. -/
@[simp] lemma length_poke {buf : List α} {i a} : (poke buf i a).length = buf.length := by
  unfold poke
  split
  case isTrue => exact List.length_set
  case isFalse => rfl

/-- What is at an index after a store. -/
lemma getElem?_poke {buf : List α} {i : Int} {a} {j : Nat} (lt : j < buf.length) :
    (poke buf i a)[j]? = if i = j then some a else buf[j]? := by
  unfold poke
  split
  case isTrue nonneg =>
    obtain ⟨k, rfl⟩ := Int.eq_ofNat_of_zero_le nonneg
    rw [Int.toNat_natCast, List.getElem?_set]
    by_cases e : k = j
    · subst e
      simp [lt]
    · rw [if_neg e, if_neg (by omega)]
  case isFalse neg =>
    rw [if_neg (by omega)]

/-- Stores elements one by one, the first at the index `k`, counting down. -/
def fillDown {w : Nat} (buf : List α) (k : BitVec w) : List α → List α
  | [] => buf
  | a :: as => fillDown (poke buf k.toInt a) (k - 1) as

/-- Stores do not change the size. -/
@[simp] lemma length_fillDown {w} {buf : List α} {k : BitVec w} {as} :
    (fillDown buf k as).length = buf.length := by
  induction as generalizing buf k with
  | nil => rfl
  | cons a as ih => rw [fillDown, ih, length_poke]

/-- A counter that does not pass 0 on the way stores the `j`-th element at the index `k - j`, as
    long as that index is not negative as a signed number. -/
lemma getElem?_fillDown {w} {buf : List α} {k : BitVec w} {as} {i : Nat} (lt : i < buf.length)
    (le : as.length ≤ k.toNat) :
    (fillDown buf k as)[i]? =
      if k.toNat < i + as.length ∧ i ≤ k.toNat ∧ 2 * i < 2 ^ w then as[k.toNat - i]?
      else buf[i]? := by
  induction as generalizing buf k with
  | nil =>
    rw [fillDown, List.length_nil, if_neg (by omega)]
  | cons a as ih =>
    have pos : 0 < k.toNat := by
      rw [List.length_cons] at le
      omega
    have w1 : 1 < 2 ^ w := by
      have := k.isLt
      omega
    have pred : (k - 1).toNat = k.toNat - 1 := by
      rw [BitVec.toNat_sub_of_le]
      · rw [show (1 : BitVec w).toNat = 1 % 2 ^ w from BitVec.toNat_ofNat 1 w, Nat.mod_eq_of_lt w1]
      · rw [BitVec.le_def, show (1 : BitVec w).toNat = 1 % 2 ^ w from BitVec.toNat_ofNat 1 w,
          Nat.mod_eq_of_lt w1]
        exact pos
    rw [List.length_cons] at le
    rw [fillDown, ih (by rw [length_poke]; exact lt) (by omega), pred, getElem?_poke lt,
      List.length_cons]
    -- the first element is the only one stored at the index `k`
    by_cases top : i = k.toNat
    · subst top
      rw [if_neg (by omega), Nat.sub_self, List.getElem?_cons_zero]
      by_cases small : 2 * k.toNat < 2 ^ w
      · rw [if_pos (BitVec.toInt_eq_toNat_of_lt small), if_pos (by omega)]
      · rw [if_neg, if_neg (by omega)]
        rw [BitVec.toInt_eq_toNat_cond, if_neg small]
        have := k.isLt
        omega
    · have ne : ¬ k.toInt = (i : Int) := by
        rw [BitVec.toInt_eq_toNat_cond]
        have := k.isLt
        split <;> omega
      rw [if_neg ne]
      by_cases inside : k.toNat < i + (as.length + 1) ∧ i ≤ k.toNat ∧ 2 * i < 2 ^ w
      · rw [if_pos inside, if_pos (by omega), show k.toNat - i = (k.toNat - 1 - i) + 1 by omega,
          List.getElem?_cons_succ]
      · rw [if_neg inside, if_neg (by omega)]

/-- A buffer that is filled from the index behind its end down to index 1. -/
lemma fillDown_all {w} {buf : List α} {k : BitVec w} {as : List α} (size : buf.length = as.length)
    (top : k.toNat = as.length) (fits : 2 * as.length < 2 ^ w) :
    fillDown buf k as = buf.take 1 ++ as.tail.reverse := by
  refine List.ext_getElem? fun i => ?_
  by_cases lt : i < buf.length
  · rw [getElem?_fillDown lt (Nat.le_of_eq top.symm), top]
    cases i with
    | zero =>
      rw [if_neg (by omega), List.getElem?_append_left (by rw [List.length_take]; omega),
        List.getElem?_take_of_lt Nat.one_pos]
    | succ i =>
      have one : (buf.take 1).length = 1 := by
        rw [List.length_take]
        omega
      rw [if_pos (by omega), List.getElem?_append_right (by omega), one, Nat.add_sub_cancel,
        List.getElem?_reverse (by rw [List.length_tail]; omega), List.getElem?_tail,
        List.length_tail]
      congr 1
      omega
  · rw [List.getElem?_eq_none (by rw [length_fillDown]; omega), List.getElem?_eq_none]
    rw [List.length_append, List.length_reverse, List.length_tail, List.length_take]
    omega

/-! ## Blocks -/

/-- Stores a block from an offset on. -/
def overlay (buf : List α) (off : Nat) (bs : List α) : List α :=
  buf.take off ++ bs.take (buf.length - off) ++ buf.drop (off + bs.length)

/-- A copy does not change the size. -/
@[simp] lemma length_overlay {buf : List α} {off bs} :
    (overlay buf off bs).length = buf.length := by
  simp only [overlay, List.length_append, List.length_take, List.length_drop]
  omega

/-- What is at an index after a copy: the bytes copied there, or the old ones. -/
lemma getElem?_overlay {buf : List α} {off bs} {i : Nat} (lt : i < buf.length) :
    (overlay buf off bs)[i]? = if off ≤ i ∧ i < off + bs.length then bs[i - off]? else buf[i]? := by
  simp only [overlay, List.getElem?_append, List.length_append, List.length_take,
    List.getElem?_take, List.getElem?_drop]
  by_cases before : i < off
  · rw [if_pos (by omega), if_pos (by omega), if_pos before, if_neg (by omega)]
  · by_cases inside : i < off + bs.length
    · rw [if_pos (by omega), if_neg (by omega), if_pos (by omega), if_pos (by omega),
        show min off buf.length = off by omega]
    · rw [if_neg (by omega), if_neg (by omega)]
      congr 1
      omega

/-- Copying nothing changes nothing. -/
@[simp] lemma overlay_nil {buf : List α} {off} : overlay buf off [] = buf := by
  simp [overlay]

/-- One element stored behind a block makes the block longer. -/
lemma poke_overlay {buf : List α} {off : Nat} {as a} :
    poke (overlay buf off as) ((off + as.length : Nat) : Int) a = overlay buf off (as ++ [a]) := by
  refine List.ext_getElem?' fun i lt => ?_
  rw [length_poke, length_overlay, length_overlay, Nat.max_self] at lt
  rw [getElem?_poke (by rw [length_overlay]; exact lt), getElem?_overlay lt, getElem?_overlay lt,
    List.length_append, List.length_singleton]
  by_cases new : off + as.length = i
  · rw [if_pos (by omega), if_pos (by omega), List.getElem?_append_right (by omega),
      show i - off - as.length = 0 by omega]
    rfl
  · rw [if_neg (by omega)]
    by_cases inside : off ≤ i ∧ i < off + as.length
    · rw [if_pos inside, if_pos (by omega), List.getElem?_append_left (by omega)]
    · rw [if_neg inside, if_neg (by omega)]

/-- The elements of a range. -/
def slice (mem : List α) (lo hi : Nat) : List α := (mem.drop lo).take (hi - lo)

/-- The size of a part. -/
lemma length_slice {mem : List α} {lo hi} (le : hi ≤ mem.length) :
    (slice mem lo hi).length = hi - lo := by
  rw [slice, List.length_take, List.length_drop]
  omega

/-- What is at an index of a part. -/
lemma getElem?_slice {mem : List α} {lo hi i : Nat} (lt : i < hi - lo) :
    (slice mem lo hi)[i]? = mem[lo + i]? := by
  rw [slice, List.getElem?_take_of_lt lt, List.getElem?_drop]

/-- A buffer of a fixed size. -/
structure Buf (α : Type*) (n : Nat) where
  toList : List α
  size : toList.length = n

namespace Buf
variable {n : Nat}

/-- A buffer filled with one element. -/
def filled (n : Nat) (a : α) : Buf α n := ⟨List.replicate n a, List.length_replicate⟩

/-- Stores one element. -/
def poke (buf : Buf α n) (i : Int) (a : α) : Buf α n :=
  ⟨KernelModules.poke buf.toList i a, length_poke.trans buf.size⟩

/-- Stores a block from an offset on. -/
def overlay (buf : Buf α n) (off : Nat) (bs : List α) : Buf α n :=
  ⟨KernelModules.overlay buf.toList off bs, length_overlay.trans buf.size⟩

/-- Copying nothing changes nothing. -/
@[simp] lemma overlay_nil {buf : Buf α n} {off} : buf.overlay off [] = buf := by
  simp [overlay]

/-- A copy byte by byte: one more store extends it by one byte. -/
lemma poke_overlay {buf : Buf α n} {off : Nat} {as a} :
    (buf.overlay off as).poke ((off + as.length : Nat) : Int) a = buf.overlay off (as ++ [a]) := by
  simp only [poke, overlay, KernelModules.poke_overlay]

end Buf

/-! ## Strings -/

/-- The bytes up to the first NUL, or all of them. -/
def cstring (bs : List UInt8) : List UInt8 := bs.takeWhile (· ≠ 0)

/-- Without a NUL, the string is all of it. -/
lemma cstring_of_not_mem {bs : List UInt8} (nul : 0 ∉ bs) : cstring bs = bs := by
  rw [cstring, List.takeWhile_eq_self_iff]
  intro b mem
  rw [decide_eq_true_iff]
  rintro rfl
  exact nul mem

/-- What follows a NUL is not part of the string. -/
lemma cstring_append {as bs : List UInt8} (nul : 0 ∈ as) : cstring (as ++ bs) = cstring as := by
  induction as with
  | nil => cases nul
  | cons a as ih =>
    by_cases zero : a = 0
    · simp [cstring, zero]
    · have rest := ih ((List.mem_cons.mp nul).resolve_left (Ne.symm zero))
      simpa [cstring, zero] using rest

/-- A list begins with a word when it has the letters of the word at their places. -/
lemma take_eq_iff {bs w : List α} :
    bs.take w.length = w ↔ ∀ i < w.length, bs[i]? = w[i]? := by
  constructor
  · intro eq i lt
    rw [← List.getElem?_take_of_lt lt, eq]
  · intro all
    refine List.ext_getElem? fun i => ?_
    by_cases lt : i < w.length
    · rw [List.getElem?_take_of_lt lt, all i lt]
    · have ge := Nat.le_of_not_lt lt
      rw [List.getElem?_take_eq_none ge, List.getElem?_eq_none ge]

/-- A buffer holds a word when it begins with it and ends there, or has a NUL behind it. -/
lemma cstring_eq_iff {bs w : List UInt8} (nul : 0 ∉ w) :
    cstring bs = w ↔
      bs.take w.length = w ∧ (bs.length = w.length ∨ bs[w.length]? = some 0) := by
  induction w generalizing bs with
  | nil =>
    cases bs with
    | nil => simp [cstring]
    | cons b bs =>
      by_cases zero : b = 0
      · simp [cstring, zero]
      · simp [cstring, zero]
  | cons c w ih =>
    rw [List.mem_cons, not_or] at nul
    cases bs with
    | nil => simp [cstring]
    | cons b bs =>
      have step : cstring (b :: bs) = c :: w ↔ b = c ∧ cstring bs = w := by
        by_cases zero : b = 0
        · subst zero
          simp [cstring, nul.1]
        · simp [cstring, zero]
      rw [step, ih nul.2]
      simp [and_assoc]

end KernelModules
