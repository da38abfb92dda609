import KernelModules.Base.Digits
import KernelModules.Base.Run
import KernelModules.Simacc.Source
import Mathlib.Data.Nat.ModEq

/-!
# What earlier writes do to the sum

`simacc_write` of `file_proc.c` scans all of `input_buf`, whatever the length of the write
(`scan_eq`): its loop does not stop at the terminator. A write closes its own numbers with a `;`
(`simaccWrite_eq`), and behind it come the bytes that earlier writes have left.

* `sum_history_independent_iff`: two histories lead to the same sum exactly when the numbers that
  they leave behind the terminator add up to the same.
-/

namespace KernelModules.Simacc

/-! ## The scan -/

/-- No character compares equal to the terminator, which is out of the range of `char`. -/
lemma charInt_ne_terminator (c : UInt8) : charInt c ≠ terminator := by
  have lt : charInt c < 128 := BitVec.toInt_lt
  intro e
  rw [e] at lt
  exact absurd lt (by decide)

/-- A `char` is signed. -/
lemma charInt_eq (c : UInt8) :
    charInt c = if 2 * c.toNat < 2 ^ 8 then (c.toNat : Int) else (c.toNat : Int) - 2 ^ 8 :=
  BitVec.toInt_eq_toNat_cond ..

/-- The digits are positive as `char`s too. -/
lemma isDigit_iff {c : UInt8} : isDigit c ↔ 48 ≤ charInt c ∧ charInt c ≤ 57 := by
  have lt := c.toNat_lt
  rw [isDigit, Bool.and_eq_true, decide_eq_true_iff, decide_eq_true_iff, UInt8.le_iff_toNat_le,
    UInt8.le_iff_toNat_le, charInt_eq]
  change 48 ≤ c.toNat ∧ c.toNat ≤ 57 ↔ _
  split <;> omega

/-- The loop body on one character: a digit goes on, anything else closes the number. -/
lemma feed_eq {n m : Nat} {c : UInt8} :
    Scan.feed ⟨BitVec.ofNat 64 n, BitVec.ofNat 64 m⟩ c =
      if isDigit c then ⟨BitVec.ofNat 64 (n * 10 + (c.toNat - 48)), BitVec.ofNat 64 m⟩
      else ⟨BitVec.ofNat 64 0, BitVec.ofNat 64 (m + n)⟩ := by
  rw [Scan.feed]
  refine if_ctx_congr isDigit_iff.symm (fun digit => ?_) fun _ => ?_
  · obtain ⟨ge, le⟩ := isDigit_iff.mp digit
    have int : charInt c = ((c.toNat - 48) + 48 : Nat) := by
      have lt := c.toNat_lt
      rw [charInt_eq] at ge ⊢
      split at ge <;> omega
    have num : BitVec.ofNat 64 n * 10 + BitVec.ofInt 64 (charInt c) - 48 =
        BitVec.ofNat 64 (n * 10 + (c.toNat - 48)) := by
      rw [int, BitVec.ofInt_natCast, BitVec.ofNat_add, ← BitVec.add_assoc, BitVec.ofNat_add,
        BitVec.ofNat_mul]
      exact BitVec.add_sub_cancel ..
    rw [num]
  · rw [BitVec.ofNat_add]
    rfl

/-- The loop goes on to the end of the buffer. -/
lemma scanLoop_eq {buf : Buf UInt8 maxInputSize} {fuel i s} (lt : i < maxInputSize)
    (enough : maxInputSize ≤ fuel + i) :
    scanLoop buf fuel i s = some ((buf.toList.drop i).foldl Scan.feed s) := by
  induction fuel generalizing i s with
  | zero => omega
  | succ fuel ih =>
    have bound : i < buf.toList.length := by
      rw [buf.size]
      exact lt
    rw [scanLoop, List.getElem?_eq_getElem bound, List.drop_eq_getElem_cons bound, List.foldl_cons]
    by_cases last : i + 1 < maxInputSize
    · simp only [Option.bind_eq_bind, Option.bind_some]
      rw [if_pos ⟨charInt_ne_terminator _, last⟩, ih last (by omega)]
    · simp only [Option.bind_eq_bind, Option.bind_some]
      rw [if_neg (fun both => last both.2), List.drop_eq_nil_of_le (by rw [buf.size]; omega)]
      rfl

/-- The loop adds up the closed runs of digits. -/
lemma foldl_feed {bs : List UInt8} {n m : Nat} :
    (bs.foldl Scan.feed ⟨BitVec.ofNat 64 n, BitVec.ofNat 64 m⟩).sum =
      BitVec.ofNat 64 (m + (runValues n bs).sum) := by
  induction bs generalizing n m with
  | nil => rfl
  | cons b bs ih =>
    rw [List.foldl_cons, feed_eq, runValues]
    split
    case isTrue => exact ih
    case isFalse => rw [ih, List.sum_cons, Nat.add_assoc]

/-- It adds up the closed numbers of the whole buffer. -/
lemma scan_eq (buf : Buf UInt8 maxInputSize) :
    scan buf = some (BitVec.ofNat 64 (runSum buf.toList)) := by
  rw [scan, scanLoop_eq (by decide) (by omega), Option.map_some, List.drop_zero,
    show (⟨0, 0⟩ : Scan) = ⟨BitVec.ofNat 64 0, BitVec.ofNat 64 0⟩ from rfl, foldl_feed,
    sum_runValues,
    Nat.zero_add]

/-! ## Writes -/

/-- What is stored for the terminator is a semicolon. -/
lemma toChar_terminator : toChar terminator = 59 := by decide

/-- The buffer after a write that fits: the bytes, a `;`, and what was behind it. -/
lemma terminated_eq (buf : Buf UInt8 maxInputSize) {w : List UInt8}
    (short : w.length < maxInputSize) :
    ((buf.overlay 0 w).poke w.length (toChar terminator)).toList =
      w ++ 59 :: buf.toList.drop (w.length + 1) := by
  rw [show (w.length : Int) = ((0 + w.length : Nat) : Int) by rw [Nat.zero_add], Buf.poke_overlay,
    toChar_terminator]
  simp only [Buf.overlay, overlay, List.take_zero, List.nil_append, List.length_append,
    List.length_singleton, Nat.zero_add, Nat.sub_zero]
  rw [List.take_of_length_le (by rw [buf.size]; simp; omega), List.append_assoc]
  rfl

/-- The sum that a write `w` computes: its own numbers, and the closed numbers that are left behind
    the terminator. -/
def sumOf (a : Acc) (w : List UInt8) : BitVec 64 :=
  BitVec.ofNat 64 (digitSum w + runSum (a.inputBuf.toList.drop (w.length + 1)))

/-- What a write that fits leaves and returns. -/
lemma simaccWrite_eq (a : Acc) {w : List UInt8} (short : w.length < maxInputSize) :
    simaccWrite a w 0 =
      some (⟨(a.inputBuf.overlay 0 w).poke w.length (toChar terminator),
          Nat.toDigits 10 (sumOf a w).toNat⟩, some (sumOf a w), (w.length : Int)) := by
  have len : ¬ w.length > maxInputSize := by omega
  simp only [simaccWrite, if_neg len, Nat.zero_min, ne_eq, not_true_eq_false, if_false,
    copyFromUser_all, List.take_length, scan_eq, terminated_eq _ short,
    runSum_append (show isDigit 59 = false from rfl)]
  rfl

/-- One write of a history: its bytes, and how many of them could not be copied. -/
def writeStep (a : Acc) (h : List UInt8 × Nat) : Option Acc := (simaccWrite a h.1 h.2).map Prod.fst

/-- A write to the device always returns. -/
lemma writeStep_total (a : Acc) (h : List UInt8 × Nat) : ∃ a', writeStep a h = some a' := by
  unfold writeStep simaccWrite
  simp only [scan_eq]
  generalize (if h.1.length > maxInputSize then maxInputSize else h.1.length) = len
  split
  · exact ⟨_, rfl⟩
  · exact ⟨_, rfl⟩

/-- So does every history of writes. -/
lemma run_writes_total (a : Acc) (hist : List (List UInt8 × Nat)) :
    ∃ a', run writeStep a hist = some a' := by
  induction hist generalizing a with
  | nil => exact ⟨a, rfl⟩
  | cons h hist ih =>
    obtain ⟨a1, st⟩ := writeStep_total a h
    obtain ⟨a2, go⟩ := ih a1
    refine ⟨a2, ?_⟩
    rw [run_cons, st]
    exact go

/-- After any two histories of writes, faulting or not, a write that fits and does not fault
    computes the same sum exactly when the closed numbers left behind its terminator have the same
    sum, modulo `2 ^ 64`. -/
theorem sum_history_independent_iff (hist1 hist2 : List (List UInt8 × Nat)) {w : List UInt8}
    (short : w.length < maxInputSize) :
    ∃ a1 a2 sum1 sum2,
      run writeStep .init hist1 = some a1 ∧ run writeStep .init hist2 = some a2 ∧
      (simaccWrite a1 w 0).map Prod.snd = some (some sum1, (w.length : Int)) ∧
      (simaccWrite a2 w 0).map Prod.snd = some (some sum2, (w.length : Int)) ∧
      (sum1 = sum2 ↔
        runSum (a1.inputBuf.toList.drop (w.length + 1)) ≡
          runSum (a2.inputBuf.toList.drop (w.length + 1)) [MOD 2 ^ 64]) := by
  obtain ⟨a1, go1⟩ := run_writes_total .init hist1
  obtain ⟨a2, go2⟩ := run_writes_total .init hist2
  refine ⟨a1, a2, sumOf a1 w, sumOf a2 w, go1, go2, congrArg _ (simaccWrite_eq a1 short),
    congrArg _ (simaccWrite_eq a2 short), ?_⟩
  rw [← BitVec.toNat_inj, sumOf, sumOf, BitVec.toNat_ofNat, BitVec.toNat_ofNat]
  exact ⟨Nat.ModEq.add_left_cancel' _, Nat.ModEq.add_left _⟩

/-- A write of the greatest length that leaves room for the terminator leaves nothing behind it. -/
theorem sum_history_independent_full :
    ∃ a1 a2 sum, run writeStep .init [([48, 32, 48, 32, 55], 0)] = some a1 ∧
      run writeStep .init [] = some a2 ∧
      (simaccWrite a1 (List.replicate 1023 49) 0).map Prod.snd = some (some sum, 1023) ∧
      (simaccWrite a2 (List.replicate 1023 49) 0).map Prod.snd = some (some sum, 1023) := by
  have len : (List.replicate 1023 (49 : UInt8)).length = 1023 := List.length_replicate
  obtain ⟨a1, a2, sum1, sum2, go1, go2, write1, write2, eq⟩ :=
    sum_history_independent_iff [([48, 32, 48, 32, 55], 0)] [] (w := List.replicate 1023 49)
      (by rw [len]; decide)
  have none : ∀ a : Acc, a.inputBuf.toList.drop (1023 + 1) = [] :=
    fun a => List.drop_eq_nil_of_le (Nat.le_of_eq a.inputBuf.size)
  rw [len] at write1 write2 eq
  cases eq.mpr (by rw [none a1, none a2])
  exact ⟨a1, a2, sum1, go1, go2, write1, write2⟩

/-- "1" after "0 0 7" gives 8, since the 7 is still in the buffer, and 1 on a fresh module. -/
theorem sum_depends_on_history :
    ∃ a, run writeStep .init [([48, 32, 48, 32, 55], 0)] = some a ∧
      (simaccWrite a [49] 0).map Prod.snd = some (some 8, 1) ∧
      (simaccWrite .init [49] 0).map Prod.snd = some (some 1, 1) := by
  have st := congrArg (Option.map Prod.fst)
    (simaccWrite_eq .init (w := [48, 32, 48, 32, 55]) (by decide))
  refine ⟨_, run_singleton.trans st, ?_, ?_⟩
  · rw [simaccWrite_eq _ (by decide)]
    decide +kernel
  · rw [simaccWrite_eq _ (by decide)]
    decide +kernel

end KernelModules.Simacc
