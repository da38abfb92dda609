import KernelModules.Simacc.History
import Mathlib.Data.Nat.Digits.Defs

/-!
# The limits of the accumulator

`simacc_write` of `file_proc.c` takes up to 1024 bytes into a buffer of 1024 bytes and stores the
terminator behind them. A write of 1024 bytes or more fills the buffer: the terminator goes to index
1024, which is not part of it, and a number that ends at the last byte is never closed
(`simaccWrite_full`). Shorter writes stay inside. The text of the sum has up to 20 digits, and
`result` has 16 bytes.

* `first_write_sum_iff`: when the first write of a module computes the sum of all its numbers.
* `stays_inside_iff`: when a write stays inside `input_buf` and `result`.
-/

namespace KernelModules.Simacc

/-- A longer write is cut to the size of the buffer. -/
lemma clamped_eq {w : List UInt8} (long : maxInputSize ≤ w.length) :
    (if w.length > maxInputSize then maxInputSize else w.length) = maxInputSize := by
  split
  · rfl
  · omega

/-- The buffer after a write that fills it. -/
lemma filled_eq (buf : Buf UInt8 maxInputSize) {w : List UInt8} (long : maxInputSize ≤ w.length) :
    ((buf.overlay 0 (w.take maxInputSize)).poke maxInputSize (toChar terminator)).toList =
      w.take maxInputSize := by
  have size := buf.size
  have len : (w.take maxInputSize).length = maxInputSize := by
    rw [List.length_take, Nat.min_eq_left long]
  refine List.ext_getElem?' fun i lt => ?_
  rw [len, Buf.poke, length_poke, (buf.overlay 0 (w.take maxInputSize)).size, Nat.max_self] at lt
  rw [Buf.poke, getElem?_poke (by rw [(buf.overlay 0 (w.take maxInputSize)).size]; exact lt),
    if_neg (by omega), Buf.overlay, getElem?_overlay (by omega), if_pos (by omega), Nat.sub_zero]

/-- A write that fills the buffer adds up the closed numbers only. -/
lemma simaccWrite_full (a : Acc) {w : List UInt8} (long : maxInputSize ≤ w.length) :
    simaccWrite a w 0 =
      some (⟨(a.inputBuf.overlay 0 (w.take maxInputSize)).poke maxInputSize (toChar terminator),
          Nat.toDigits 10 (BitVec.ofNat 64 (runSum (w.take maxInputSize))).toNat⟩,
        some (BitVec.ofNat 64 (runSum (w.take maxInputSize))), (maxInputSize : Int)) := by
  simp only [simaccWrite, clamped_eq long, Nat.zero_min, ne_eq, not_true_eq_false, if_false,
    copyFromUser_all, scan_eq, filled_eq _ long]
  rfl

/-! ## The first write -/

/-- A fresh buffer has no digits. -/
lemma isDigit_init {b} (mem : b ∈ Acc.init.inputBuf.toList) : isDigit b = false := by
  rcases List.mem_or_eq_of_mem_set mem with zero | rfl
  · rw [List.eq_of_mem_replicate zero]
    rfl
  · rfl

/-- The fresh buffer has no number anywhere. -/
lemma runSum_init (n : Nat) : runSum (Acc.init.inputBuf.toList.drop n) = 0 :=
  runSum_of_no_digit fun _ mem => isDigit_init (List.mem_of_mem_drop mem)

/-- On a fresh module a write of any length computes the sum of all numbers in its first 1024 bytes
    exactly when it is shorter than that, or the number that ends at byte 1023 is a multiple of
    `2 ^ 64`. -/
theorem first_write_sum_iff (w : List UInt8) :
    ∃ sum ret, (simaccWrite .init w 0).map Prod.snd = some (some sum, ret) ∧
      (sum = BitVec.ofNat 64 (digitSum (w.take maxInputSize)) ↔
        w.length < maxInputSize ∨ 2 ^ 64 ∣ decimal (openRun (w.take maxInputSize))) := by
  by_cases short : w.length < maxInputSize
  · refine ⟨sumOf .init w, w.length, congrArg _ (simaccWrite_eq .init short), ?_⟩
    rw [sumOf, runSum_init, Nat.add_zero, List.take_of_length_le (Nat.le_of_lt short)]
    exact ⟨fun _ => .inl short, fun _ => rfl⟩
  · refine ⟨_, _, congrArg _ (simaccWrite_full .init (Nat.le_of_not_lt short)), ?_⟩
    rw [or_iff_right short, digitSum_eq, ← BitVec.toNat_inj, BitVec.toNat_ofNat, BitVec.toNat_ofNat]
    constructor
    · intro same
      have cancel : runSum (w.take maxInputSize) + 0 ≡
          runSum (w.take maxInputSize) + decimal (openRun (w.take maxInputSize)) [MOD 2 ^ 64] :=
          same
      exact (Nat.modEq_zero_iff_dvd).mp (Nat.ModEq.add_left_cancel' _ cancel).symm
    · intro multiple
      have zero := Nat.modEq_zero_iff_dvd.mpr multiple
      exact (Nat.ModEq.add_left (runSum (w.take maxInputSize)) zero).symm

/-- 1023 blanks and a 7: the sum is 0. -/
theorem first_write_sum_wrong :
    (simaccWrite .init (List.replicate 1023 32 ++ [55]) 0).map Prod.snd = some (some 0, 1024) ∧
      digitSum ((List.replicate 1023 (32 : UInt8) ++ [55]).take maxInputSize) = 7 := by
  have long : maxInputSize ≤ (List.replicate 1023 (32 : UInt8) ++ [55]).length := by
    rw [List.length_append, List.length_replicate]
    decide
  have open_ : runSum ((List.replicate 1023 (32 : UInt8) ++ [55]).take maxInputSize) = 0 := by
    rw [← sum_runValues]
    decide +kernel
  refine ⟨?_, by decide +kernel⟩
  rw [simaccWrite_full .init long, open_]
  rfl

/-! ## Indices -/

/-- The indices at which the loop of `simacc_write` reads the buffer. -/
def scanReads (buf : Buf UInt8 maxInputSize) : Nat → Nat → List Nat
  | 0, _ => []
  | fuel + 1, i => i :: match buf.toList[i]? with
    | some c =>
      if charInt c ≠ terminator ∧ i + 1 < maxInputSize then scanReads buf fuel (i + 1) else []
    | none => []

/-- The indices at which a write that does not fault accesses `input_buf`: the copy, the terminator
    and the loop. -/
def accesses (a : Acc) (src : List UInt8) : List Nat :=
  let len := if src.length > maxInputSize then maxInputSize else src.length
  let buf := (copyFromUser a.inputBuf 0 src len 0).poke len (toChar terminator)
  List.range len ++ [len] ++ scanReads buf maxInputSize 0

/-- The loop feeds the bytes at these indices, in this order. -/
lemma scanLoop_eq_reads {buf : Buf UInt8 maxInputSize} {fuel i s} (lt : i < maxInputSize)
    (enough : maxInputSize ≤ fuel + i) :
    scanLoop buf fuel i s =
      (scanReads buf fuel i).foldlM (fun s j => buf.toList[j]?.map s.feed) s := by
  induction fuel generalizing i s with
  | zero => omega
  | succ fuel ih =>
    have bound : i < buf.toList.length := by
      rw [buf.size]
      exact lt
    rw [scanLoop, scanReads, List.foldlM_cons, List.getElem?_eq_getElem bound]
    simp only [Option.bind_eq_bind, Option.bind_some, Option.map_some]
    split
    case isTrue more => exact ih more.2 (by omega)
    case isFalse => rfl

/-- The loop reads inside the buffer. -/
lemma scanReads_lt {buf : Buf UInt8 maxInputSize} {fuel i} (lt : i < maxInputSize) :
    ∀ j ∈ scanReads buf fuel i, j < maxInputSize := by
  induction fuel generalizing i with
  | zero => exact fun j mem => (List.not_mem_nil mem).elim
  | succ fuel ih =>
    rw [scanReads]
    refine List.forall_mem_cons.mpr ⟨lt, ?_⟩
    split
    · split
      case isTrue more => exact ih more.2
      case isFalse => exact fun j mem => (List.not_mem_nil mem).elim
    · exact fun j mem => (List.not_mem_nil mem).elim

/-- A write that fills the buffer stores its terminator behind the end. -/
lemma size_mem_accesses {a : Acc} {w : List UInt8} (long : maxInputSize ≤ w.length) :
    maxInputSize ∈ accesses a w := by
  rw [accesses, clamped_eq long]
  exact List.mem_append_left _ (List.mem_append_right _ List.mem_cons_self)

/-- The terminator is what goes out of the buffer, when the write fills it. -/
lemma accesses_inside_iff {a : Acc} {w : List UInt8} :
    (∀ i ∈ accesses a w, i < maxInputSize) ↔ w.length < maxInputSize := by
  constructor
  · intro inside
    by_contra long
    exact absurd (inside _ (size_mem_accesses (Nat.le_of_not_lt long))) (Nat.lt_irrefl _)
  · intro short i mem
    rw [accesses, if_neg (by omega)] at mem
    rcases List.mem_append.mp mem with before | loop
    · rcases List.mem_append.mp before with copy | stop
      · exact Nat.lt_trans (List.mem_range.mp copy) short
      · rw [List.mem_singleton.mp stop]
        exact short
    · exact scanReads_lt (by decide) i loop

/-- The size of `result`. -/
def resultSize : Nat := 16

/-- For every content of `input_buf`, a write that does not fault stays inside `input_buf` and
    `result` exactly when it is shorter than `input_buf`, and its numbers and the closed ones behind
    its terminator add up to less than `10 ^ 15`, modulo `2 ^ 64`. -/
theorem stays_inside_iff (a : Acc) (w : List UInt8) :
    ∃ a' sum ret, simaccWrite a w 0 = some (a', some sum, ret) ∧
      a'.result = Nat.toDigits 10 sum.toNat ∧
      ((∀ i ∈ accesses a w, i < maxInputSize) ∧ a'.result.length + 1 ≤ resultSize ↔
        w.length < maxInputSize ∧
          (digitSum w + runSum (a.inputBuf.toList.drop (w.length + 1))) % 2 ^ 64 < 10 ^ 15) := by
  rw [accesses_inside_iff]
  by_cases short : w.length < maxInputSize
  · refine ⟨_, _, _, simaccWrite_eq a short, rfl, and_congr_right fun _ => ?_⟩
    rw [← BitVec.toNat_ofNat]
    exact Nat.succ_le_succ_iff.trans (Nat.length_toDigits_le_iff (by decide) (by decide))
  · refine ⟨_, _, _, simaccWrite_full a (Nat.le_of_not_lt short), rfl, ?_⟩
    exact ⟨fun inside => absurd inside.1 short, fun small => absurd small.1 short⟩

/-- A write of 1024 bytes stores its terminator at index 1024, and the sum `10 ^ 15` needs 17
    bytes. -/
theorem runs_outside :
    maxInputSize ∈ accesses .init (List.replicate 1024 32) ∧
      ∃ a' sum, simaccWrite .init (49 :: List.replicate 15 48) 0 = some (a', some sum, 16) ∧
        a'.result.length + 1 = 17 := by
  have long : maxInputSize ≤ (List.replicate 1024 (32 : UInt8)).length := by
    rw [List.length_replicate]
    decide
  exact ⟨size_mem_accesses long, _, _, simaccWrite_eq .init (by decide), by decide +kernel⟩

end KernelModules.Simacc
