import KernelModules.Base.Runs
import KernelModules.Simacc.Bounds

/-!
# The numbers that the accumulator adds up

The loop of `simacc_write` (`file_proc.c`) has the value of the run of digits in front of the index
in `num` and the sum of the runs before it in `sum`. A run counts when the loop has come to a byte
behind it that is not a digit, and the loop comes to all 1024 bytes (`examined_eq`).

`scanLoop_sums_runs` says the result in terms of the maximal runs of digits and their indices.
-/

namespace KernelModules.Simacc

/-- The bytes that the loop of `simacc_write` examines, in this order. -/
def examined (buf : Buf UInt8 maxInputSize) : List UInt8 :=
  (scanReads buf maxInputSize 0).filterMap fun i => buf.toList[i]?

/-- The bytes at the indices read are the rest of the buffer. -/
lemma filterMap_scanReads {buf : Buf UInt8 maxInputSize} {fuel i} (lt : i < maxInputSize)
    (enough : maxInputSize ≤ fuel + i) :
    (scanReads buf fuel i).filterMap (fun j => buf.toList[j]?) = buf.toList.drop i := by
  induction fuel generalizing i with
  | zero => omega
  | succ fuel ih =>
    have bound : i < buf.toList.length := by
      rw [buf.size]
      exact lt
    rw [scanReads, List.getElem?_eq_getElem bound, List.drop_eq_getElem_cons bound,
      List.filterMap_cons_some (List.getElem?_eq_getElem bound)]
    by_cases last : i + 1 < maxInputSize
    · simp only [if_pos (show _ ∧ _ from ⟨charInt_ne_terminator _, last⟩)]
      rw [ih last (by omega)]
    · simp only [if_neg (show ¬ (_ ∧ _) from fun both => last both.2)]
      rw [List.drop_eq_nil_of_le (by rw [buf.size]; omega)]
      rfl

/-- The loop examines the whole buffer. -/
lemma examined_eq (buf : Buf UInt8 maxInputSize) : examined buf = buf.toList := by
  rw [examined, filterMap_scanReads (by decide) (by omega), List.drop_zero]

/-- For every content of the buffer the loop ends, and its sum is that of the maximal runs of
    digits, each with its decimal value, that an examined byte follows which is not a digit, modulo
    `2 ^ 64`. -/
theorem scanLoop_sums_runs (buf : Buf UInt8 maxInputSize) :
    ∃ s, scanLoop buf maxInputSize 0 ⟨0, 0⟩ = some s ∧
      s.sum.toNat = (∑ r ∈ closedRuns isDigit (examined buf),
        decimal (slice (examined buf) r.1 r.2)) % 2 ^ 64 := by
  obtain ⟨s, go, sum⟩ := Option.map_eq_some_iff.mp (scan_eq buf)
  refine ⟨s, go, ?_⟩
  rw [sum, sum_closedRuns, examined_eq, BitVec.toNat_ofNat]

end KernelModules.Simacc
