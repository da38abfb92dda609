import KernelModules.KernBuff.Verdict

/-!
# Where the terminator is stored

`my_write` (`misc_char_dev.c`, `procfs.c`) stores the NUL at the index that `simple_write_to_buffer`
returns, before it looks at the sign or the size of that value. The index is a count of bytes unless
nothing could be copied, and then it is `-EFAULT`; a count is the size of the buffer when the whole
buffer is filled from its beginning.

`terminator_inside_iff` says for which positions, lengths and faults the index is inside the buffer.
-/

namespace KernelModules.KernBuff

variable {n : Nat}

/-- The index at which a write stores the NUL (C `kern_buff[ret] = '\0'`). -/
def terminator (f : File n) (src : List UInt8) (left : Nat) : Int :=
  (simpleWriteToBuffer f.kernBuff f.off src left).2.2

/-- The copy has something to do: the position is inside the buffer and the write is not empty. -/
def Copies (f : File n) (src : List UInt8) : Prop := f.off < n ∧ src ≠ []

/-- A write that copies nothing stores the NUL at 0. -/
lemma terminator_idle {f : File n} {src : List UInt8} {left} (idle : ¬ Copies f src) :
    terminator f src left = 0 := by
  have nothing : n ≤ f.off ∨ src.length = 0 := by
    rw [List.length_eq_zero_iff]
    by_contra none_
    obtain ⟨pos, ne⟩ := not_or.mp none_
    exact idle ⟨Nat.lt_of_not_le pos, ne⟩
  rw [terminator, simpleWriteToBuffer, if_pos nothing]

/-- Otherwise the NUL goes to the number of bytes copied, or to `-EFAULT` if there are none. -/
lemma terminator_copies {f : File n} {src : List UInt8} {left} (copies : Copies f src) :
    terminator f src left =
      if room f src ≤ left then eFault else ((room f src - left : Nat) : Int) := by
  have some_ : ¬ (n ≤ f.off ∨ src.length = 0) := by
    rw [List.length_eq_zero_iff]
    exact not_or.mpr ⟨Nat.not_le_of_lt copies.1, copies.2⟩
  rw [terminator, simpleWriteToBuffer, if_neg some_]
  by_cases fault : room f src ≤ left
  · rw [if_pos fault, if_pos (show min src.length (n - f.off) ≤ left from fault)]
  · rw [if_neg fault, if_neg (show ¬ min src.length (n - f.off) ≤ left from fault)]
    rfl

/-- A NUL stored inside the buffer terminates what is compared. -/
lemma nul_mem_copyIn {f : File n} {src : List UInt8} {left} (low : 0 ≤ terminator f src left)
    (high : terminator f src left < n) : 0 ∈ (copyIn f src left).1.kernBuff.toList := by
  obtain ⟨i, eq⟩ := Int.eq_ofNat_of_zero_le low
  have size := (simpleWriteToBuffer f.kernBuff f.off src left).1.size
  have stored : (copyIn f src left).1.kernBuff.toList[i]? = some 0 := by
    have lt : i < (simpleWriteToBuffer f.kernBuff f.off src left).1.toList.length := by
      rw [size]
      omega
    refine (getElem?_poke lt).trans (if_pos ?_)
    exact eq
  exact List.mem_of_getElem? stored

/-- The comparison leaves the buffer alone. -/
lemma Driver.myWrite_kernBuff (d : Driver) (f : File 128) (src : List UInt8) (left : Nat) :
    (d.myWrite f src left).1.kernBuff = (copyIn f src left).1.kernBuff := by
  cases d with
  | miscCharDev => rfl
  | procfs => rfl

/-- For every content of the buffer, position, write and number of bytes that could not be copied:
    the terminator is stored inside the buffer, and what is compared ends there, exactly when either
    the copy has nothing to do, or some byte is copied and the whole buffer is not filled from its
    beginning. -/
theorem terminator_inside_iff (d : Driver) (f : File 128) (src : List UInt8) (left : Nat) :
    (0 ≤ terminator f src left ∧ terminator f src left < 128 ∧
      0 ∈ (d.myWrite f src left).1.kernBuff.toList) ↔
    (Copies f src → left < min src.length (128 - f.off) ∧
      ¬ (f.off = 0 ∧ 128 ≤ src.length ∧ left = 0)) := by
  rw [d.myWrite_kernBuff]
  have room_def : room f src = min src.length (128 - f.off) := rfl
  constructor
  · rintro ⟨low, high, -⟩ copies
    rw [terminator_copies copies] at low high
    split at low
    case isTrue => exact absurd low (by decide)
    case isFalse some_ =>
      rw [if_neg some_] at high
      omega
  · intro ok
    have range : 0 ≤ terminator f src left ∧ terminator f src left < 128 := by
      by_cases copies : Copies f src
      · obtain ⟨some_, full⟩ := ok copies
        have pos := copies.1
        rw [terminator_copies copies, if_neg (by omega)]
        omega
      · rw [terminator_idle copies]
        decide
    exact ⟨range.1, range.2, nul_mem_copyIn range.1 range.2⟩

/-- A write of 128 bytes into a fresh buffer has its terminator at index 128, and what is compared
    does not end inside the buffer; a write of which nothing can be read has it at index -14. -/
theorem terminator_outside :
    terminator opened (List.replicate 128 97) 0 = 128 ∧
      0 ∉ (MiscCharDev.myWrite opened (List.replicate 128 97) 0).1.kernBuff.toList ∧
      0 ∉ (Procfs.myWrite opened (List.replicate 128 97) 0).1.kernBuff.toList ∧
      terminator opened [97] 1 = -14 := by
  decide +kernel

end KernelModules.KernBuff
