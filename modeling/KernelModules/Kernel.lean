import KernelModules.Base.Bytes
import KernelModules.Base.Scanf

/-!
# What the modules take from the kernel

Error numbers, and the kernel functions that more than one module calls.

C → Lean naming: `copy_from_user` → `copyFromUser`, `simple_write_to_buffer` →
`simpleWriteToBuffer`. `strncpy`, `sscanf` and `%s` of `sprintf` work on the bytes up to the first
NUL. `sscanf` and `sprintf` are given one function for each format.
-/

namespace KernelModules

/-- `-ENOMEM` -/
def eNoMem : Int := -12

/-- `-EFAULT` -/
def eFault : Int := -14

/-- `-EINVAL` -/
def eInval : Int := -22

/-- Copies the first `len` bytes of `src` to an offset of a buffer (C `copy_from_user`). `left` is
    the number of bytes that could not be copied; their place is filled with zeros. -/
def copyFromUser {n : Nat} (dst : Buf UInt8 n) (off : Nat) (src : List UInt8) (len left : Nat) :
    Buf UInt8 n :=
  dst.overlay off (src.take (len - left) ++ List.replicate (min left len) 0)

/-- Copies `src` into a buffer at an offset (C `simple_write_to_buffer`): the buffer, the offset and
    the result. The VFS never passes a negative offset. -/
def simpleWriteToBuffer {n : Nat} (dst : Buf UInt8 n) (off : Nat) (src : List UInt8) (left : Nat) :
    Buf UInt8 n × Nat × Int :=
  if n ≤ off ∨ src.length = 0 then (dst, off, 0) else
    let count := min src.length (n - off)
    let dst' := copyFromUser dst off src count left
    if count ≤ left then (dst', off, eFault)
    else (dst', off + (count - left), ((count - left : Nat) : Int))

/-- Copies the string `src` to the beginning of a buffer, cut or filled up with NULs to `count`
    bytes (C `strncpy`). -/
def strncpy {n : Nat} (dst : Buf UInt8 n) (src : List UInt8) (count : Nat) : Buf UInt8 n :=
  dst.overlay 0 ((cstring src).take count ++ List.replicate (count - (cstring src).length) 0)

/-- What `sprintf` prints for the format `"%s\n"`. A buffer without a NUL is read beyond its end. -/
def sprintfLine {n : Nat} (buf : Buf UInt8 n) : Option (List UInt8) :=
  if 0 ∈ buf.toList then some (cstring buf.toList ++ [10]) else none

/-- Scans the first word of a string into a buffer (C `sscanf` with `"%s"`). The empty string has
    none and leaves the buffer as it is; a word that does not fit with its NUL runs over the end. -/
def sscanfWord {n : Nat} (str : List UInt8) (dst : Buf UInt8 n) : Option (Buf UInt8 n) :=
  if cstring str = [] then some dst
  else if (scanWord (cstring str)).length < n then
    some (dst.overlay 0 (scanWord (cstring str) ++ [0]))
  else none

/-- Scans a number into an `int` (C `sscanf` with `"%d"`). Without a number the variable keeps its
    value. -/
def sscanfInt (str : List UInt8) (var : BitVec 32) : BitVec 32 :=
  ((scanInt (cstring str)).map (BitVec.ofInt 32)).getD var

/-- What `sprintf` prints for the format `"%d\n"`. -/
def sprintfInt (var : BitVec 32) : List UInt8 := printInt var.toInt ++ [10]

/-- A copy in which nothing fails. -/
lemma copyFromUser_all {n} {dst : Buf UInt8 n} {off src len} :
    copyFromUser dst off src len 0 = dst.overlay off (src.take len) := by
  rw [copyFromUser, Nat.sub_zero, Nat.zero_min, List.replicate_zero, List.append_nil]

/-! ## Words in a buffer -/

/-- A scanned word has no NUL. -/
lemma zero_not_mem_scanWord {str} : 0 ∉ scanWord (cstring str) := by
  intro mem
  have inside : 0 ∈ cstring str := List.dropWhile_subset _ (List.takeWhile_subset _ mem)
  exact absurd (List.mem_takeWhile_imp inside) (by decide)

/-- The bytes of a word stored with its NUL. -/
lemma getElem?_overlay_word {n} {buf : Buf UInt8 n} {word} {i : Nat} (lt : word.length < n)
    (le : i ≤ word.length) : (buf.overlay 0 (word ++ [0])).toList[i]? = (word ++ [0])[i]? := by
  rw [Buf.overlay, getElem?_overlay (by rw [buf.size]; omega), if_pos (by simp; omega),
    Nat.sub_zero]

/-- A word stored with its NUL is the string in the buffer. -/
lemma cstring_overlay {n} {buf : Buf UInt8 n} {word} (nul : 0 ∉ word) (lt : word.length < n) :
    cstring (buf.overlay 0 (word ++ [0])).toList = word := by
  rw [cstring_eq_iff nul]
  refine ⟨take_eq_iff.mpr fun i inside => ?_, .inr ?_⟩
  · rw [getElem?_overlay_word lt (Nat.le_of_lt inside), List.getElem?_append_left inside]
  · rw [getElem?_overlay_word lt (Nat.le_refl _), List.getElem?_concat_length]

/-- A word with a NUL behind it is printed as a line. -/
lemma sprintfLine_overlay {n} {buf : Buf UInt8 n} {word} (nul : 0 ∉ word) (lt : word.length < n) :
    sprintfLine (buf.overlay 0 (word ++ [0])) = some (word ++ [10]) := by
  have end_ : (buf.overlay 0 (word ++ [0])).toList[word.length]? = some 0 := by
    rw [getElem?_overlay_word lt (Nat.le_refl _), List.getElem?_concat_length]
  rw [sprintfLine, if_pos (List.mem_of_getElem? end_), cstring_overlay nul lt]

/-- `sscanf` stores a word that is there and fits. -/
lemma sscanfWord_of_ne_nil {n str} {dst : Buf UInt8 n} (some_ : scanWord (cstring str) ≠ [])
    (lt : (scanWord (cstring str)).length < n) :
    sscanfWord str dst = some (dst.overlay 0 (scanWord (cstring str) ++ [0])) := by
  have nonempty : cstring str ≠ [] := by
    intro empty
    rw [empty] at some_
    exact some_ rfl
  rw [sscanfWord, if_neg nonempty, if_pos lt]

/-- The string in the buffer after `sscanf`: the word, or the old one if there was none. -/
lemma sscanfWord_eq {n str} (dst : Buf UInt8 n) (lt : (scanWord (cstring str)).length < n) :
    ∃ buf, sscanfWord str dst = some buf ∧
      cstring buf.toList =
        if cstring str = [] then cstring dst.toList else scanWord (cstring str) := by
  rw [sscanfWord]
  by_cases empty : cstring str = []
  · rw [if_pos empty, if_pos empty]
    exact ⟨dst, rfl, rfl⟩
  · rw [if_neg empty, if_neg empty, if_pos lt]
    exact ⟨_, rfl, cstring_overlay zero_not_mem_scanWord lt⟩

end KernelModules
