import KernelModules.Base.Run
import KernelModules.Chardev.Source

/-!
# What a call of the memory device touches

A call of `memory_read` or `memory_write` (`chardev_fops.c`) should return how many bytes of the
caller's buffer it has read or written, and these should lie inside the buffer. Neither function
looks at `count` before it copies, and both ignore whether the copy succeeds: a read writes to the
index 0 even at a position where it returns 0, and a write returns 1 even when `count` is 0 and it
has read in front of the buffer.

`honest_iff` says for every sequence of calls on an open file which of them are right.
-/

namespace KernelModules.Chardev

/-- An open file: the byte of the device and `*f_pos`. -/
structure File where
  mem : UInt8
  fPos : Int

/-- A call. A read comes with whether the user's buffer can be written, a write with what can be
    read around the user's buffer. -/
inductive Call where
  | read (count : Nat) (ok : Bool)
  | write (count : Nat) (user : Int → Option UInt8)
  | seek (fPos : Int)

/-- The file after a call. -/
def File.call (s : File) : Call → File
  | .read count ok => { s with fPos := (memoryRead s.mem ok count s.fPos).fPos }
  | .write count user => { s with mem := (memoryWrite user count).1 }
  | .seek fPos => { s with fPos }

/-- The file after some calls. -/
def File.calls (s : File) (cs : List Call) : File := cs.foldl File.call s

/-- The indices of the user's buffer that a call has read or written. -/
def File.touched (s : File) : Call → List Int
  | .read count ok => if (memoryRead s.mem ok count s.fPos).delivered.isSome then [0] else []
  | .write count user => if (user ((count : Int) - 1)).isSome then [(count : Int) - 1] else []
  | .seek _ => []

/-- The value returned is at most `count` and counts the bytes touched, which lie inside the
    buffer. -/
def Accounts (touched : List Int) (count : Nat) (ret : Int) : Prop :=
  ret ≤ count ∧ (touched.length : Int) = ret ∧ ∀ i ∈ touched, 0 ≤ i ∧ i < count

/-- A call that returns what it has touched. -/
def File.Honest (s : File) : Call → Prop
  | .read count ok =>
    Accounts (s.touched (.read count ok)) count (memoryRead s.mem ok count s.fPos).ret
  | .write count user => Accounts (s.touched (.write count user)) count (memoryWrite user count).2
  | .seek _ => True

/-- The calls that are right: a read at position 0 into a buffer that is not empty and can be
    written, a read behind it that cannot write, and a write of a buffer that is not empty and ends
    in a byte that can be read. -/
def File.Fair (s : File) : Call → Prop
  | .read count ok => if s.fPos = 0 then 1 ≤ count ∧ ok = true else ok = false
  | .write count user => 1 ≤ count ∧ (user ((count : Int) - 1)).isSome
  | .seek _ => True

/-- Nothing touched is right when 0 is returned. -/
lemma accounts_nil {count ret} : Accounts [] count ret ↔ ret = 0 := by
  rw [Accounts]
  simp only [List.length_nil, Int.natCast_zero, List.not_mem_nil, false_implies, implies_true,
    and_true]
  omega

/-- One byte touched is right when 1 is returned and the byte lies inside. -/
lemma accounts_singleton {i count ret} : Accounts [i] count ret ↔ ret = 1 ∧ 0 ≤ i ∧ i < count := by
  rw [Accounts, List.forall_mem_singleton, List.length_singleton]
  omega

/-- A read returns what it has touched in the fair cases only. -/
lemma honest_read_iff {s : File} {count ok} :
    s.Honest (.read count ok) ↔ s.Fair (.read count ok) := by
  rw [File.Honest, File.Fair, File.touched, memoryRead]
  by_cases start : s.fPos = 0
  · rw [if_pos start, if_pos start]
    cases ok with
    | true => simp [accounts_singleton, Nat.one_le_iff_ne_zero, Nat.pos_iff_ne_zero]
    | false => simp [accounts_nil]
  · rw [if_neg start, if_neg start]
    cases ok with
    | true => simp [accounts_singleton]
    | false => simp [accounts_nil]

/-- So does a write. -/
lemma honest_write_iff {s : File} {count user} :
    s.Honest (.write count user) ↔ s.Fair (.write count user) := by
  rw [File.Honest, File.Fair, File.touched, memoryWrite]
  cases user ((count : Int) - 1) with
  | none => simp [accounts_nil]
  | some byte =>
    simp only [Option.isSome_some, if_true, accounts_singleton, true_and, and_true]
    omega

/-- In every sequence of calls on an open file, with any counts, positions and outcomes of the
    copies, every call returns what it has touched inside the caller's buffer exactly when every
    call is fair. -/
theorem honest_iff (s : File) (cs : List Call) :
    (∀ pre c post, cs = pre ++ c :: post → (s.calls pre).Honest c) ↔
      ∀ pre c post, cs = pre ++ c :: post → (s.calls pre).Fair c := by
  refine forall_split_congr fun pre c post _ => ?_
  cases c with
  | read count ok => exact honest_read_iff
  | write count user => exact honest_write_iff
  | seek fPos => exact Iff.rfl

/-- A second read delivers a byte and returns 0. A write of an empty buffer reads in front of it and
    returns 1, and a write whose copy fails returns 1. -/
theorem dishonest_calls :
    (memoryRead 5 true 1 (File.calls ⟨5, 0⟩ [.read 1 true]).fPos = ⟨some 5, 1, 0⟩ ∧
        ¬ (File.calls ⟨5, 0⟩ [.read 1 true]).Honest (.read 1 true)) ∧
      ((File.mk 5 0).touched (.write 0 fun _ => some 65) = [-1] ∧
        ¬ (File.mk 5 0).Honest (.write 0 fun _ => some 65)) ∧
      ((File.mk 5 0).touched (.write 1 fun _ => none) = [] ∧
        ¬ (File.mk 5 0).Honest (.write 1 fun _ => none)) := by
  refine ⟨⟨by decide, fun honest => ?_⟩, ⟨rfl, fun honest => ?_⟩, ⟨rfl, fun honest => ?_⟩⟩
  · exact absurd (honest_read_iff.mp honest) (by unfold File.Fair; decide)
  · exact absurd (honest_write_iff.mp honest).1 (by decide)
  · exact absurd (honest_write_iff.mp honest).2 (by decide)

end KernelModules.Chardev
