import KernelModules.Base.Bytes
import KernelModules.Base.Run
import Mathlib.Logic.Function.Basic

/-!
# Files over one memory of fixed size

`ByteFile α` is a memory of fixed size that any number of open files read and write, each from its
own position. A transfer of `len` elements at the position `off` concerns the range from `off` to
`stop mem off len`, which ends with the memory at the latest; `advance` is the position after it. A
transfer that starts behind the end moves nothing.

* `overlay_append`, `slice_append`: two consecutive transfers are one.
* `reads_chunked`, `writes_chunked`: so is any list of consecutive transfers.
-/

namespace KernelModules

variable {α : Type*}

/-- Where a transfer ends. -/
def stop (mem : List α) (off len : Nat) : Nat := min (off + len) mem.length

/-- The position after a transfer. -/
def advance (mem : List α) (off len : Nat) : Nat := off + (stop mem off len - off)

/-- The position after two transfers is the one after a transfer of both. -/
lemma advance_add {mem : List α} {off a b} :
    advance mem (advance mem off a) b = advance mem off (a + b) := by
  unfold advance stop
  omega

/-- Two reads in a row return what one read of both sizes returns. -/
lemma slice_append {mem : List α} {off a b} :
    slice mem off (stop mem off a) ++
        slice mem (advance mem off a) (stop mem (advance mem off a) b) =
      slice mem off (stop mem off (a + b)) := by
  unfold slice advance
  have split : stop mem off (a + b) - off = (stop mem off a - off) +
      (stop mem (off + (stop mem off a - off)) b - (off + (stop mem off a - off))) := by
    unfold stop
    omega
  rw [split, List.take_add, List.drop_drop]

/-- A copy stops at the end of the memory by itself. -/
lemma overlay_take {mem : List α} {off bs} :
    overlay mem off (bs.take (stop mem off bs.length - off)) = overlay mem off bs := by
  refine List.ext_getElem?' fun i lt => ?_
  rw [length_overlay, length_overlay, Nat.max_self] at lt
  rw [getElem?_overlay lt, getElem?_overlay lt, List.length_take]
  unfold stop
  by_cases inside : off ≤ i ∧ i < off + bs.length
  · rw [if_pos (by omega), if_pos inside, List.getElem?_take_of_lt (by omega)]
  · rw [if_neg (by omega), if_neg inside]

/-- Two writes in a row leave what one write of both texts leaves. -/
lemma overlay_append {mem : List α} {off as bs} :
    overlay (overlay mem off as) (advance mem off as.length) bs = overlay mem off (as ++ bs) := by
  refine List.ext_getElem?' fun i lt => ?_
  rw [length_overlay, length_overlay, length_overlay, Nat.max_self] at lt
  rw [getElem?_overlay (by rw [length_overlay]; exact lt), getElem?_overlay lt, getElem?_overlay lt,
    List.length_append]
  unfold advance stop
  -- the index lies in the first block, in the second one or outside of both
  by_cases first : off ≤ i ∧ i < off + as.length
  · rw [if_neg (by omega), if_pos first, if_pos (by omega), List.getElem?_append_left (by omega)]
  · by_cases second : off ≤ i ∧ i < off + as.length + bs.length
    · rw [if_pos (by omega), if_pos (by omega), List.getElem?_append_right (by omega)]
      congr 1
      omega
    · rw [if_neg (by omega), if_neg first, if_neg (by omega)]

/-- A memory with the positions of the open files. -/
structure ByteFile (α : Type*) where
  mem : List α
  offs : Nat → Nat

namespace ByteFile

/-- A call on an open file. -/
inductive Call (α : Type*) where
  | read (f : Nat) (len : Nat)
  | write (f : Nat) (data : List α)
  | seek (f : Nat) (off : Nat)

/-- What a call hands out: the elements it delivers and the value it returns. -/
structure Reply (α : Type*) where
  data : List α
  ret : Int

/-- The memory and the positions after a call, and the reply. -/
def call (t : ByteFile α) : Call α → ByteFile α × Reply α
  | .read f len =>
    let hi := stop t.mem (t.offs f) len
    ({ t with offs := Function.update t.offs f (advance t.mem (t.offs f) len) },
      ⟨slice t.mem (t.offs f) hi, ((hi - t.offs f : Nat) : Int)⟩)
  | .write f data =>
    let hi := stop t.mem (t.offs f) data.length
    (⟨overlay t.mem (t.offs f) (data.take (hi - t.offs f)),
        Function.update t.offs f (advance t.mem (t.offs f) data.length)⟩,
      ⟨[], ((hi - t.offs f : Nat) : Int)⟩)
  | .seek f off => ({ t with offs := Function.update t.offs f off }, ⟨[], off⟩)

/-- The calls as a system that is never stuck. -/
def step (t : ByteFile α) (c : Call α) : Option (ByteFile α × Reply α) := some (t.call c)

/-- A read of no bytes does nothing. -/
lemma call_read_zero {t : ByteFile α} {f} : t.call (.read f 0) = (t, ⟨[], 0⟩) := by
  have none : stop t.mem (t.offs f) 0 - t.offs f = 0 := by
    unfold stop
    omega
  simp [call, slice, advance, none]

/-- Two reads in a row are one, in state and in data. -/
lemma call_read_read {t : ByteFile α} {f a b} :
    ((t.call (.read f a)).1.call (.read f b)).1 = (t.call (.read f (a + b))).1 ∧
      (t.call (.read f a)).2.data ++ ((t.call (.read f a)).1.call (.read f b)).2.data =
        (t.call (.read f (a + b))).2.data := by
  simp only [call, Function.update_self, Function.update_idem]
  exact ⟨by rw [advance_add], slice_append⟩

/-- A write of no bytes does nothing. -/
lemma call_write_nil {t : ByteFile α} {f} : t.call (.write f []) = (t, ⟨[], 0⟩) := by
  have none : stop t.mem (t.offs f) 0 - t.offs f = 0 := by
    unfold stop
    omega
  simp [call, advance, none]

/-- Two writes in a row are one, in state. -/
lemma call_write_write {t : ByteFile α} {f as bs} :
    ((t.call (.write f as)).1.call (.write f bs)).1 = (t.call (.write f (as ++ bs))).1 := by
  simp only [call, Function.update_self, Function.update_idem, overlay_take]
  have len : (overlay t.mem (t.offs f) as).length = t.mem.length := length_overlay
  have adv : ∀ off len, advance (overlay t.mem (t.offs f) as) off len = advance t.mem off len := by
    intro off k
    rw [advance, advance, stop, stop, len]
  rw [adv, advance_add, overlay_append, List.length_append]

/-- Reads of consecutive lengths deliver what one read of their sum delivers. -/
lemma reads_chunked {t : ByteFile α} {f} (ls : List Nat) :
    ∃ os, trace step t (ls.map (.read f)) = some ((t.call (.read f ls.sum)).1, os) ∧
      (os.map Reply.data).flatten = (t.call (.read f ls.sum)).2.data := by
  induction ls generalizing t with
  | nil =>
    rw [List.sum_nil, call_read_zero]
    exact ⟨[], rfl, rfl⟩
  | cons l ls ih =>
    obtain ⟨os, go, data⟩ := ih (t := (t.call (.read f l)).1)
    obtain ⟨state, split⟩ := call_read_read (t := t) (f := f) (a := l) (b := ls.sum)
    rw [state] at go
    refine ⟨(t.call (.read f l)).2 :: os, trace_cons rfl go, ?_⟩
    rw [List.map_cons, List.flatten_cons, data, split, List.sum_cons]

/-- Writes of consecutive blocks leave what one write of them all leaves. -/
lemma writes_chunked {t : ByteFile α} {f} (ds : List (List α)) :
    ∃ os, trace step t (ds.map (.write f)) = some ((t.call (.write f ds.flatten)).1, os) := by
  induction ds generalizing t with
  | nil =>
    rw [List.flatten_nil, call_write_nil]
    exact ⟨[], rfl⟩
  | cons d ds ih =>
    obtain ⟨os, go⟩ := ih (t := (t.call (.write f d)).1)
    rw [call_write_write] at go
    exact ⟨(t.call (.write f d)).2 :: os, trace_cons rfl go⟩

end ByteFile

end KernelModules
