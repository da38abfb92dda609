import KernelModules.Base.SeqFile
import KernelModules.Tasks.Iterator

/-!
# Reading the task file

`seq_read` calls `my_start` at the beginning of every batch of records, and `my_start` does not look
at the position: every batch begins with the task behind `current`. The iteration has no end, so
that a read never returns 0 and a program that reads until then never stops. How many tasks it sees
depends on the size of its reads: a batch ends with the record that reaches the size.

* `restarting`: the iterator as a restarting one in the sense of `SeqFile.Restarting`.
* `task_file_repeats`: what any reads deliver. `first_task_only`: reads that are not longer than the
  first record show nothing but the task behind `current`.
-/

namespace KernelModules.Tasks

open SeqFile

variable {h : Heap Task} {c : Cycle Loc} {current : Loc} {cs : List Loc}

/-- A record has a text. -/
lemma Task.record_ne_nil (t : Task) : t.record ≠ [] :=
  List.append_ne_nil_of_right_ne_nil _ (List.cons_ne_nil '\n' [])

/-- The record of a task. -/
def Task.toRecord (t : Task) : Record := ⟨t.record, t.record_ne_nil⟩

/-- The operations of `swaps_op`, when the task `current` reads. -/
def swapsOp (h : Heap Task) (current : Loc) : SeqOps Loc where
  start pos := some (myStart current, pos)
  next v pos := (myNext h (some v)).map fun ptr => (ptr, pos)
  render v := ((shownTask h (some v)).bind h.get).map Task.toRecord

/-- What is printed for a cursor is what `my_show` prints. -/
lemma swapsOp_render (v : Loc) :
    ((swapsOp h current).render v).map Subtype.val = myShow h (some v) := by
  rw [myShow]
  show (((shownTask h (some v)).bind h.get).map Task.toRecord).map Subtype.val = _
  cases shownTask h (some v) with
  | none => rfl
  | some ptr =>
    rw [Option.bind_some, Option.bind_eq_bind, Option.bind_some]
    cases h.get ptr with
    | none => rfl
    | some task => rfl

/-- The record `i` of the iteration, with its cursor. -/
def recordAt (h : Heap Task) (current : Loc) (i : Nat) : Option (Loc × Record) := do
  let v ← cursor h current i
  let v ← v
  let ptr ← shownAt h current i
  let task ← h.get ptr
  some (v, task.toRecord)

/-- The cursor `i` and the record shown there, which is that of the next task. -/
lemma recordAt_eq (ring : Circular (nextTask h) ↑cs) (start : cs.head? = some current) (i : Nat) :
    ∃ v l t, cursor h current i = some (some v) ∧ shownAt h current i = some l ∧
      cursor h current (i + 1) = some (some l) ∧ h.get l = some t ∧ nextTask h v = some l ∧
      recordAt h current i = some (v, t.toRecord) := by
  have ne : cs ≠ [] := List.ne_nil_of_mem (List.mem_of_head? start)
  obtain ⟨v, -, head⟩ := exists_head_rotate ne i
  obtain ⟨l, mem, head'⟩ := exists_head_rotate ne (i + 1)
  obtain ⟨t, get⟩ := exists_task ring (Cycle.mem_coe_iff.mpr mem)
  have link := ring.link i
  rw [head, head'] at link
  have at_ : cursor h current i = some (some v) :=
    (cursor_eq ring start i).trans (congrArg some head)
  have shown : shownAt h current i = some l := (shownAt_eq ring start i).trans head'
  refine ⟨v, l, t, at_, shown, (cursor_eq ring start (i + 1)).trans (congrArg some head'), get,
    link, ?_⟩
  simp only [recordAt, at_, shown, get, Option.bind_eq_bind, Option.bind_some]

/-- The iterator starts again at the same task for every position. -/
lemma restarting (ring : Circular (nextTask h) ↑cs) (start : cs.head? = some current) :
    Restarting (swapsOp h current) (recordAt h current) := by
  refine ⟨fun p => ?_, fun {i r} at_ p => ?_, fun {i r} at_ => ?_⟩
  · obtain ⟨v, l, t, cur, -, -, -, -, rec⟩ := recordAt_eq ring start 0
    rw [rec]
    cases cur
    rfl
  · obtain ⟨v, l, t, cur, -, cur', -, link, rec⟩ := recordAt_eq ring start i
    obtain ⟨v', l', t', cur'', -, -, -, -, rec'⟩ := recordAt_eq ring start (i + 1)
    cases cur'.symm.trans cur''
    cases rec.symm.trans at_
    rw [rec']
    exact congrArg (Option.map _) (myNext_of_nextTask link)
  · obtain ⟨v, l, t, -, -, -, get, link, rec⟩ := recordAt_eq ring start i
    cases rec.symm.trans at_
    have at_v : shownTask h (some v) = some l := link
    show ((shownTask h (some v)).bind h.get).map Task.toRecord = _
    rw [at_v, Option.bind_some, get]
    rfl

/-- On every ring of tasks, from every task `current` on, and for every sequence of reads: all of
    them go through and none returns 0. What they deliver are batches of records, each of which
    starts again with the task behind `current` and has no more records than it takes to reach the
    size of a read. -/
theorem task_file_repeats {max ns} (size : Nat) (ring : Circular (nextTask h) c) (mem : current ∈ c)
    (sizes : ∀ n ∈ ns, 0 < n ∧ n ≤ max) :
    ∃ m out, reads (swapsOp h current) (opened size) ns = some (m, out) ∧
      Restarted (recordAt h current) max m out ∧
      ∀ n, 0 < n → ∃ m' t, seqRead (swapsOp h current) m n = some (m', t) ∧ t ≠ [] := by
  obtain ⟨rest, rfl⟩ := exists_cons mem
  have start : (current :: rest).head? = some current := rfl
  have re := restarting ring start
  obtain ⟨m, out, go, del⟩ := re.reads max sizes
  obtain ⟨v, l, t, -, -, -, -, -, rec⟩ := recordAt_eq ring start 0
  have some_ : recordAt h current 0 ≠ none := rec ▸ Option.some_ne_none _
  exact ⟨m, out, go, del, fun n pos => re.seqRead_ne_nil some_ del pos⟩

/-- A read of 20 bytes by the second of two tasks has the records of both, and the next batch begins
    with the first one again. -/
theorem task_file_repeats_twoTasks :
    ∃ m out, reads (swapsOp twoTasks 2) (opened 4096) [20, 10, 8] = some (m, out) ∧
      out = "1\t:\tinit\n2\t:\tkthreadd\n1\t:\tinit\n1\t:\tini".toList ∧
      ∃ m' t, seqRead (swapsOp twoTasks 2) m 1 = some (m', t) ∧ t ≠ [] := by
  have sizes : ∀ n ∈ [20, 10, 8], 0 < n ∧ n ≤ 20 := by
    decide
  obtain ⟨m, out, go, -, more⟩ := task_file_repeats 4096 twoTasks_ring
    (Cycle.mem_coe_iff.mpr (by decide : 2 ∈ [1, 2])) sizes
  refine ⟨m, out, go, ?_, more 1 Nat.one_pos⟩
  have texts : (reads (swapsOp twoTasks 2) (opened 4096) [20, 10, 8]).map Prod.snd =
      some "1\t:\tinit\n2\t:\tkthreadd\n1\t:\tinit\n1\t:\tini".toList := by
    decide +kernel
  rw [go] at texts
  exact Option.some.inj texts

/-- A reader whose reads are not longer than the record of the task behind `current` gets that
    record again and again, and sees no other task. -/
theorem first_task_only {l t size ns} (ring : Circular (nextTask h) c) (mem : current ∈ c)
    (link : nextTask h current = some l) (get : h.get l = some t)
    (small : ∀ n ∈ ns, 0 < n ∧ n ≤ t.record.length) :
    ∃ m out j, reads (swapsOp h current) (opened size) ns = some (m, out) ∧
      out ++ m.pending = (List.replicate j t.record).flatten := by
  obtain ⟨rest, rfl⟩ := exists_cons mem
  have start : (current :: rest).head? = some current := rfl
  have first : recordAt h current 0 = some (current, t.toRecord) := by
    obtain ⟨v, l', t', cur, -, -, get', link', rec⟩ := recordAt_eq ring start 0
    cases cur
    cases link.symm.trans link'
    cases get.symm.trans get'
    exact rec
  obtain ⟨m, out, go, ks, txt, wanted⟩ := (restarting ring start).reads t.record.length small
  have ones : ks = List.replicate ks.length 1 := by
    refine List.eq_replicate_iff.mpr ⟨rfl, fun k mem => ?_⟩
    obtain ⟨pos, -, short⟩ := wanted k mem
    by_contra more
    -- the records before the last one of a batch would be at least as long as the first one
    have long := firstText_mono (recordAt h current) (show 1 ≤ k - 1 by omega)
    rw [firstText_one first] at long
    exact absurd (Nat.lt_of_le_of_lt long.length_le short) (Nat.lt_irrefl _)
  refine ⟨m, out, ks.length, go, ?_⟩
  rw [txt, ones, List.map_replicate, List.length_replicate, firstText_one first]
  rfl

/-- Reads of 5 bytes by the second of two tasks. -/
theorem first_task_only_twoTasks :
    ∃ m out j, reads (swapsOp twoTasks 2) (opened 4096) [5, 5, 5, 5, 5] = some (m, out) ∧
      out ++ m.pending = (List.replicate j "1\t:\tinit\n".toList).flatten :=
  first_task_only twoTasks_ring (Cycle.mem_coe_iff.mpr (by decide : 2 ∈ [1, 2])) rfl rfl (by decide)

end KernelModules.Tasks
