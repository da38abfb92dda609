import KernelModules.Tasks.Source

/-!
# The task iterator goes around the ring

The iteration of `seq_file_procfs.c` starts at the task that reads, `current`, and shows the task
one link behind its cursor. It has no end: after `my_start` and any number of calls of `my_next` the
cursor is on the ring of tasks, and what `my_show` prints for it is the next task of the ring.

`iterator_walks_ring` says so for every ring, every task of it as `current` and every number of
calls; each task is shown once in any pass over as many records as there are tasks.
-/

namespace KernelModules.Tasks

/-- The cursor after `my_start` and `k` calls of `my_next`. -/
def cursor (h : Heap Task) (current : Loc) : Nat → Option (Option Loc)
  | 0 => some (myStart current)
  | k + 1 => (cursor h current k).bind (myNext h)

/-- The task that is shown after `k` calls of `my_next`. -/
def shownAt (h : Heap Task) (current : Loc) (k : Nat) : Option Loc :=
  (cursor h current k).bind (shownTask h)

variable {h : Heap Task} {c : Cycle Loc} {current : Loc} {cs : List Loc}

/-- A task with a link is in memory, and `my_next` follows the link. -/
lemma myNext_of_nextTask {l l'} (link : nextTask h l = some l') :
    myNext h (some l) = some (some l') := by
  obtain ⟨t, get, e⟩ := Option.bind_eq_some_iff.mp link
  rw [myNext]
  simp only [Option.bind_eq_bind, Option.bind_some, get, e]

/-- The cursor goes around the ring. -/
lemma cursor_eq (ring : Circular (nextTask h) ↑cs) (start : cs.head? = some current) (k : Nat) :
    cursor h current k = some (cs.rotate k).head? := by
  induction k with
  | zero =>
    rw [List.rotate_zero, start]
    rfl
  | succ k ih =>
    have link := ring.link k
    have ne : cs ≠ [] := List.ne_nil_of_mem (List.mem_of_head? start)
    obtain ⟨l', -, head'⟩ := exists_head_rotate ne (k + 1)
    rw [head'] at link ⊢
    obtain ⟨l, head, link⟩ := Option.bind_eq_some_iff.mp link
    rw [cursor, ih, head, Option.bind_some, myNext_of_nextTask link]

/-- The task shown at `k` is the one `k + 1` steps behind the start. -/
lemma shownAt_eq (ring : Circular (nextTask h) ↑cs) (start : cs.head? = some current) (k : Nat) :
    shownAt h current k = (cs.rotate (k + 1)).head? := by
  rw [shownAt, cursor_eq ring start]
  exact ring.link k

/-- One pass over the ring, from any record on. -/
lemma shownAt_pass (ring : Circular (nextTask h) ↑cs) (start : cs.head? = some current)
    (k : Nat) {j} (lt : j < cs.length) : shownAt h current (k + j) = (cs.rotate (k + 1))[j]? := by
  have ne : cs ≠ [] := List.ne_nil_of_length_pos (Nat.zero_lt_of_lt lt)
  rw [shownAt_eq ring start, head?_rotate_mod ne, List.getElem?_rotate lt]
  congr 2
  omega

/-- One turn shows each task exactly once. -/
lemma shownAt_once (ring : Circular (nextTask h) ↑cs) (start : cs.head? = some current)
    (k : Nat) {l} (mem : l ∈ cs) : ∃! j, j < cs.length ∧ shownAt h current (k + j) = some l := by
  have nodup : (cs.rotate (k + 1)).Nodup :=
    List.nodup_rotate.mpr (Cycle.nodup_coe_iff.mp ring.nodup)
  obtain ⟨j, at_⟩ := List.getElem?_of_mem (List.mem_rotate.mpr mem : l ∈ cs.rotate (k + 1))
  obtain ⟨lt, -⟩ := List.getElem?_eq_some_iff.mp at_
  have lt' : j < cs.length := by
    rw [List.length_rotate] at lt
    exact lt
  refine ⟨j, ⟨lt', (shownAt_pass ring start k lt').trans at_⟩, ?_⟩
  rintro i ⟨lti, shown⟩
  rw [shownAt_pass ring start k lti, ← at_] at shown
  exact (List.getElem?_inj (by rw [List.length_rotate]; exact lti) nodup).mp shown

/-- On every ring of tasks and from every task `current` on: the cursor never becomes `NULL`, the
    record `k` is that of the task `k + 1` links behind `current`, any pass over as many records as
    there are tasks shows each task once, and the first pass ends with `current`. -/
theorem iterator_walks_ring (ring : Circular (nextTask h) c) (mem : current ∈ c) :
    ∃ cs : List Loc, (↑cs : Cycle Loc) = c ∧ cs.head? = some current ∧
      (∀ k, ∃ v l t, cursor h current k = some (some v) ∧ cs[(k + 1) % c.length]? = some l ∧
        shownAt h current k = some l ∧ h.get l = some t ∧ myShow h (some v) = some t.record) ∧
      (∀ k, ∀ l ∈ c, ∃! j, j < c.length ∧ shownAt h current (k + j) = some l) ∧
      shownAt h current (c.length - 1) = some current := by
  obtain ⟨rest, rfl⟩ := exists_cons mem
  have start : (current :: rest).head? = some current := rfl
  have ne : current :: rest ≠ [] := List.cons_ne_nil current rest
  refine ⟨current :: rest, rfl, start, fun k => ?_, fun k l mem' => ?_, ?_⟩
  · obtain ⟨v, -, head⟩ := exists_head_rotate ne k
    obtain ⟨l, mem', head'⟩ := exists_head_rotate ne (k + 1)
    obtain ⟨t, get⟩ := exists_task ring (Cycle.mem_coe_iff.mpr mem')
    have shown : shownTask h (some v) = some l := by
      rw [← head, ← head']
      exact ring.link k
    refine ⟨v, l, t, ?_, ?_, (shownAt_eq ring start k).trans head', get, ?_⟩
    · rw [cursor_eq ring start, head]
    · rw [Cycle.length_coe, ← head?_rotate_mod ne, head']
    · rw [myShow, shown]
      simp only [Option.bind_eq_bind, Option.bind_some, get]
  · exact shownAt_once ring start k (Cycle.mem_coe_iff.mp mem')
  · rw [shownAt_eq ring start, Cycle.length_coe,
      Nat.sub_add_cancel (List.length_pos_iff.mpr ne), List.rotate_length]
    rfl

/-- Two tasks, the first of them `init`, linked to each other. -/
def twoTasks : Heap Task :=
  ⟨[(1, ⟨1, "init".toList, some 2, some (.children 1), some (.sibling 1),
    ⟨0x1000, 1, "init".toList⟩, 1,
      ⟨7, 0, 0, 0⟩, 0, some ⟨some 11, some 11⟩⟩),
    (2, ⟨2, "kthreadd".toList, some 1, some (.children 2), some (.sibling 2),
      ⟨0x2000, 2, "kthreadd".toList⟩, 1, ⟨9, 0, 0, 0⟩, 0, none⟩)], by decide⟩

/-- The two tasks are a ring. -/
lemma twoTasks_ring : Circular (nextTask twoTasks) ↑[1, 2] :=
  ⟨(Cycle.chain_coe_cons ..).mpr (by decide), Cycle.nodup_coe_iff.mpr (by decide)⟩

/-- An iteration by the second of two tasks, the cursor after any number of calls. -/
theorem iterator_walks_twoTasks :
    (∀ k, ∃ v, cursor twoTasks 2 k = some (some v)) ∧ shownAt twoTasks 2 1 = some 2 ∧
      myShow twoTasks (some 2) = some "1\t:\tinit\n".toList := by
  obtain ⟨cs, -, -, records, -, last⟩ :=
    iterator_walks_ring twoTasks_ring (Cycle.mem_coe_iff.mpr (by decide : 2 ∈ [1, 2]))
  refine ⟨fun k => ?_, last, rfl⟩
  obtain ⟨v, -, -, cursor, -⟩ := records k
  exact ⟨v, cursor⟩

end KernelModules.Tasks
