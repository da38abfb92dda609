import KernelModules.Tasks.Source

/-!
# The process walk ends and is complete

The loop of `hello_init` (`thread_tree.c`) has no counter: it follows the links of the tasks until
it is back at `init_task`. On a ring of tasks it visits each of them once. The children of a task
are walked in the same way, from its `children` until the loop is back there, and only for the task
with the pid 2.

`helloInit_walks_ring` gives the whole log: the lines of each task (`taskLines`) in ring order.
-/

namespace KernelModules.Tasks

/-- The line about a child. -/
def childLines (h : Heap Task) (k : Loc) : List Line :=
  (h.get k).elim [] fun child => [.child child.pid child.comm]

/-- The line about the child that a list head belongs to. -/
def ListHead.lines (h : Heap Task) : ListHead → List Line
  | sibling k => childLines h k
  | children _ => []

/-- The lines about a task whose children are given. -/
def taskLines (h : Heap Task) (kids : Loc → List Loc) (l : Loc) : List Line :=
  (h.get l).elim [] fun task =>
    task.lines ++ if task.pid = 2 then (kids l).flatMap (childLines h) else []

variable {h : Heap Task} {l : Loc} {ks : List Loc}

/-- The children of a task, from its `children` around to it again. -/
abbrev Children (h : Heap Task) (l : Loc) (ks : List Loc) : Prop :=
  Circular (ListHead.next h) ↑(ListHead.children l :: ks.map .sibling)

/-- A child is a task. -/
lemma Children.exists_task (ring : Children h l ks) {k} (mem : k ∈ ks) : ∃ t, h.get k = some t := by
  have inside : ListHead.sibling k ∈ ListHead.children l :: ks.map .sibling :=
    List.mem_cons_of_mem _ (List.mem_map_of_mem mem)
  obtain ⟨b, link⟩ := ring.exists_next (Cycle.mem_coe_iff.mpr inside)
  obtain ⟨t, get, -⟩ := Option.bind_eq_some_iff.mp link
  exact ⟨t, get⟩

/-- No child is on the list twice. -/
lemma Children.nodup (ring : Children h l ks) : ks.Nodup :=
  .of_map _ (List.nodup_cons.mp (Cycle.nodup_coe_iff.mp (Circular.nodup ring))).2

/-- The loop over the children visits each of them once, in order. -/
lemma listForEachEntry_eq (ring : Children h l ks) :
    listForEachEntry h l = some (ks.flatMap (childLines h)) := by
  obtain ⟨first, link⟩ := ring.exists_next (Cycle.mem_coe_iff.mpr List.mem_cons_self)
  have enough : (ks.map ListHead.sibling).length < h.size + 1 := by
    rw [List.length_map]
    refine Nat.lt_succ_of_le (Heap.length_le_size ring.nodup fun k mem => ?_)
    obtain ⟨t, get⟩ := ring.exists_task mem
    rw [get]
    exact Option.some_ne_none t
  have visits : ∀ b ∈ ks.map ListHead.sibling, visitChild h b = some (b.lines h) := by
    intro b mem
    obtain ⟨k, mem', rfl⟩ := List.mem_map.mp mem
    obtain ⟨t, get⟩ := ring.exists_task mem'
    simp [visitChild, ListHead.lines, childLines, get]
  rw [listForEachEntry, link]
  simp only [Option.bind_eq_bind, Option.bind_some]
  rw [ring.forLoop_eq link visits enough, List.flatMap_map]
  rfl

/-- The lines about a task, and about its children when it is the one with the pid 2. -/
lemma visit_eq {kids : Loc → List Loc} {task} (get : h.get l = some task)
    (ring : task.pid = 2 → Children h l (kids l)) : visit h l = some (taskLines h kids l) := by
  rw [visit, taskLines, get]
  simp only [Option.bind_eq_bind, Option.bind_some, Option.elim_some]
  by_cases kthreadd : task.pid = 2
  · rw [if_pos kthreadd, if_pos kthreadd, listForEachEntry_eq (ring kthreadd), Option.bind_some]
  · rw [if_neg kthreadd, if_neg kthreadd]

/-- On every ring of tasks that contains `init_task`, the loop of `hello_init` ends. It has visited
    each task once, `init_task` first and the others in ring order, and has logged the children of
    exactly the tasks with the pid 2, each child once and in the order of their list. -/
theorem helloInit_walks_ring {c : Cycle Loc} {initTask : Loc} (kids : Loc → List Loc)
    (ring : Circular (nextTask h) c) (mem : initTask ∈ c)
    (children : ∀ l ∈ c, ∀ task, h.get l = some task → task.pid = 2 → Children h l (kids l)) :
    ∃ rest, (↑(initTask :: rest) : Cycle Loc) = c ∧ (initTask :: rest).Nodup ∧
      (∀ l ∈ c, ∃ task, h.get l = some task ∧
        (task.pid = 2 → (kids l).Nodup ∧ ∀ k ∈ kids l, ∃ child, h.get k = some child)) ∧
      helloInit h initTask = some (.entering :: (initTask :: rest).flatMap (taskLines h kids)) := by
  obtain ⟨rest, rfl⟩ := exists_cons mem
  have nodup := Cycle.nodup_coe_iff.mp ring.nodup
  refine ⟨rest, rfl, nodup, fun l mem' => ?_, ?_⟩
  · obtain ⟨task, get⟩ := exists_task ring mem'
    refine ⟨task, get, fun kthreadd => ?_⟩
    have ring' := children l mem' task get kthreadd
    exact ⟨ring'.nodup, fun k mem'' => ring'.exists_task mem''⟩
  · have visits : ∀ l ∈ initTask :: rest, visit h l = some (taskLines h kids l) := by
      intro l mem'
      obtain ⟨task, get⟩ := exists_task ring (Cycle.mem_coe_iff.mpr mem')
      exact visit_eq get (children l (Cycle.mem_coe_iff.mpr mem') task get)
    have enough : rest.length < h.size + 1 := by
      have le := Heap.length_le_size nodup fun l mem' => by
        obtain ⟨task, get⟩ := exists_task ring (Cycle.mem_coe_iff.mpr mem')
        rw [get]
        exact Option.some_ne_none task
      exact Nat.lt_succ_of_lt le
    rw [helloInit, ring.doLoop_eq visits enough]
    rfl

/-- The swapper, `kthreadd` and a child of it. -/
def threeTasks : Heap Task :=
  ⟨[(10, ⟨0, "swapper".toList, some 12, some (.children 10), some (.sibling 10),
      ⟨0x1000, 0, "swapper".toList⟩, 1, ⟨0, 0, 0, 0⟩, 0, none⟩),
    (12, ⟨2, "kthreadd".toList, some 13, some (.sibling 13), some (.sibling 12),
      ⟨0x2000, 2, "kthreadd".toList⟩, 1, ⟨9, 0, 0, 0⟩, 0, none⟩),
    (13, ⟨3, "ksoftirqd/0".toList, some 10, some (.children 13), some (.children 12),
      ⟨0x3000, 3, "ksoftirqd/0".toList⟩, 1, ⟨5, 0, 0, 0⟩, 0, none⟩)], by decide⟩

/-- The walk over three tasks, with the child of `kthreadd`. -/
theorem helloInit_walks_threeTasks :
    ∃ rest, (↑(10 :: rest) : Cycle Loc) = ↑[10, 12, 13] ∧ helloInit threeTasks 10 =
      some (.entering :: (10 :: rest).flatMap (taskLines threeTasks fun _ => [13])) := by
  have ring : Circular (nextTask threeTasks) ↑[10, 12, 13] :=
    ⟨(Cycle.chain_coe_cons ..).mpr (by decide), Cycle.nodup_coe_iff.mpr (by decide)⟩
  have kids : Children threeTasks 12 [13] :=
    ⟨(Cycle.chain_coe_cons ..).mpr (by decide), Cycle.nodup_coe_iff.mpr (by decide)⟩
  obtain ⟨rest, order, -, -, log⟩ := helloInit_walks_ring (fun _ => [13]) ring
    (Cycle.mem_coe_iff.mpr List.mem_cons_self) fun l mem task get kthreadd => by
      rcases List.mem_cons.mp (Cycle.mem_coe_iff.mp mem) with rfl | mem
      · cases get
        exact absurd kthreadd (by decide)
      · rcases List.mem_cons.mp mem with rfl | mem
        · exact kids
        · cases List.mem_singleton.mp mem
          cases get
          exact absurd kthreadd (by decide)
  exact ⟨rest, order, log⟩

end KernelModules.Tasks
