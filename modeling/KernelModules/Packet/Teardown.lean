import KernelModules.Packet.Rep

/-!
# The shape of the packet list, and its teardown

The critical sections of `network_procfs.c`, `add_to_list_network` with any string that fits and
`my_write`, in any order. They only ever append to the list: the addresses and the texts of its
cells stay (`Rep.op`, and `Rep.ops` for runs). The empty string is a case of its own: it is the text
of the root, which then counts the packet.

`list_of_ops` says what the list is after every run from `init_packet`, and that `free(root)` then
gives back every node that was ever allocated, each once.
-/

namespace KernelModules.Packet

/-- A critical section. A call of `add_to_list_network` comes with the address and the old contents
    of the node that `kmem_cache_alloc` returns, should it need one. -/
inductive Op where
  | add (saddr : List Char) (dataSize : BitVec 32) (l : Loc) (junk : Node)
  | clear (len : BitVec 64)

/-- One critical section. -/
def opStep (s : Net) : Op → Option Net
  | .add saddr dataSize l junk => addToListNetwork s saddr dataSize (some (l, junk))
  | .clear len => (myWrite s len).map Prod.fst

/-- The string fits into `addr`, and the allocator answers a free address. -/
def OpOk (s : Net) : Op → Prop
  | .add saddr _ l _ => saddr.length ≤ 15 ∧ s.heap.get l = none
  | .clear _ => True

/-- The nodes allocated so far: those that were live at some time. Until `free` runs, no critical
    section gives one back. -/
def Allocated (s : Net) (ops : List Op) (l : Loc) : Prop :=
  ∃ pre s1, pre <+: ops ∧ run opStep s pre = some s1 ∧ s1.heap.get l ≠ none

/-- What the list has to look like, given its cells with the root: it ends, without a cycle; `tail`
    is the last cell and the only one without a successor; and no two cells have the same text, not
    even the empty one of the root. -/
structure WellFormed (s : Net) (cs : List (Loc × Node)) : Prop where
  chain : Chain Node.next s.heap s.root cs
  acyclic : (cs.map Prod.fst).Nodup
  tail : ∃ pre t, cs = pre ++ [t] ∧ s.tail = some t.1 ∧ ∀ c ∈ cs, c.2.next = none ↔ c = t
  sentinel : cs.head?.map (·.2.addr) = some []
  distinct : (cs.map (·.2.addr)).Nodup

section
variable {s : Net} {r : Loc × Node} {cs : List (Loc × Node)}

/-- A list that is represented is well-formed. -/
lemma Rep.wellFormed (rep : Rep s r cs) : WellFormed s (r :: cs) := by
  refine ⟨rep.chain, rep.chain.nodup, ?_, congrArg some rep.sentinel, rep.distinct⟩
  obtain ⟨pre, t, e, et⟩ := rep.last
  refine ⟨pre, t, e, et, fun c mem => ?_⟩
  have chain := rep.chain
  rw [e] at chain mem
  exact chain.next_eq_none mem

/-- The cells of a first part are cells of the whole. -/
lemma mem_map_of_skeleton {ds es : List (Loc × Node)} {k} (pre : skeleton ds <+: skeleton es)
    (mem : k ∈ ds.map Prod.fst) : k ∈ es.map Prod.fst := by
  have fst : ∀ cs, cs.map Prod.fst = (skeleton cs).map Prod.fst := by
    intro cs
    rw [skeleton, List.map_map]
    rfl
  rw [fst] at mem ⊢
  exact (pre.map Prod.fst).subset mem

/-- A critical section goes through, keeps the invariant and at most appends a cell. -/
lemma Rep.op {o} (rep : Rep s r cs) (ok : OpOk s o) :
    ∃ s' r' cs', opStep s o = some s' ∧ Rep s' r' cs' ∧
      skeleton (r :: cs) <+: skeleton (r' :: cs') := by
  cases o with
  | add a d l junk =>
    obtain ⟨short, free⟩ := ok
    by_cases known : a ∈ (r :: cs).map (·.2.addr)
    · obtain ⟨⟨k, v⟩, mem, ea⟩ := List.mem_map.mp known
      obtain ⟨s', st, rep'⟩ := rep.credit d mem ea
      have same := rep.skeleton_replace (w := v.credited d) mem rfl
      exact ⟨s', _, _, st, rep', same ▸ List.prefix_rfl⟩
    · obtain ⟨s', r', cs', st, rep', -, same⟩ :=
        rep.grow junk d known (Nat.lt_succ_of_le short) free
      refine ⟨s', r', _, st, rep', ?_⟩
      rw [← same, ← List.cons_append, skeleton_append]
      exact List.prefix_append _ _
  | clear len =>
    obtain ⟨s', st, rep'⟩ := rep.clear len
    refine ⟨s', _, _, ?_, rep', ?_⟩
    · rw [opStep, st]
      rfl
    · rw [← List.map_cons (f := fun c : Loc × Node => (c.1, c.2.cleared)), skeleton, skeleton,
        List.map_map]
      exact List.prefix_rfl

/-- Critical sections keep the representation, and only append cells. -/
lemma Rep.ops {os} (rep : Rep s r cs) (ad : Admits OpOk opStep s os) :
    ∃ s' r' cs', run opStep s os = some s' ∧ Rep s' r' cs' ∧
      skeleton (r :: cs) <+: skeleton (r' :: cs') := by
  let P : Net → Prop := fun s' =>
    ∃ r' cs', Rep s' r' cs' ∧ skeleton (r :: cs) <+: skeleton (r' :: cs')
  have next : ∀ {s1 o}, P s1 → OpOk s1 o → ∃ s2, opStep s1 o = some s2 ∧ P s2 := by
    rintro s1 o ⟨r1, cs1, rep1, pre1⟩ ok
    obtain ⟨s2, r2, cs2, st, rep2, pre2⟩ := rep1.op ok
    exact ⟨s2, st, r2, cs2, rep2, pre1.trans pre2⟩
  obtain ⟨s', go, r', cs', rep', pre⟩ := ad.run_keeps (P := P) next ⟨r, cs, rep, List.prefix_rfl⟩
  exact ⟨s', r', cs', go, rep', pre⟩

/-- The cells are the nodes allocated so far. -/
lemma Rep.allocated_iff {s' r' cs' os k} (rep : Rep s r cs) (ad : Admits OpOk opStep s os)
    (go : run opStep s os = some s') (rep' : Rep s' r' cs') :
    Allocated s os k ↔ k ∈ (r' :: cs').map Prod.fst := by
  constructor
  · rintro ⟨pre, s1, ⟨post, rfl⟩, go1, live⟩
    obtain ⟨s2, r1, cs1, go2, rep1, -⟩ := rep.ops ad.of_append
    cases go1.symm.trans go2
    obtain ⟨s3, r3, cs3, go3, rep3, grown⟩ := rep1.ops (ad.rest go1)
    rw [run_append, go1, Option.bind_some, go3] at go
    cases go
    -- the cells of a state are determined by it
    rw [rep'.chain.unique rep3.chain]
    obtain ⟨v, g⟩ := Option.ne_none_iff_exists'.mp live
    exact mem_map_of_skeleton grown (List.mem_map_of_mem (rep1.all g))
  · intro mem
    obtain ⟨c, mc, rfl⟩ := List.mem_map.mp mem
    refine ⟨os, s', List.prefix_rfl, go, ?_⟩
    rw [rep'.chain.get mc]
    exact Option.some_ne_none _

/-- `free` gives back the cells of a chain, the last one first. -/
lemma free_chain {n p} (c : Chain Node.next s.heap p cs) (lt : cs.length < n) :
    ∃ h, free n s p = some ({ s with heap := h }, (cs.map Prod.fst).reverse) ∧
      (∀ k ∈ cs.map Prod.fst, h.get k = none) ∧ ∀ k ∉ cs.map Prod.fst, h.get k = s.heap.get k := by
  induction c generalizing n with
  | nil =>
    cases n with
    | zero => cases lt
    | succ n => exact ⟨s.heap, rfl, nofun, fun _ _ => rfl⟩
  | @cons l v cs g c ih =>
    cases n with
    | zero => cases lt
    | succ n =>
      obtain ⟨h, st, gone, kept⟩ := ih (Nat.lt_of_succ_lt_succ lt)
      -- the node of this call is still there when the nested call returns
      have here : h.get l = some v := by
        rw [kept l (List.nodup_cons.mp (Chain.cons g c).nodup).1]
        exact g
      refine ⟨h.free l, ?_, ?_, ?_⟩
      · simp only [free, Net.load_eq, g, Option.bind_eq_bind, Option.bind_some, st,
          Net.kmemCacheFree, here, List.map_cons, List.reverse_cons]
      · intro k mem
        by_cases e : k = l
        · rw [e]
          exact Heap.get_free_self
        · rw [Heap.get_free_of_ne e]
          exact gone k (List.mem_of_ne_of_mem e mem)
      · intro k out
        obtain ⟨ne, out⟩ := not_or.mp (mt List.mem_cons.mpr out)
        rw [Heap.get_free_of_ne ne]
        exact kept k out

end

/-- After every run of critical sections from `init_packet` the list is well formed and holds every
    node ever allocated; and `free(root)` goes through, that is without reading a freed node, passes
    every node ever allocated to `kmem_cache_free` once, and leaves none. -/
theorem list_of_ops (l : Loc) (junk : Node) (ok : Bool) :
    ∃ m, run InitOp.exec .boot (initPacket l junk ok) = some m ∧
      ∀ ops, Admits OpOk opStep m.net ops →
        ∃ s cs, run opStep m.net ops = some s ∧ WellFormed s cs ∧
          (∀ k, k ∈ cs.map Prod.fst ↔ Allocated m.net ops k) ∧
          ∀ n, cs.length < n → ∃ s' freed, free n s s.root = some (s', freed) ∧ freed.Nodup ∧
            (∀ k, k ∈ freed ↔ Allocated m.net ops k) ∧ ∀ k, s'.heap.get k = none := by
  obtain ⟨m, r, init, rep⟩ := Rep.initPacket l junk ok
  refine ⟨m, init, fun ops ad => ?_⟩
  obtain ⟨s, r', cs, go, rep', -⟩ := rep.ops ad
  have cells : ∀ k, k ∈ (r' :: cs).map Prod.fst ↔ Allocated m.net ops k :=
    fun k => (rep.allocated_iff ad go rep').symm
  refine ⟨s, r' :: cs, go, rep'.wellFormed, cells, fun n lt => ?_⟩
  obtain ⟨h, st, gone, kept⟩ := free_chain rep'.chain lt
  refine ⟨_, _, st, List.nodup_reverse.mpr rep'.chain.nodup, fun k => ?_, fun k => ?_⟩
  · rw [List.mem_reverse]
    exact cells k
  · by_cases mem : k ∈ (r' :: cs).map Prod.fst
    · exact gone k mem
    · -- there was no node outside of the list
      refine (kept k mem).trans (Option.eq_none_iff_forall_ne_some.mpr fun v g => ?_)
      exact mem (List.mem_map_of_mem (rep'.all g))

/-- A packet of a new source, one with the empty text, a clear, the new source again and another
    one. -/
def mixedOps : List Op :=
  [.add "10.0.0.1".toList 100 1 ⟨[], 7, 7, some 9⟩, .add [] 50 2 ⟨[], 0, 0, none⟩, .clear 1,
    .add "10.0.0.1".toList 8 2 ⟨[], 0, 0, none⟩, .add "10.0.0.2".toList 3 2 ⟨['x'], 0, 0, some 2⟩]

/-- After several critical sections `free` gives back each node, once. -/
theorem list_of_mixedOps :
    ∃ m, run InitOp.exec .boot (initPacket 0 ⟨['x'], 3, 3, some 9⟩ true) = some m ∧
      Admits OpOk opStep m.net mixedOps ∧
      ∃ s cs, run opStep m.net mixedOps = some s ∧ WellFormed s cs ∧
        (∀ k, k ∈ cs.map Prod.fst ↔ Allocated m.net mixedOps k) ∧
        ∃ s' freed, free (cs.length + 1) s s.root = some (s', freed) ∧ freed.Nodup ∧
          (∀ k, k ∈ freed ↔ Allocated m.net mixedOps k) ∧ ∀ k, s'.heap.get k = none := by
  obtain ⟨m, init, all⟩ := list_of_ops 0 ⟨['x'], 3, 3, some 9⟩ true
  have ad : Admits OpOk opStep m.net mixedOps := by
    cases init
    refine ⟨⟨by decide, rfl⟩, fun s1 st1 => ?_⟩
    cases st1
    refine ⟨⟨by decide, rfl⟩, fun s2 st2 => ?_⟩
    cases st2
    refine ⟨trivial, fun s3 st3 => ?_⟩
    cases st3
    refine ⟨⟨by decide, rfl⟩, fun s4 st4 => ?_⟩
    cases st4
    exact ⟨⟨by decide, rfl⟩, fun _ _ => trivial⟩
  obtain ⟨s, cs, go, wf, cells, freed⟩ := all mixedOps ad
  exact ⟨m, init, ad, s, cs, go, wf, cells, freed _ (Nat.lt_succ_self _)⟩

end KernelModules.Packet
