import KernelModules.Packet.Teardown

/-!
# Publication of packet nodes

The readers of the list of `network_procfs.c` (`my_start`, `my_next`, `my_show`) take no lock, so
they see the states between the assignments of `add_to_list_network` (`Stmt`). A ghost beside the
list records which fields of a node the code has set since the node was allocated (`Marks`): a node
that is reachable from `root` should have them all (`Published`).

A call for a source that has a node keeps this in every intermediate state. A call that allocates
does not: its first assignment links the new node, none of whose fields has been set
(`Rep.reaches_linkAlloc`), or, when the allocation fails, leads to a store through `NULL`
(`exec_addAssigns_none`). `publishes_iff` says so for every list that the critical sections build
from `init_packet`.
-/

namespace KernelModules.Packet

/-! ## The assignments of a call -/

/-- An assignment of `add_to_list_network`. -/
inductive Stmt where
  | atomicInc (l : Loc)    -- atomic_inc(&(temp->count))
  | atomicAdd (l : Loc)    -- atomic64_add(data_size, &(temp->data_used))
  | assign (a : Assign)

/-- One assignment. -/
def Stmt.exec (saddr : List Char) (dataSize : BitVec 32) (s : Net) : Stmt → Option Net
  | atomicInc l => s.store (some l) fun v => { v with count := v.count + 1 }
  | atomicAdd l =>
    s.store (some l) fun v => { v with dataUsed := v.dataUsed + dataSize.signExtend 64 }
  | assign a => a.exec saddr dataSize s

/-- The assignments that a call makes. -/
def addStmts (s : Net) (saddr : List Char) (ans : Answer) : Option (List Stmt) := do
  match ← searchLoop s.heap saddr (s.heap.size + 1) s.root with
  | some l => some [.atomicInc l, .atomicAdd l]
  | none => some ((addAssigns ans).map .assign)

/-- The assignments run as statements. -/
lemma run_assigns {s : Net} {a d as} :
    run (Stmt.exec a d) s (as.map .assign) = run (Assign.exec a d) s as := run_map

/-- A call makes its assignments one after the other. -/
lemma addToListNetwork_eq {s : Net} {a d ans} :
    addToListNetwork s a d ans = (addStmts s a ans).bind fun sts => run (Stmt.exec a d) s sts := by
  unfold addToListNetwork addStmts
  cases searchLoop s.heap a (s.heap.size + 1) s.root with
  | none => rfl
  | some found =>
    cases found with
    | none => exact run_assigns.symm
    | some l =>
      simp only [Option.bind_eq_bind, Option.bind_some, run_cons, run_nil, Stmt.exec,
        Option.bind_fun_some]

/-! ## Which fields have been set -/

/-- The fields of a node. -/
inductive Field where
  | addr
  | count
  | dataUsed
  | next
  deriving Repr, DecidableEq

/-- Whether the code has set a field of the node at an address. -/
abbrev Marks := Loc → Field → Bool

namespace Marks

/-- A field, if any, is set through a pointer. -/
def set (g : Marks) (p : Option Loc) (o : Option Field) : Marks :=
  fun l f => g l f || decide (p = some l ∧ o = some f)

/-- Nothing in a new node has been set. -/
def alloc (g : Marks) : Answer → Marks
  | none => g
  | some (l, _) => fun l' f => g l' f && decide (l' ≠ l)

variable {g : Marks} {p : Option Loc} {k l : Loc} {f : Field} {o : Option Field}

/-- A field that is set is marked. -/
lemma set_self : (g.set (some l) (some f)) l f = true := by
  simp [set]

/-- An assignment to no field marks nothing. -/
lemma set_none : g.set p none = g := by
  funext l f
  simp [set]

/-- Marks stay. -/
lemma set_mono (old : g k f = true) : (g.set p o) k f = true := by
  simp [set, old]

/-- An allocation takes the marks of its own node only. -/
lemma alloc_mono {ans : Answer} (other : ∀ junk, ans ≠ some (k, junk)) (old : g k f = true) :
    (g.alloc ans) k f = true := by
  cases ans with
  | none => exact old
  | some answer =>
    have ne : k ≠ answer.1 := fun e => other answer.2 (e ▸ rfl)
    simp [alloc, old, ne]

end Marks

section
variable {σ ε : Type*} {exec : σ → ε → Option σ} {ptr : σ → Option Loc} {answer : ε → Answer}
  {field : ε → Option Field}

/-- The marks after a statement that allocates `answer e` and sets `field e` through `ptr`. -/
def marksAfter (ptr : σ → Option Loc) (answer : ε → Answer) (field : ε → Option Field) (s : σ)
    (g : Marks) (e : ε) : Marks :=
  (g.alloc (answer e)).set (ptr s) (field e)

/-- A mark stays until its node is allocated again. -/
lemma run_marks_mono {x y : σ × Marks} {es k f}
    (other : ∀ e ∈ es, ∀ junk, answer e ≠ some (k, junk))
    (go : run (ghosted exec (marksAfter ptr answer field)) x es = some y) (old : x.2 k f = true) :
    y.2 k f = true := by
  refine run_invariant (P := fun x => x.2 k f = true) ?_ old other go
  intro s e s' old other st
  obtain ⟨-, e'⟩ := ghosted_eq_some.mp st
  rw [← e']
  exact Marks.set_mono (Marks.alloc_mono other old)

/-- While the pointer stays on a node, the fields that are set through it get their marks there. -/
lemma run_marks_set {x y : σ × Marks} {es p f} (noAlloc : ∀ e ∈ es, answer e = none)
    (keeps : ∀ e ∈ es, ∀ s s', exec s e = some s' → ptr s' = ptr s)
    (go : run (ghosted exec (marksAfter ptr answer field)) x es = some y) (on : ptr y.1 = some p)
    (sets : some f ∈ es.map field) : y.2 p f = true := by
  obtain ⟨e, mem, ef⟩ := List.mem_map.mp sets
  obtain ⟨pre, post, rfl⟩ := List.append_of_mem mem
  obtain ⟨x1, -, go1⟩ := run_split go
  obtain ⟨x2, st, go2⟩ := Option.bind_eq_some_iff.mp go1
  obtain ⟨ex, marks⟩ := ghosted_eq_some.mp st
  have later : ∀ e' ∈ post, e' ∈ pre ++ e :: post := fun e' mem' =>
    List.mem_append_right pre (List.mem_cons_of_mem e mem')
  have kept : ptr y.1 = ptr x2.1 := by
    refine run_invariant (P := fun z => ptr z.1 = ptr x2.1) ?_ rfl
      (fun e' mem' => keeps e' (later e' mem')) go2
    exact fun inv keep st => (keep _ _ (ghosted_eq_some.mp st).1).trans inv
  have set : x2.2 p f = true := by
    rw [← marks, marksAfter, ← keeps e mem _ _ ex, ← kept, on, ef]
    exact Marks.set_self
  refine run_marks_mono (fun e' mem' junk again => ?_) go2 set
  rw [noAlloc e' (later e' mem')] at again
  cases again

end

/-- The node that an assignment allocates. -/
def Stmt.answer : Stmt → Answer
  | assign (.linkAlloc ans) => ans
  | _ => none

/-- The field that an assignment sets through `tail`; adding to a field does not set it. -/
def Stmt.field : Stmt → Option Field
  | assign (.linkAlloc _) => some .next
  | assign .setCount => some .count
  | assign .setDataUsed => some .dataUsed
  | assign .strcpyAddr => some .addr
  | assign .nextNull => some .next
  | _ => none

/-- The node that a statement of `init_packet` allocates. -/
def InitOp.answer : InitOp → Answer
  | rootAlloc l junk => some (l, junk)
  | _ => none

/-- The field that a statement of `init_packet` sets through `root`. -/
def InitOp.field : InitOp → Option Field
  | rootCount => some .count
  | rootDataUsed => some .dataUsed
  | rootNext => some .next
  | rootAddr => some .addr
  | _ => none

/-- The marks after an assignment. -/
def Stmt.mark : Net → Marks → Stmt → Marks := marksAfter Net.tail Stmt.answer Stmt.field

/-- The marks after a statement of `init_packet`. -/
def InitOp.mark : Module → Marks → InitOp → Marks :=
  marksAfter (·.net.root) InitOp.answer InitOp.field

/-- A list with its marks. -/
abbrev Marked := Net × Marks

/-- One assignment, with the marks. -/
def Stmt.execMarked (saddr : List Char) (dataSize : BitVec 32) : Marked → Stmt → Option Marked :=
  ghosted (Stmt.exec saddr dataSize) Stmt.mark

/-- The marks after a critical section. A clear sets fields that are set already. -/
def Op.mark (s : Net) (g : Marks) : Op → Marks
  | add saddr dataSize l junk =>
    (((addStmts s saddr (some (l, junk))).bind fun sts =>
      run (Stmt.execMarked saddr dataSize) (s, g) sts).map Prod.snd).getD g
  | clear _ => g

/-- Every node that a reader can reach has had all its fields set. -/
def Published (x : Marked) : Prop :=
  ∀ l, Reaches Node.next x.1.heap x.1.root l → ∀ f, x.2 l f = true

/-- What a call of `add_to_list_network` owes to the readers: it comes to its end, the list is
    published in every state between two assignments, and a failed allocation leaves the list and
    `tail` as they were. -/
def Publishes (x : Marked) (saddr : List Char) (dataSize : BitVec 32) (ans : Answer) : Prop :=
  ∃ sts y, addStmts x.1 saddr ans = some sts ∧ run (Stmt.execMarked saddr dataSize) x sts = some y ∧
    (∀ pre z, pre <+: sts → run (Stmt.execMarked saddr dataSize) x pre = some z → Published z) ∧
    (Stmt.assign (.linkAlloc none) ∈ sts →
      y.1.root = x.1.root ∧ y.1.tail = x.1.tail ∧ ∀ l, y.1.heap.get l = x.1.heap.get l)

/-- The representation invariant, and every cell has its fields set. -/
structure Complete (x : Marked) (r : Loc × Node) (cs : List (Loc × Node)) : Prop where
  rep : Rep x.1 r cs
  set : ∀ c ∈ r :: cs, ∀ f, x.2 c.1 f = true

section
variable {x : Marked} {r : Loc × Node} {cs : List (Loc × Node)}

/-- A list whose nodes are complete is published. -/
lemma Complete.published (co : Complete x r cs) : Published x := by
  intro l re f
  obtain ⟨c, mem, rfl⟩ := List.mem_map.mp (co.rep.chain.mem_of_reaches re)
  exact co.set c mem f

/-- A store to a counter keeps the nodes complete. -/
lemma Complete.store {l v} {f : Node → Node} (co : Complete x r cs) (get : x.1.heap.get l = some v)
    (addr : (f v).addr = v.addr) (next : (f v).next = v.next) :
    Complete ({ x.1 with heap := x.1.heap.set l (f v) }, x.2) (Heap.replace l (f v) r)
      (cs.map (Heap.replace l (f v))) := by
  refine ⟨co.rep.store get addr next, ?_⟩
  rw [← List.map_cons]
  intro c mem
  obtain ⟨c', mem', rfl⟩ := List.mem_map.mp mem
  rw [Heap.replace_fst]
  exact co.set c' mem'

/-! ## Calls for a known source -/

/-- Both assignments of a call for a source that has a node keep the list complete. -/
lemma Complete.known {k v a ans} (d : BitVec 32) (co : Complete x r cs) (mem : (k, v) ∈ r :: cs)
    (ea : v.addr = a) :
    addStmts x.1 a ans = some [.atomicInc k, .atomicAdd k] ∧
      ∃ x1 x2, Stmt.execMarked a d x (.atomicInc k) = some x1 ∧
        Stmt.execMarked a d x1 (.atomicAdd k) = some x2 ∧
        (∃ r1 cs1, Complete x1 r1 cs1) ∧ ∃ r2 cs2, Complete x2 r2 cs2 := by
  have get := co.rep.chain.get mem
  have get1 : (x.1.heap.set k { v with count := v.count + 1 }).get k =
      some { v with count := v.count + 1 } := Heap.get_set_self get
  have co1 := co.store (f := fun v => { v with count := v.count + 1 }) get rfl rfl
  have co2 :=
    co1.store (f := fun v => { v with dataUsed := v.dataUsed + d.signExtend 64 }) get1 rfl rfl
  refine ⟨?_, _, _, ?_, ?_, ⟨_, _, co1⟩, ⟨_, _, co2⟩⟩
  · rw [addStmts, co.rep.search mem ea]
    rfl
  · exact ghosted_eq_some.mpr ⟨Net.store_eq get, Marks.set_none⟩
  · exact ghosted_eq_some.mpr ⟨Net.store_eq get1, Marks.set_none⟩

/-! ## Calls for a new source -/

/-- For a new text the call makes the assignments of a new node. -/
lemma addStmts_new {a ans} (rep : Rep x.1 r cs) (out : a ∉ (r :: cs).map (·.2.addr)) :
    addStmts x.1 a ans = some ((addAssigns ans).map .assign) := by
  rw [addStmts, rep.search_none out]
  rfl

/-- A store to a node changes neither `root` nor `tail`. -/
lemma Net.store_globals {s s' : Net} {p f} (st : s.store p f = some s') :
    s'.root = s.root ∧ s'.tail = s.tail := by
  obtain ⟨l, -, st⟩ := Option.bind_eq_some_iff.mp st
  obtain ⟨v, -, e⟩ := Option.bind_eq_some_iff.mp st
  cases e
  exact ⟨rfl, rfl⟩

/-- An allocation leaves the globals alone. -/
lemma Net.kmemCacheAlloc_globals {s s' : Net} {ans p}
    (al : s.kmemCacheAlloc ans = some (s', p)) : s'.root = s.root ∧ s'.tail = s.tail := by
  cases ans with
  | none =>
    cases al
    exact ⟨rfl, rfl⟩
  | some answer =>
    rw [Net.kmemCacheAlloc] at al
    split at al
    case isTrue =>
      cases al
      exact ⟨rfl, rfl⟩
    case isFalse => cases al

/-- Only `tail = tail->next` moves `tail`. -/
lemma Assign.exec_tail {s s' : Net} {a d as} (ne : as ≠ .tailNext)
    (st : Assign.exec a d s as = some s') : s'.tail = s.tail := by
  cases as with
  | tailNext => exact absurd rfl ne
  | linkAlloc ans =>
    obtain ⟨⟨s1, p⟩, al, st⟩ := Option.bind_eq_some_iff.mp st
    exact (Net.store_globals st).2.trans (Net.kmemCacheAlloc_globals al).2
  | strcpyAddr => exact (Net.store_globals (Option.ite_none_right_eq_some.mp st).2).2
  | setCount | setDataUsed | nextNull => exact (Net.store_globals st).2

/-- At the end of a call that has appended a node, all fields of the new node are set. -/
lemma marks_of_addAssigns {x y : Marked} {a d l junk}
    (go : run (Stmt.execMarked a d) x ((addAssigns (some (l, junk))).map .assign) = some y)
    (tail : y.1.tail = some l) :
    (∀ f, y.2 l f = true) ∧ ∀ k f, k ≠ l → x.2 k f = true → y.2 k f = true := by
  refine ⟨fun f => ?_, fun k f ne => run_marks_mono (fun st mem node al => ?_) go⟩
  · -- `tail` is moved to the new node by the second assignment and stays there
    obtain ⟨x1, -, go1⟩ := Option.bind_eq_some_iff.mp go
    obtain ⟨x2, -, go2⟩ := Option.bind_eq_some_iff.mp go1
    refine run_marks_set ?_ ?_ go2 tail ?_
    · simp [Stmt.answer]
    · intro st mem s s' ex
      obtain ⟨as, mem', rfl⟩ := List.mem_map.mp mem
      exact Assign.exec_tail (by rintro rfl; simp at mem') ex
    · cases f <;> simp [Stmt.field]
  · obtain ⟨as, mem', rfl⟩ := List.mem_map.mp mem
    cases as with
    | linkAlloc ans =>
      have only : ans = some (l, junk) := by
        simpa [addAssigns] using mem'
      cases only
      cases al
      exact ne rfl
    | _ => cases al

/-- After its last assignment a new node is complete. -/
lemma Complete.new {a l} (junk : Node) (d : BitVec 32) (co : Complete x r cs)
    (out : a ∉ (r :: cs).map (·.2.addr)) (short : a.length < 16) (free : x.1.heap.get l = none) :
    ∃ y, run (Stmt.execMarked a d) x ((addAssigns (some (l, junk))).map .assign) = some y ∧
      ∃ r' cs', Complete y r' cs' := by
  obtain ⟨s', r', cs', st, rep', -, same⟩ := co.rep.grow junk d out short free
  rw [addToListNetwork_eq, addStmts_new co.rep out, Option.bind_some] at st
  obtain ⟨g', go⟩ := exists_ghost Stmt.mark x.2 st
  refine ⟨(s', g'), go, r', _, rep', ?_⟩
  have tail : s'.tail = some l := by
    obtain ⟨pre, t, e, et⟩ := rep'.last
    have last := congrArg List.getLast? e
    rw [← List.cons_append, List.getLast?_concat, List.getLast?_concat] at last
    rw [et, ← Option.some.inj last]
  obtain ⟨new, old⟩ := marks_of_addAssigns go tail
  intro c mem f
  rw [← List.cons_append] at mem
  rcases List.mem_append.mp mem with before | last
  · have grown : skeleton (r' :: cs') <+: skeleton (r :: cs) := by
      rw [same]
    have before' := mem_map_of_skeleton grown (List.mem_map_of_mem before)
    obtain ⟨c0, mem0, e0⟩ := List.mem_map.mp before'
    have ne : c.1 ≠ l := by
      intro e
      have live := co.rep.chain.get mem0
      rw [e0, e, free] at live
      cases live
    rw [← e0] at ne ⊢
    exact old c0.1 f ne (co.set c0 mem0 f)
  · rw [List.mem_singleton.mp last]
    exact new f

/-- The first assignment that appends a node makes it reachable. -/
lemma Rep.reaches_linkAlloc {s : Net} {a l} (junk : Node) (d : BitVec 32) (rep : Rep s r cs)
    (free : s.heap.get l = none) :
    ∃ h, Assign.exec a d s (.linkAlloc (some (l, junk))) = some ⟨h, s.root, s.tail⟩ ∧
      Reaches Node.next h s.root l := by
  obtain ⟨pre, ⟨t, v⟩, e, et⟩ := rep.last
  have chain := rep.chain
  rw [e] at chain
  have get : s.heap.get t = some v := chain.get (List.mem_append_right _ List.mem_cons_self)
  obtain ⟨ne, sep⟩ := chain.separate free
  have get0 : (s.heap.alloc l junk free).get t = some v := (Heap.get_alloc_of_ne ne).trans get
  refine ⟨_, et ▸ exec_linkAlloc junk d et get free, ?_⟩
  refine chain.reaches_link (fun k mem => ?_) (Heap.get_set_self get0) rfl
  rw [Heap.get_set_of_ne (sep k mem).2, Heap.get_alloc_of_ne (sep k mem).1]

/-- A failed allocation is stored through. -/
lemma exec_addAssigns_none {s : Net} {t v a d} (et : s.tail = some t)
    (get : s.heap.get t = some v) :
    run (Assign.exec a d) s (addAssigns none) = none := by
  let h := s.heap.set t { v with next := none }
  have get1 : h.get t = some { v with next := none } := Heap.get_set_self get
  have st0 : Assign.exec a d s (.linkAlloc none) = some ⟨h, s.root, some t⟩ := by
    simp [Assign.exec, Net.kmemCacheAlloc, et, Net.store, get, h]
  have st1 : Assign.exec a d ⟨h, s.root, some t⟩ .tailNext = some ⟨h, s.root, none⟩ := by
    simp [Assign.exec, Net.load, get1]
  have st2 : Assign.exec a d ⟨h, s.root, none⟩ .setCount = none := rfl
  simp only [addAssigns, run_cons, st0, st1, st2, Option.bind_some, Option.bind_none]

/-! ## What a call owes to the readers -/

/-- The texts that readers can find are those of the nodes. -/
lemma Complete.mem_addr_iff {a} (co : Complete x r cs) :
    (∃ k v, Reaches Node.next x.1.heap x.1.root k ∧ x.1.heap.get k = some v ∧ v.addr = a) ↔
      a ∈ (r :: cs).map (·.2.addr) := by
  constructor
  · rintro ⟨k, v, -, get, ea⟩
    exact List.mem_map.mpr ⟨(k, v), co.rep.all get, ea⟩
  · intro known
    obtain ⟨⟨k, v⟩, mem, ea⟩ := List.mem_map.mp known
    exact ⟨k, v, co.rep.chain.reaches (List.mem_map_of_mem mem), co.rep.chain.get mem, ea⟩

/-- A call for a text that is there only counts, so the list stays published. -/
lemma Complete.publishes {a d ans} (co : Complete x r cs) (known : a ∈ (r :: cs).map (·.2.addr)) :
    Publishes x a d ans := by
  obtain ⟨⟨k, v⟩, mem, ea⟩ := List.mem_map.mp known
  obtain ⟨stmts, x1, x2, st1, st2, ⟨r1, cs1, co1⟩, ⟨r2, cs2, co2⟩⟩ := co.known d mem ea
  have all : run (Stmt.execMarked a d) x [.atomicInc k, .atomicAdd k] = some x2 := by
    rw [run_cons, st1, Option.bind_some, run_singleton, st2]
  refine ⟨_, _, stmts, all, fun pre z le go => ?_, fun alloc => ?_⟩
  · rcases List.prefix_cons_iff.mp le with rfl | ⟨rest, rfl, le1⟩
    · cases go
      exact co.published
    · rw [run_cons, st1, Option.bind_some] at go
      rcases List.prefix_cons_iff.mp le1 with rfl | ⟨rest', rfl, le2⟩
      · cases go
        exact co1.published
      · rw [List.prefix_nil.mp le2, run_singleton, st2] at go
        cases go
        exact co2.published
  · simp at alloc

/-- A call that allocates shows the new node to the readers before it has set a field of it, or
    stores through `NULL`. -/
lemma Complete.not_publishes {a d ans} (co : Complete x r cs) (out : a ∉ (r :: cs).map (·.2.addr))
    (free : ∀ k junk, ans = some (k, junk) → x.1.heap.get k = none) : ¬ Publishes x a d ans := by
  rintro ⟨sts, y, stmts, go, complete, -⟩
  rw [addStmts_new co.rep out] at stmts
  cases stmts
  cases ans with
  | none =>
    obtain ⟨pre, ⟨t, v⟩, e, et⟩ := co.rep.last
    have get : x.1.heap.get t = some v :=
      co.rep.chain.get (e ▸ List.mem_append_right _ List.mem_cons_self)
    have net := congrArg (Option.map Prod.fst) go
    rw [show x = (x.1, x.2) from rfl, Stmt.execMarked, run_ghosted, run_assigns,
      exec_addAssigns_none et get] at net
    cases net
  | some answer =>
    obtain ⟨l, junk⟩ := answer
    obtain ⟨h, st, reached⟩ := co.rep.reaches_linkAlloc (a := a) junk d (free l junk rfl)
    have first : Stmt.execMarked a d x (.assign (.linkAlloc (some (l, junk)))) =
        some (⟨h, x.1.root, x.1.tail⟩, (x.2.alloc (some (l, junk))).set x.1.tail (some .next)) :=
      ghosted_eq_some.mpr ⟨st, rfl⟩
    have published := complete [_] _ ⟨_, rfl⟩ (run_singleton.trans first)
    have unset : ((x.2.alloc (some (l, junk))).set x.1.tail (some .next)) l .addr = false := by
      simp [Marks.set, Marks.alloc]
    exact Bool.false_ne_true (unset.symm.trans (published l reached .addr))

/-! ## Critical sections -/

/-- The marks of a whole call are those after its assignments. -/
lemma marked_add {y : Marked} {a d l junk sts} (stmts : addStmts x.1 a (some (l, junk)) = some sts)
    (go : run (Stmt.execMarked a d) x sts = some y) :
    ghosted opStep Op.mark x (.add a d l junk) = some y := by
  refine ghosted_eq_some.mpr ⟨?_, ?_⟩
  · rw [opStep, addToListNetwork_eq, stmts, Option.bind_some, ← run_ghosted Stmt.mark x.2]
    exact congrArg (Option.map Prod.fst) go
  · rw [Op.mark, stmts, Option.bind_some, show run _ (x.1, x.2) sts = some y from go]
    rfl

/-- A critical section keeps the list complete. -/
lemma Complete.op {o} (co : Complete x r cs) (ok : OpOk x.1 o) :
    ∃ y, ghosted opStep Op.mark x o = some y ∧ ∃ r' cs', Complete y r' cs' := by
  cases o with
  | add a d l junk =>
    obtain ⟨short, free⟩ := ok
    by_cases known : a ∈ (r :: cs).map (·.2.addr)
    · obtain ⟨⟨k, v⟩, mem, ea⟩ := List.mem_map.mp known
      obtain ⟨stmts, x1, x2, st1, st2, -, co2⟩ := co.known d mem ea
      refine ⟨x2, marked_add stmts ?_, co2⟩
      rw [run_cons, st1, Option.bind_some, run_singleton, st2]
    · obtain ⟨y, go, co'⟩ := co.new junk d known (Nat.lt_succ_of_le short) free
      exact ⟨y, marked_add (addStmts_new co.rep known) go, co'⟩
  | clear len =>
    obtain ⟨s', st, rep'⟩ := co.rep.clear len
    refine ⟨(s', x.2), ghosted_eq_some.mpr ⟨?_, rfl⟩, _, _, rep', ?_⟩
    · rw [opStep, st]
      rfl
    · rw [← List.map_cons (f := fun c : Loc × Node => (c.1, c.2.cleared))]
      intro c mem
      obtain ⟨c', mem', rfl⟩ := List.mem_map.mp mem
      exact co.set c' mem'

/-- Only the allocation of the root sets `root`. -/
lemma InitOp.exec_root {m m' : Module} {op : InitOp} (keeps : ∀ l junk, op ≠ .rootAlloc l junk)
    (st : op.exec m = some m') : m'.net.root = m.net.root := by
  cases op with
  | rootAlloc l junk => exact absurd rfl (keeps l junk)
  | rootCount | rootDataUsed | rootNext | rootAddr =>
    obtain ⟨s, st', e⟩ := Option.bind_eq_some_iff.mp st
    cases e
    exact (Net.store_globals st').1
  | cacheCreate | tailRoot | registerHook | procCreate =>
    cases st
    rfl

/-- `init_packet` sets all fields of the root. -/
lemma marks_of_initPacket {x y : Module × Marks} {l junk ok p}
    (go : run (ghosted InitOp.exec InitOp.mark) x (initPacket l junk ok) = some y)
    (root : y.1.net.root = some p) (f : Field) : y.2 p f = true := by
  obtain ⟨x1, -, go1⟩ := Option.bind_eq_some_iff.mp go
  obtain ⟨x2, -, go2⟩ := Option.bind_eq_some_iff.mp go1
  refine run_marks_set ?_ ?_ go2 root ?_
  · simp [InitOp.answer]
  · intro op mem m m' ex
    refine InitOp.exec_root (fun l' junk' e => ?_) ex
    rw [e] at mem
    simp at mem
  · cases f <;> simp [InitOp.field]

end

/-- The list that `init_packet` builds is complete, and so is what the critical sections make of
    it. -/
lemma complete_of_ops (l : Loc) (junk : Node) (ok : Bool) :
    ∃ m g, run (ghosted InitOp.exec InitOp.mark) (.boot, fun _ _ => false) (initPacket l junk ok) =
        some (m, g) ∧
      ∀ os, Admits OpOk opStep m.net os →
        ∃ x, run (ghosted opStep Op.mark) (m.net, g) os = some x ∧ ∃ r cs, Complete x r cs := by
  obtain ⟨m, r, init, rep⟩ := Rep.initPacket l junk ok
  obtain ⟨g, go⟩ := exists_ghost InitOp.mark (fun _ _ => false) init
  refine ⟨m, g, go, fun os ad => ?_⟩
  have base : Complete (m.net, g) r [] := by
    refine ⟨rep, fun c mem f => ?_⟩
    rw [List.mem_singleton.mp mem]
    exact marks_of_initPacket go rep.chain.head f
  refine (ad.ghosted Op.mark g).run_keeps (P := fun x => ∃ r cs, Complete x r cs) ?_ ⟨r, [], base⟩
  rintro x o ⟨r', cs', co⟩ ok
  exact co.op ok

/-- From every list that critical sections build from `init_packet`, with any contents of the nodes
    that the allocator returns: a call of `add_to_list_network` gives the readers only complete
    nodes, and survives a failing allocation, exactly when some node of the list has the text
    already. -/
theorem publishes_iff (l : Loc) (junk : Node) (ok : Bool) :
    ∃ m g, run (ghosted InitOp.exec InitOp.mark) (.boot, fun _ _ => false) (initPacket l junk ok) =
        some (m, g) ∧
      ∀ os, Admits OpOk opStep m.net os →
        ∃ x, run (ghosted opStep Op.mark) (m.net, g) os = some x ∧
          ∀ saddr dataSize ans, (∀ k node, ans = some (k, node) → x.1.heap.get k = none) →
            (Publishes x saddr dataSize ans ↔
              ∃ k v, Reaches Node.next x.1.heap x.1.root k ∧ x.1.heap.get k = some v ∧
                v.addr = saddr) := by
  obtain ⟨m, g, init, ops⟩ := complete_of_ops l junk ok
  refine ⟨m, g, init, fun os ad => ?_⟩
  obtain ⟨x, go, r, cs, co⟩ := ops os ad
  refine ⟨x, go, fun saddr dataSize ans free => ?_⟩
  rw [co.mem_addr_iff]
  constructor
  · intro publishes
    by_contra out
    exact co.not_publishes out free publishes
  · exact co.publishes

/-- A second packet of a source, after one that has made its node. -/
theorem publishes_second_packet :
    ∃ m g x, run (ghosted InitOp.exec InitOp.mark) (.boot, fun _ _ => false)
        (initPacket 0 ⟨['x'], 3, 3, some 9⟩ true) = some (m, g) ∧
      run (ghosted opStep Op.mark) (m.net, g) [.add ['a'] 5 1 ⟨[], 7, 7, none⟩] = some x ∧
      Publishes x ['a'] 7 none := by
  obtain ⟨m, g, init, all⟩ := publishes_iff 0 ⟨['x'], 3, 3, some 9⟩ true
  have ad : Admits OpOk opStep m.net [.add ['a'] 5 1 ⟨[], 7, 7, none⟩] := by
    cases init
    exact ⟨⟨by decide, rfl⟩, fun _ _ => trivial⟩
  obtain ⟨x, go, calls⟩ := all _ ad
  refine ⟨m, g, x, init, go, (calls ['a'] 7 none fun _ _ e => by cases e).mpr ?_⟩
  cases init
  cases go
  exact ⟨1, _, .there rfl .here, rfl, rfl⟩

/-- The first packet of a source: after the first assignment the new node is reachable with the text
    that its memory held, and no field of it is set. When the allocation fails, the call does not
    return. -/
theorem unset_node_published :
    ∃ m g y, run (ghosted InitOp.exec InitOp.mark) (.boot, fun _ _ => false)
        (initPacket 0 ⟨[], 0, 0, none⟩ true) = some (m, g) ∧
      Stmt.execMarked ['a'] 5 (m.net, g) (.assign (.linkAlloc (some (1, ⟨['z'], 9, 9, some 8⟩)))) =
        some y ∧
      Reaches Node.next y.1.heap y.1.root 1 ∧ y.1.heap.get 1 = some ⟨['z'], 9, 9, some 8⟩ ∧
      (∀ f, y.2 1 f = false) ∧ addToListNetwork m.net ['a'] 5 none = none := by
  refine ⟨_, _, _, rfl, rfl, .there rfl .here, rfl, fun f => ?_, rfl⟩
  cases f with
  | addr => rfl
  | count => rfl
  | dataUsed => rfl
  | next => rfl

end KernelModules.Packet
