import KernelModules.LinkedList.Source

/-!
# What loading and unloading leaves behind

`hello_exit` removes the head from the ring, so that no node points into the memory of the module
when it is given back; but it frees no node. So every time the module is unloaded, a ring of five
nodes stays in memory that nothing leads to.

* `addNodes_spec`: the loop of `hello_init` builds the ring of its nodes, the last one added first,
  and writes nothing but these nodes and the head.
* `helloInit_spec`, `helloExit_spec`: what the two functions do, on any heap.
* `rings_left_behind`: a run goes through exactly when no `kmalloc` fails; the invariant of such a
  run, with the rings of all loads so far.
-/

namespace KernelModules.LinkedList

variable {h h' : Heap KoolList} {a c : Loc}

/-- The data of the node that is added with the counter `i`. -/
def data (i : Nat) : BitVec 32 × BitVec 32 := (BitVec.ofNat 32 (10 + i), BitVec.ofNat 32 (20 * i))

/-- The links and the data of an object are as before. -/
def Same (h h' : Heap KoolList) (c : Loc) : Prop :=
  list.next h' c = list.next h c ∧ list.prev h' c = list.prev h c ∧
  list.payload h' c = list.payload h c

/-- Two times as before is as before. -/
lemma Same.trans {h''} (same : Same h h' c) (same' : Same h' h'' c) : Same h h'' c :=
  ⟨same'.1.trans same.1, same'.2.1.trans same.2.1, same'.2.2.trans same.2.2⟩

/-- An object that nobody touched is as before. -/
lemma Same.of_get (get : h'.get c = h.get c) : Same h h' c := by
  simp only [Same, Member.next, Member.prev, Member.payload, get, and_self]

/-- It is live when it was. -/
lemma Same.get_eq_none (same : Same h h' c) : h'.get c = none ↔ h.get c = none := by
  rw [Member.live_iff (m := list), Member.live_iff (m := list), same.2.2]

/-- A ring whose entries are as before is a ring. -/
lemma ringed_of_same {ring : Cycle Loc} (ringed : Ringed list h ring)
    (same : ∀ c ∈ ring, Same h h' c) :
    Ringed list h' ring :=
  ringed.frame (fun c mem => (same c mem).1) fun c mem => (same c mem).2.1

/-- A new object changes no other one. -/
lemma place_spec {v} (free : h.get a = none) :
    ∃ h', place h a v = some h' ∧ h'.get a = some v ∧ ∀ c ≠ a, h'.get c = h.get c :=
  ⟨h.alloc a v free, dif_pos free, Heap.get_alloc_self, fun _ ne => Heap.get_alloc_of_ne ne⟩

/-! ## `hello_init` and `hello_exit` -/

/-- One iteration adds a node behind the head. -/
lemma addNode_spec {l : List Loc} {tmp} (i : Nat) (junk : KoolList) (ring : Ringed list h ↑(a :: l))
    (free : h.get tmp = none) :
    ∃ h', addNode a h i tmp junk = some h' ∧ Ringed list h' ↑(a :: tmp :: l) ∧
      list.payload h' tmp = some (data i) ∧ (∀ c ≠ tmp, list.payload h' c = list.payload h c) ∧
      ∀ c ∉ a :: tmp :: l, Same h h' c := by
  have out : tmp ∉ a :: l := fun mem => ring.live (Cycle.mem_coe_iff.mpr mem) free
  obtain ⟨h1, alloc, get1, same1⟩ := place_spec (v := junk) free
  let node : KoolList :=
    { junk with to_ := BitVec.ofNat 32 (10 + i), from_ := BitVec.ofNat 32 (20 * i) }
  have get2 : (h1.set tmp node).get tmp = some node := Heap.get_set_self get1
  have same2 : ∀ c ≠ tmp, Same h (h1.set tmp node) c := by
    intro c ne
    exact .of_get ((Heap.get_set_of_ne ne).trans (same1 c ne))
  have ring2 : Ringed list (h1.set tmp node) ↑(a :: l) :=
    ringed_of_same ring fun c mem => same2 c fun e => out (e ▸ Cycle.mem_coe_iff.mp mem)
  obtain ⟨⟨next, -, link, -⟩, -⟩ := ring2.exists_links (Cycle.mem_coe_iff.mpr List.mem_cons_self)
  obtain ⟨h3, add, ring3, keeps, same3⟩ := ring2.add link (get2 ▸ Option.some_ne_none node) out
  refine ⟨h3, ?_, ring3, ?_, fun c ne => ?_, fun c away => ?_⟩
  · simp only [addNode, alloc, get1, Option.bind_eq_bind, Option.bind_some]
    rw [link, Option.bind_some]
    exact add
  · rw [keeps, Member.payload, get2]
    rfl
  · rw [keeps]
    exact (same2 c ne).2.2
  · have ne : c ≠ tmp := fun e => away (e ▸ List.mem_cons_of_mem a List.mem_cons_self)
    refine (same2 c ne).trans ⟨(same3 c away).1, (same3 c away).2, ?_⟩
    rw [keeps]

/-- The loop puts its nodes in front of the list, so that the last one is the first one of the
    list. -/
lemma addNodes_spec {i answers} {l : List Loc} (ring : Ringed list h ↑(a :: l))
    (len : answers.length = i)
    (nodup : (answers.map Prod.fst).Nodup) (free : ∀ c ∈ answers.map Prod.fst, h.get c = none) :
    ∃ h', addNodes a i answers h = some h' ∧
      Ringed list h' ↑(a :: ((answers.map Prod.fst).reverse ++ l)) ∧
      (answers.map Prod.fst).reverse.map (list.payload h') = (List.range' 1 i).map (some ∘ data) ∧
      (∀ c ∉ answers.map Prod.fst, list.payload h' c = list.payload h c) ∧
      ∀ c ∉ a :: ((answers.map Prod.fst).reverse ++ l), Same h h' c := by
  induction i generalizing answers h l with
  | zero =>
    cases List.length_eq_zero_iff.mp len
    exact ⟨h, rfl, ring, rfl, fun _ _ => rfl, fun _ _ => .of_get rfl⟩
  | succ i ih =>
    cases answers with
    | nil => cases len
    | cons answer rest =>
      obtain ⟨tmp, junk⟩ := answer
      rw [List.map_cons] at nodup free
      obtain ⟨out, nodup⟩ := List.nodup_cons.mp nodup
      obtain ⟨free1, free⟩ := List.forall_mem_cons.mp free
      obtain ⟨h1, add, ring1, new, old, same1⟩ := addNode_spec (i + 1) junk ring free1
      have free' : ∀ c ∈ rest.map Prod.fst, h1.get c = none := by
        intro c mem
        rw [Member.live_iff (m := list), old c fun e => out (e ▸ mem), ← Member.live_iff]
        exact free c mem
      obtain ⟨h2, go, ring2, datas, old2, same2⟩ := ih ring1 (Nat.succ.inj len) nodup free'
      have order : (((tmp, junk) :: rest).map Prod.fst).reverse ++ l =
          (rest.map Prod.fst).reverse ++ tmp :: l := by
        simp
      refine ⟨h2, ?_, order ▸ ring2, ?_, fun c away => ?_, fun c away => ?_⟩
      · rw [addNodes, add]
        exact go
      · rw [List.map_cons, List.reverse_cons, List.map_append, datas, List.range'_1_concat,
          List.map_append, List.map_singleton, old2 tmp out, new, Nat.add_comm 1 i]
        rfl
      · rw [List.map_cons] at away
        obtain ⟨ne, away⟩ := List.ne_and_not_mem_of_not_mem_cons away
        rw [old2 c away, old c ne]
      · rw [order] at away
        refine (same1 c fun mem => away ?_).trans (same2 c away)
        exact List.cons_subset_cons a (List.subset_append_right _ _) mem

/-- A `kmalloc` that fails is not noticed before its `NULL` is used. -/
lemma addNodes_short {i answers} (short : answers.length < i) : addNodes a i answers h = none := by
  induction i generalizing answers h with
  | zero => cases short
  | succ i ih =>
    cases answers with
    | nil => rfl
    | cons answer rest =>
      rw [addNodes]
      cases addNode a h (i + 1) answer.1 answer.2 with
      | none => rfl
      | some h' => exact ih (Nat.lt_of_succ_lt_succ short)

/-- The nodes of one `hello_init` on their ring, which is without a head once the module is
    unloaded. -/
structure FiveNodes (h : Heap KoolList) (head : Option Loc) (nodes : List Loc) : Prop where
  ring : Ringed list h ↑(head.toList ++ nodes)
  datas : nodes.map (list.payload h) = (List.range' 1 5).map (some ∘ data)

/-- The nodes of a load stay on their ring while nobody touches them. -/
lemma FiveNodes.congr {head nodes} (five : FiveNodes h head nodes)
    (same : ∀ c ∈ head.toList ++ nodes, Same h h' c) : FiveNodes h' head nodes := by
  refine ⟨ringed_of_same five.ring fun c mem => same c (Cycle.mem_coe_iff.mp mem), ?_⟩
  rw [← five.datas]
  exact List.map_congr_left fun c mem => (same c (List.mem_append_right _ mem)).2.2

/-- `hello_init` prints the five nodes in the order of their counters. -/
lemma helloInit_spec {answers} (live : h.get a ≠ none) (len : answers.length = 5)
    (nodup : (answers.map Prod.fst).Nodup) (free : ∀ c ∈ answers.map Prod.fst, h.get c = none) :
    ∃ h', helloInit a answers h =
        some (h', .helloWorld :: (List.range' 1 5).map fun i => .toFrom (data i).1 (data i).2) ∧
      FiveNodes h' (some a) (answers.map Prod.fst).reverse ∧
      ∀ c ∉ a :: answers.map Prod.fst, Same h h' c := by
  obtain ⟨h1, init, ring1, keeps, same1⟩ := Ringed.init (m := list) live
  have free1 : ∀ c ∈ answers.map Prod.fst, h1.get c = none :=
    fun c mem => keeps.get_eq_none.mpr (free c mem)
  obtain ⟨h2, go, ring2, datas, -, same2⟩ := addNodes_spec ring1 len nodup free1
  rw [List.append_nil] at ring2 same2
  have visits : ∀ pos ∈ (answers.map Prod.fst).reverse,
      (h2.get pos >>= fun tmp => some [Line.toFrom tmp.to_ tmp.from_]) =
        some (((list.payload h2 pos).map fun d => Line.toFrom d.1 d.2).toList) := by
    intro pos mem
    obtain ⟨node, get⟩ := Option.ne_none_iff_exists'.mp
      (ring2.live (Cycle.mem_coe_iff.mpr (List.mem_cons_of_mem a mem)))
    simp only [Member.payload, get, Option.bind_eq_bind, Option.bind_some, Option.map_some,
      Option.toList_some]
    rfl
  refine ⟨h2, ?_, ⟨ring2, datas⟩, fun c away => ?_⟩
  · have lines : (answers.map Prod.fst).reverse.flatMap
        (fun pos => ((list.payload h2 pos).map fun d => Line.toFrom d.1 d.2).toList) =
        (List.range' 1 5).map fun i => Line.toFrom (data i).1 (data i).2 := by
      rw [← List.flatMap_map (f := list.payload h2)
        (g := fun d => (d.map fun d => Line.toFrom d.1 d.2).toList), datas]
      rfl
    rw [helloInit, init, Option.bind_eq_bind, Option.bind_some, go, Option.bind_eq_bind,
      Option.bind_some, ring2.forEach visits, lines]
    rfl
  · have away' : c ∉ a :: (answers.map Prod.fst).reverse := by
      simpa using away
    have ne : c ≠ a := fun e => away (e ▸ List.mem_cons_self)
    exact Same.trans ⟨(same1 c ne).1, (same1 c ne).2, congrFun keeps c⟩ (same2 c away')

/-- `hello_exit` leaves the nodes in a ring without the head. -/
lemma helloExit_spec {nodes} (loaded : FiveNodes h (some a) nodes) :
    ∃ h', helloExit a h = some (h', [.goodBye]) ∧ FiveNodes h' none nodes ∧ list.Keeps h h' ∧
      ∀ c ∉ a :: nodes, Same h h' c := by
  obtain ⟨h', del, ring, keeps, same⟩ := loaded.ring.del
  refine ⟨h', ?_, ⟨ring, ?_⟩, keeps, fun c away =>
    ⟨(same c away).1, (same c away).2, congrFun keeps c⟩⟩
  · rw [helloExit, del]
    rfl
  · rw [keeps]
    exact loaded.datas

/-! ## Runs -/

/-- The module is loaded when it is not, and unloaded when it is. `kmalloc` is called five times at
    most, and the addresses that it returns hold no object. -/
def EventOk (k : Kernel) : Event → Prop
  | .load mylist answers => k.mylist = none ∧ answers.length ≤ 5 ∧
    (mylist :: answers.map Prod.fst).Nodup ∧
    ∀ c ∈ mylist :: answers.map Prod.fst, k.heap.get c = none
  | .unload => k.mylist ≠ none

instance decidableEventOk (k : Kernel) : (e : Event) → Decidable (EventOk k e)
  | .load mylist answers => inferInstanceAs (Decidable (k.mylist = none ∧ answers.length ≤ 5 ∧
      (mylist :: answers.map Prod.fst).Nodup ∧
      ∀ c ∈ mylist :: answers.map Prod.fst, k.heap.get c = none))
  | .unload => inferInstanceAs (Decidable (k.mylist ≠ none))

/-- No `kmalloc` fails. -/
def Event.Allocates : Event → Prop
  | .load _ answers => 5 ≤ answers.length
  | .unload => True

/-- A load in which a `kmalloc` fails uses the `NULL` that it returns. -/
lemma allocates_of_step {k k' e} (st : step k e = some k') : e.Allocates := by
  cases e with
  | unload => trivial
  | load mylist answers =>
    by_contra short
    obtain ⟨-, st⟩ := Option.ite_none_right_eq_some.mp st
    obtain ⟨h1, -, st⟩ := Option.bind_eq_some_iff.mp st
    obtain ⟨⟨h2, lines⟩, init, -⟩ := Option.bind_eq_some_iff.mp st
    obtain ⟨h3, -, init⟩ := Option.bind_eq_some_iff.mp init
    obtain ⟨h4, add, -⟩ := Option.bind_eq_some_iff.mp init
    rw [addNodes_short (Nat.lt_of_not_le short)] at add
    cases add

/-- What an event prints. -/
def Event.lines : Event → List Line
  | .load _ _ => .helloWorld :: (List.range' 1 5).map fun i => .toFrom (data i).1 (data i).2
  | .unload => [.goodBye]

/-- The rings in memory after the events `es`: one for each unload, and the one of the loaded
    module. They have no node in common, and they are all there is in memory. -/
structure Rings (es : List Event) (k : Kernel) (past : List (List Loc)) (current : List Loc) :
    Prop where
  unloads : past.length = es.count .unload
  left : ∀ nodes ∈ past, FiveNodes k.heap none nodes
  loaded : ∀ mylist, k.mylist = some mylist → FiveNodes k.heap (some mylist) current
  unloaded : k.mylist = none → current = []
  nodup : (k.mylist.toList ++ current ++ past.flatten).Nodup
  live : ∀ c, k.heap.get c ≠ none ↔ c ∈ k.mylist.toList ++ current ++ past.flatten
  log : k.log = es.flatMap Event.lines

/-- A load adds a ring of its own, and leaves the others alone. -/
lemma Rings.load {es k past current mylist answers} (inv : Rings es k past current)
    (ok : EventOk k (.load mylist answers)) (all : 5 ≤ answers.length) :
    ∃ k', step k (.load mylist answers) = some k' ∧
      Rings (es ++ [.load mylist answers]) k' past (answers.map Prod.fst).reverse := by
  obtain ⟨off, most, nodup, free⟩ := ok
  have len : answers.length = 5 := Nat.le_antisymm most all
  cases inv.unloaded off
  obtain ⟨out, nodup'⟩ := List.nodup_cons.mp nodup
  obtain ⟨h1, at_, get1, same1⟩ := place_spec (v := ⟨0, ⟨0, 0⟩, 0⟩) (free mylist List.mem_cons_self)
  have free1 : ∀ c ∈ answers.map Prod.fst, h1.get c = none := by
    intro c mem
    rw [same1 c fun e => out (e ▸ mem)]
    exact free c (List.mem_cons_of_mem mylist mem)
  obtain ⟨h2, init, five, same2⟩ := helloInit_spec (get1 ▸ Option.some_ne_none _) len nodup' free1
  have same : ∀ c ∉ mylist :: answers.map Prod.fst, Same k.heap h2 c := by
    intro c away
    exact (Same.of_get (same1 c fun e => away (e ▸ List.mem_cons_self))).trans (same2 c away)
  have old : ∀ c ∈ past.flatten, c ∉ mylist :: answers.map Prod.fst := by
    intro c mem new
    exact (inv.live c).mpr (List.mem_append_right _ mem) (free c new)
  have mem_new : ∀ c, c ∈ [mylist] ++ (answers.map Prod.fst).reverse ↔
      c ∈ mylist :: answers.map Prod.fst := by
    simp
  refine ⟨⟨h2, some mylist, k.log ++ Event.lines (.load mylist answers)⟩, ?_, ?_, ?_, ?_,
    fun e => absurd e (Option.some_ne_none mylist), ?_, fun c => ?_, ?_⟩
  · rw [step, if_pos off, at_, Option.bind_eq_bind, Option.bind_some, init]
    rfl
  · rw [List.count_append, inv.unloads]
    rfl
  · intro nodes mem
    refine (inv.left nodes mem).congr fun c in_ => same c (old c ?_)
    exact List.mem_flatten_of_mem mem in_
  · rintro _ ⟨⟩
    exact five
  · refine List.nodup_append.mpr ⟨?_, (List.nodup_append.mp inv.nodup).2.1, ?_⟩
    · exact Cycle.nodup_coe_iff.mp five.ring.nodup
    · rintro c new d mem rfl
      exact old c mem ((mem_new c).mp new)
  · by_cases new : c ∈ mylist :: answers.map Prod.fst
    · refine iff_of_true (five.ring.live (Cycle.mem_coe_iff.mpr ?_)) (List.mem_append_left _ ?_)
      · exact (mem_new c).mpr new
      · exact (mem_new c).mpr new
    · rw [ne_eq, (same c new).get_eq_none, ← ne_eq, inv.live, off]
      exact (or_iff_right fun mem => new ((mem_new c).mp mem)).symm.trans List.mem_append.symm
  · rw [inv.log, List.flatMap_append]
    rfl

/-- An unload leaves the ring of the module behind, without the head. -/
lemma Rings.unload {es k past current} (inv : Rings es k past current) (ok : EventOk k .unload) :
    ∃ k', step k .unload = some k' ∧ Rings (es ++ [.unload]) k' (current :: past) [] := by
  obtain ⟨mylist, on⟩ := Option.ne_none_iff_exists'.mp ok
  obtain ⟨h1, exit, five, keeps, same1⟩ := helloExit_spec (inv.loaded mylist on)
  have all : (mylist :: (current ++ past.flatten)).Nodup := by
    have nodup := inv.nodup
    rwa [on, List.append_assoc] at nodup
  obtain ⟨out, nodup⟩ := List.nodup_cons.mp all
  have stays : ∀ c ≠ mylist, Same h1 (h1.free mylist) c :=
    fun c ne => .of_get (Heap.get_free_of_ne ne)
  have apart : ∀ c ∈ current ++ past.flatten, c ≠ mylist := fun c mem e => out (e ▸ mem)
  refine ⟨⟨h1.free mylist, none, k.log ++ Event.lines .unload⟩, ?_, ?_, ?_,
    fun _ e => absurd e.symm (Option.some_ne_none _), fun _ => rfl, nodup, fun c => ?_, ?_⟩
  · rw [step, on, Option.bind_eq_bind, Option.bind_some, exit]
    rfl
  · rw [List.length_cons, inv.unloads, List.count_append]
    rfl
  · refine List.forall_mem_cons.mpr ⟨?_, fun nodes mem => ?_⟩
    · exact five.congr fun c in_ => stays c (apart c (List.mem_append_left _ in_))
    · refine (inv.left nodes mem).congr fun c in_ => ?_
      have mem' := List.mem_flatten_of_mem mem in_
      have away : c ∉ mylist :: current := by
        intro new
        rcases List.mem_cons.mp new with rfl | new
        · exact apart c (List.mem_append_right _ mem') rfl
        · exact (List.nodup_append.mp nodup).2.2 c new c mem' rfl
      exact (same1 c away).trans (stays c (List.ne_of_not_mem_cons away))
  · by_cases e : c = mylist
    · subst e
      exact iff_of_false (fun live => live Heap.get_free_self) out
    · rw [Heap.get_free_of_ne e, ne_eq, keeps.get_eq_none, ← ne_eq, inv.live, on, List.append_assoc]
      exact List.mem_cons.trans (or_iff_right e)
  · rw [inv.log, List.flatMap_append]
    rfl

/-- Nothing is in memory before the first load. -/
lemma rings_boot : Rings [] .boot [] [] :=
  ⟨rfl, fun _ mem => absurd mem List.not_mem_nil, fun _ e => absurd e.symm (Option.some_ne_none _),
    fun _ => rfl, List.nodup_nil, fun _ => iff_of_false (fun live => live rfl) List.not_mem_nil,
    rfl⟩

/-- A run in which no `kmalloc` fails goes through. -/
lemma run_rings {es} (ad : Admits EventOk step .boot es) (all : ∀ e ∈ es, e.Allocates) :
    ∃ k, run step .boot es = some k ∧ ∃ past current, Rings es k past current := by
  refine run_total (P := fun es k => ∃ past current, Rings es k past current) ?_ []
    ⟨[], [], rings_boot⟩ (ad.and_mem all)
  rintro es k e ⟨past, current, inv⟩ ⟨ok, allocates⟩
  cases e with
  | load mylist answers =>
    obtain ⟨k', st, inv'⟩ := inv.load ok allocates
    exact ⟨k', st, past, _, inv'⟩
  | unload =>
    obtain ⟨k', st, inv'⟩ := inv.unload ok
    exact ⟨k', st, current :: past, [], inv'⟩

/-- The module can be loaded and unloaded any number of times. No access is invalid exactly when no
    `kmalloc` fails. Then every load prints the same five nodes, and every unload leaves a ring of
    five nodes in memory that is linked to nothing else. -/
theorem rings_left_behind {es} (ad : Admits EventOk step .boot es) :
    ((run step .boot es).isSome ↔ ∀ e ∈ es, e.Allocates) ∧
      ∀ k, run step .boot es = some k → ∃ past current, Rings es k past current := by
  have all : ∀ k, run step .boot es = some k → ∀ e ∈ es, e.Allocates := by
    intro k go e mem
    obtain ⟨pre, post, rfl⟩ := List.append_of_mem mem
    obtain ⟨k1, -, rest⟩ := run_split go
    obtain ⟨k2, st, -⟩ := Option.bind_eq_some_iff.mp rest
    exact allocates_of_step st
  refine ⟨⟨fun goes => ?_, fun allocates => ?_⟩, fun k go => ?_⟩
  · obtain ⟨k, go⟩ := Option.isSome_iff_exists.mp goes
    exact all k go
  · obtain ⟨k, go, -⟩ := run_rings ad allocates
    exact Option.isSome_iff_exists.mpr ⟨k, go⟩
  · obtain ⟨k', go', rings⟩ := run_rings ad (all k go)
    cases go.symm.trans go'
    exact rings

/-- A first load and unload, and a second load at the same address of the module. -/
def reloaded : List Event :=
  [.load 100 ((List.range' 1 5).map fun l => (l, ⟨0, ⟨0, 0⟩, 0⟩)), .unload,
    .load 100 ((List.range' 11 5).map fun l => (l, ⟨7, ⟨7, 7⟩, 7⟩))]

/-- After a reload the five nodes of the first load still go round without their head. -/
theorem rings_left_behind_reloaded :
    ∃ k, run step .boot reloaded = some k ∧ (∃ past current, Rings reloaded k past current) ∧
      (List.range' 1 5).map (list.next k.heap) = [some 5, some 1, some 2, some 3, some 4] := by
  have ok : Admits EventOk step .boot reloaded := by
    decide +kernel
  have all : ∀ e ∈ reloaded, e.Allocates := by
    simp [reloaded, Event.Allocates]
  obtain ⟨goes, rings⟩ := rings_left_behind ok
  obtain ⟨k, go⟩ := Option.isSome_iff_exists.mp (goes.mpr all)
  refine ⟨k, go, rings k go, ?_⟩
  have links : (run step .boot reloaded).map (fun k => (List.range' 1 5).map (list.next k.heap)) =
      some [some 5, some 1, some 2, some 3, some 4] := by
    decide +kernel
  rw [go] at links
  exact Option.some.inj links

end KernelModules.LinkedList
