import KernelModules.Packet.Publish

/-!
# Source texts as keys of the list

`hook_func` of `network_procfs.c` prints the source address of a packet into 16 bytes, and
`add_to_list_network` compares and copies the text. In any state, whether or not the nodes make a
list, a call counts its packet in a node that has this text from then on (`CountedIn.of_add`), and
changes the text and the counters of no node with another text (`Holds.addToListNetwork`).
`keys_faithful` puts this together with what is known of the texts of addresses.
-/

namespace KernelModules.Packet

/-- The node at `l` has the text and the counters of `v`. -/
def Holds (s : Net) (l : Loc) (v : Node) : Prop :=
  ∃ w, s.heap.get l = some w ∧ w.addr = v.addr ∧ w.count = v.count ∧ w.dataUsed = v.dataUsed

/-- A packet is counted in a node with the text `a`: in one that was there, or in a new last one. -/
def CountedIn (s s' : Net) (a : List Char) (d : BitVec 32) : Prop :=
  ∃ l v, s'.heap.get l = some v ∧ v.addr = a ∧
    ((∃ u, s.heap.get l = some u ∧ v = u.credited d) ∨
      s.heap.get l = none ∧ s'.tail = some l ∧ v = ⟨a, 1, d.signExtend 64, none⟩)

/-- The search loop finds a node with the text it looks for. -/
lemma searchLoop_found {h saddr n p l} (found : searchLoop h saddr n p = some (some l)) :
    ∃ v, h.get l = some v ∧ v.addr = saddr := by
  induction n generalizing p with
  | zero => cases found
  | succ n ih =>
    cases p with
    | none => cases found
    | some k =>
      obtain ⟨v, get, rest⟩ := Option.bind_eq_some_iff.mp found
      by_cases same : v.addr = saddr
      · rw [if_neg (not_not_intro same)] at rest
        cases rest
        exact ⟨v, get, same⟩
      · rw [if_pos same] at rest
        exact ih rest

/-! ## What a call leaves alone -/

section
variable {s s' : Net} {l : Loc} {v : Node} {a : List Char} {d : BitVec 32}

/-- A store goes to a live node. -/
lemma Net.store_cases {p f} (st : s.store p f = some s') :
    ∃ k w, p = some k ∧ s.heap.get k = some w ∧ s' = { s with heap := s.heap.set k (f w) } := by
  obtain ⟨k, e, st⟩ := Option.bind_eq_some_iff.mp st
  obtain ⟨w, get, st⟩ := Option.bind_eq_some_iff.mp st
  exact ⟨k, w, e, get, (Option.some.inj st).symm⟩

/-- A store elsewhere leaves a node alone. -/
lemma Holds.store {p f} (holds : Holds s l v) (ne : p ≠ some l) (st : s.store p f = some s') :
    Holds s' l v := by
  obtain ⟨w, get, same⟩ := holds
  obtain ⟨k, u, rfl, -, rfl⟩ := Net.store_cases st
  refine ⟨w, ?_, same⟩
  rw [Heap.get_set_of_ne fun e => ne (congrArg some e.symm)]
  exact get

/-- A link can be set in any node. -/
lemma Holds.storeNext {p q} (holds : Holds s l v)
    (st : s.store p (fun w => { w with next := q }) = some s') : Holds s' l v := by
  by_cases here : p = some l
  · obtain ⟨w, get, same⟩ := holds
    obtain ⟨k, u, rfl, get', rfl⟩ := Net.store_cases st
    cases here
    cases get.symm.trans get'
    exact ⟨{ w with next := q }, Heap.get_set_self get, same⟩
  · exact holds.store here st

/-- An allocation leaves the live nodes alone, and answers none of them. -/
lemma Holds.kmemCacheAlloc {ans p} (holds : Holds s l v)
    (al : s.kmemCacheAlloc ans = some (s', p)) : Holds s' l v ∧ p ≠ some l := by
  obtain ⟨w, get, same⟩ := holds
  cases ans with
  | none =>
    cases al
    exact ⟨⟨w, get, same⟩, (Option.some_ne_none l).symm⟩
  | some answer =>
    rw [Net.kmemCacheAlloc] at al
    split at al
    case isTrue free =>
      cases al
      have ne : l ≠ answer.1 := by
        rintro rfl
        rw [get] at free
        cases free
      refine ⟨⟨w, ?_, same⟩, fun e => ne (Option.some.inj e).symm⟩
      exact (Heap.get_alloc_of_ne (f := free) ne).trans get
    case isFalse => cases al

/-- After the first two assignments `tail` points to a new node, or is `NULL`. -/
lemma Holds.link {s1 ans} (holds : Holds s l v) (st : Assign.exec a d s (.linkAlloc ans) = some s1)
    (st' : Assign.exec a d s1 .tailNext = some s') : Holds s' l v ∧ s'.tail ≠ some l := by
  obtain ⟨⟨s0, p⟩, al, link⟩ := Option.bind_eq_some_iff.mp st
  obtain ⟨holds0, fresh⟩ := holds.kmemCacheAlloc al
  have holds1 := holds0.storeNext link
  obtain ⟨k, w, e, get, e1⟩ := Net.store_cases link
  -- `tail` still points to the old last node, whose link is the answer of the allocator
  have load1 : s1.load s1.tail = some { w with next := p } := by
    rw [e1, Net.load, e]
    exact Heap.get_set_self get
  obtain ⟨u, load, e2⟩ := Option.bind_eq_some_iff.mp st'
  cases load1.symm.trans load
  cases e2
  exact ⟨holds1, fresh⟩

/-- The assignments behind them store to the node that `tail` points to. -/
lemma Holds.setFields {as} (fields : as ∈ [Assign.setCount, .setDataUsed, .strcpyAddr, .nextNull])
    (holds : Holds s l v ∧ s.tail ≠ some l) (st : Assign.exec a d s as = some s') :
    Holds s' l v ∧ s'.tail ≠ some l := by
  obtain ⟨f, put⟩ : ∃ f, s.store s.tail f = some s' := by
    cases as with
    | linkAlloc ans => simp at fields
    | tailNext => simp at fields
    | strcpyAddr => exact ⟨_, (Option.ite_none_right_eq_some.mp st).2⟩
    | setCount | setDataUsed | nextNull => exact ⟨_, st⟩
  refine ⟨holds.1.store holds.2 put, ?_⟩
  rw [(Net.store_globals put).2]
  exact holds.2

/-- Appending a node leaves the text and the counters of the others alone. -/
lemma Holds.addAssigns {ans} (holds : Holds s l v)
    (go : run (Assign.exec a d) s (Packet.addAssigns ans) = some s') : Holds s' l v := by
  obtain ⟨s1, st1, go⟩ := Option.bind_eq_some_iff.mp go
  obtain ⟨s2, st2, go⟩ := Option.bind_eq_some_iff.mp go
  have linked := holds.link st1 st2
  exact (run_invariant (P := fun s => Holds s l v ∧ s.tail ≠ some l)
    (fun holds fields st => Holds.setFields fields holds st) linked (fun as mem => mem) go).1

/-- A call leaves the text and the counters of all nodes with another text alone. -/
lemma Holds.addToListNetwork {ans} (get : s.heap.get l = some v) (other : v.addr ≠ a)
    (go : addToListNetwork s a d ans = some s') : Holds s' l v := by
  have holds : Holds s l v := ⟨v, get, rfl, rfl, rfl⟩
  obtain ⟨found, search, rest⟩ := Option.bind_eq_some_iff.mp go
  cases found with
  | none => exact holds.addAssigns rest
  | some k =>
    obtain ⟨w, getk, same⟩ := searchLoop_found search
    have ne : some k ≠ some l := by
      intro e
      cases e
      cases get.symm.trans getk
      exact other same
    obtain ⟨s1, st1, st2⟩ := Option.bind_eq_some_iff.mp rest
    exact (holds.store ne st1).store ne st2

/-! ## Where a call counts -/

/-- A store through `tail` changes the node that `tail` points to. -/
lemma get_of_store_tail {f} (tail : s.tail = some l) (get : s.heap.get l = some v)
    (st : s.store s.tail f = some s') : s'.tail = some l ∧ s'.heap.get l = some (f v) := by
  obtain ⟨k, u, e, get', rfl⟩ := Net.store_cases st
  cases tail.symm.trans e
  cases get.symm.trans get'
  exact ⟨tail, Heap.get_set_self get⟩

/-- After the first two assignments of a call that appends a node, `tail` points to the new node,
    unless the allocation has failed. -/
lemma tail_of_link {s1 ans} (st : Assign.exec a d s (.linkAlloc ans) = some s1)
    (st' : Assign.exec a d s1 .tailNext = some s') :
    ∀ k, s'.tail = some k → s.heap.get k = none ∧ ∃ w, s'.heap.get k = some w := by
  obtain ⟨⟨s0, p⟩, al, link⟩ := Option.bind_eq_some_iff.mp st
  obtain ⟨k, w, e, get, rfl⟩ := Net.store_cases link
  obtain ⟨u, load, e'⟩ := Option.bind_eq_some_iff.mp st'
  cases e'
  have next : u.next = p := by
    rw [Net.load, e, Option.bind_some, Heap.get_set_self get] at load
    cases load
    rfl
  cases ans with
  | none =>
    cases al
    exact fun k at_ => absurd (next.symm.trans at_) (Option.some_ne_none k).symm
  | some answer =>
    rw [Net.kmemCacheAlloc] at al
    split at al
    case isTrue free =>
      cases al
      intro j at_
      cases next.symm.trans at_
      refine ⟨free, ?_⟩
      -- the old last node may have been a dangling pointer to the new one
      by_cases same : answer.1 = k
      · cases same
        exact ⟨_, Heap.get_set_self get⟩
      · exact ⟨_, (Heap.get_set_of_ne same).trans (Heap.get_alloc_self (f := free))⟩
    case isFalse => cases al

/-- The assignments behind them set every field of that node. -/
lemma get_of_setFields {as} (tail : s.tail = some l) (get : s.heap.get l = some v)
    (fields : as = [Assign.setCount, .setDataUsed, .strcpyAddr, .nextNull])
    (go : run (Assign.exec a d) s as = some s') :
    s'.tail = some l ∧ s'.heap.get l = some ⟨a, 1, d.signExtend 64, none⟩ := by
  subst fields
  obtain ⟨s1, st1, go⟩ := Option.bind_eq_some_iff.mp go
  obtain ⟨s2, st2, go⟩ := Option.bind_eq_some_iff.mp go
  obtain ⟨s3, st3, go⟩ := Option.bind_eq_some_iff.mp go
  obtain ⟨s4, st4, go⟩ := Option.bind_eq_some_iff.mp go
  cases go
  obtain ⟨tail, get⟩ := get_of_store_tail tail get st1
  obtain ⟨tail, get⟩ := get_of_store_tail tail get st2
  obtain ⟨tail, get⟩ := get_of_store_tail tail get (Option.ite_none_right_eq_some.mp st3).2
  exact get_of_store_tail tail get st4

/-- A call counts its packet in a node with the text that it was called with. -/
lemma CountedIn.of_add {ans} (go : addToListNetwork s a d ans = some s') : CountedIn s s' a d := by
  obtain ⟨found, search, rest⟩ := Option.bind_eq_some_iff.mp go
  cases found with
  | some k =>
    obtain ⟨u, get, same⟩ := searchLoop_found search
    obtain ⟨s1, st1, st2⟩ := Option.bind_eq_some_iff.mp rest
    rw [Net.store_eq get] at st1
    cases st1
    rw [Net.store_eq (Heap.get_set_self get)] at st2
    cases st2
    exact ⟨k, u.credited d, Heap.get_set_self (Heap.get_set_self get), same, .inl ⟨u, get, rfl⟩⟩
  | none =>
    obtain ⟨s1, st1, rest⟩ := Option.bind_eq_some_iff.mp rest
    obtain ⟨s2, st2, rest⟩ := Option.bind_eq_some_iff.mp rest
    -- a failed allocation is noticed by the next store
    obtain ⟨s3, st3, -⟩ := Option.bind_eq_some_iff.mp rest
    obtain ⟨k, -, tail, -⟩ := Net.store_cases st3
    obtain ⟨free, w, get⟩ := tail_of_link st1 st2 k tail
    obtain ⟨tail', get'⟩ := get_of_setFields tail get rfl rest
    exact ⟨k, _, get', rfl, .inr ⟨free, tail', rfl⟩⟩

end

/-- The text of every address fits with its NUL into 16 bytes, is not cut, is not empty, and is the
    text of no other address. Its `strcpy` stays inside `addr`. A packet from `a` is what
    `add_to_list_network` counts under this text: the list of the module takes every packet, and in
    any state the packet is counted in a node with the text of `a`, while the root and the counters
    of the other sources stay as they are. -/
theorem keys_faithful (a : BitVec 32) :
    (pI4 a).length + 1 ≤ 16 ∧ key a = pI4 a ∧ key a ≠ [] ∧ (∀ b, key b = key a → b = a) ∧
    (∀ d s, Assign.exec (key a) d s .strcpyAddr =
      s.store s.tail fun v => { v with addr := key a }) ∧
    (∀ s r cs l junk dataLen, Rep s r cs → s.heap.get l = none →
      ∃ s', hookFunc s (some ⟨a, dataLen⟩) (some (l, junk)) = some (s', nfAccept)) ∧
    ∀ s dataLen ans,
      hookFunc s (some ⟨a, dataLen⟩) ans =
        (addToListNetwork s (key a) dataLen ans).map (fun s' => (s', nfAccept)) ∧
      ∀ s' ret, hookFunc s (some ⟨a, dataLen⟩) ans = some (s', ret) →
        CountedIn s s' (key a) dataLen ∧
        ∀ l v, s.heap.get l = some v → v.addr = [] ∨ (∃ b, b ≠ a ∧ v.addr = key b) →
          Holds s' l v := by
  refine ⟨Nat.succ_le_succ pI4_length, key_eq, key_ne_nil, fun b e => key_injective e,
    fun d s => if_pos key_length, fun s r cs l junk dataLen rep free => ?_,
    fun s dataLen ans => ⟨hookFunc_eq, fun s' ret go => ?_⟩⟩
  · obtain ⟨s', _, _, add, -⟩ :=
      rep.addToListNetwork junk dataLen key_ne_nil key_length fun _ => free
    exact ⟨s', hookFunc_eq.trans (congrArg (Option.map _) add)⟩
  · obtain ⟨s1, add, e⟩ := Option.map_eq_some_iff.mp (hookFunc_eq.symm.trans go)
    cases e
    refine ⟨.of_add add, fun l v get texts => Holds.addToListNetwork get ?_ add⟩
    rcases texts with root | ⟨b, ne, e⟩
    · rw [root]
      exact key_ne_nil.symm
    · rw [e]
      exact fun same => ne (key_injective same)

/-- The list after one packet from 10.0.0.1. -/
def oneKey : Net :=
  ⟨⟨[(1, ⟨key 0x0A000001, 1, 50, none⟩), (0, ⟨[], 0, 0, some 1⟩)], by decide⟩, some 0, some 1⟩

/-- A packet from 10.0.0.2 gets a node of its own and leaves the counters of 10.0.0.1 as they
    are. -/
theorem keys_faithful_second_source :
    ∃ s ret, hookFunc oneKey (some ⟨0x0A000002, 7⟩) (some (2, ⟨[], 0, 0, none⟩)) = some (s, ret) ∧
      CountedIn oneKey s "10.0.0.2".toList 7 ∧ Holds s 1 ⟨"10.0.0.1".toList, 1, 50, none⟩ := by
  have goes : (hookFunc oneKey (some ⟨0x0A000002, 7⟩) (some (2, ⟨[], 0, 0, none⟩))).isSome := by
    decide +kernel
  obtain ⟨⟨s, ret⟩, go⟩ := Option.isSome_iff_exists.mp goes
  obtain ⟨-, -, -, -, -, -, calls⟩ := keys_faithful 0x0A000002
  obtain ⟨counted, others⟩ := (calls oneKey 7 _).2 s ret go
  have first : key 0x0A000001 = "10.0.0.1".toList := by decide +kernel
  have second : key 0x0A000002 = "10.0.0.2".toList := by decide +kernel
  have held := others 1 ⟨key 0x0A000001, 1, 50, none⟩ rfl (.inr ⟨0x0A000001, by decide, rfl⟩)
  rw [first] at held
  rw [second] at counted
  exact ⟨s, ret, go, counted, held⟩

end KernelModules.Packet
