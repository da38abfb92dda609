import KernelModules.Packet.Source
import KernelModules.Base.Ledger
import Mathlib.Data.BitVec
import Mathlib.Algebra.Group.Prod

/-!
# The packet list refines a ledger

`Rep s r cs` is the representation invariant of the list of `network_procfs.c`: from `root` on, the
heap holds the cell `r`, whose `addr` is empty, then the cells `cs`; `tail` is the last of them; no
two cells have the same `addr`; and every live node is one of them. `entries cs` reads the cells
behind the root as a ledger of packet counts and byte sums keyed by source text.

Each operation keeps the invariant and does to `entries` what a posting does to a ledger:

* `Rep.addToListNetwork`: a packet is a posting to its source, also when the source is new. It is
  put together from `Rep.credit`, the case of a text that a cell has, and `Rep.grow`, the case of a
  new one.
* `Rep.myWrite`: a write to `/proc/net_proc` is a reset.
* `Rep.initPacket`: `init_packet` builds the list of no entries.
* `Rep.dump`: `my_start` and `my_next` visit the cells behind the root.
-/

namespace KernelModules.Packet

/-- What a node has counted. -/
abbrev Amount := BitVec 32 × BitVec 64

/-- The ledger that the cells of a list hold. -/
def entries (cs : List (Loc × Node)) : List (List Char × Amount) :=
  cs.map fun c => (c.2.addr, (c.2.count, c.2.dataUsed))

/-- The addresses and the texts of cells. -/
def skeleton (cs : List (Loc × Node)) : List (Loc × List Char) := cs.map fun c => (c.1, c.2.addr)

/-- Addresses and texts of two parts. -/
lemma skeleton_append {cs ds : List (Loc × Node)} :
    skeleton (cs ++ ds) = skeleton cs ++ skeleton ds := List.map_append

/-- The representation invariant: the root cell `r`, then the cells `cs`. -/
structure Rep (s : Net) (r : Loc × Node) (cs : List (Loc × Node)) : Prop where
  chain : Chain Node.next s.heap s.root (r :: cs)
  last : ∃ pre t, r :: cs = pre ++ [t] ∧ s.tail = some t.1
  sentinel : r.2.addr = []
  distinct : ((r :: cs).map (·.2.addr)).Nodup
  all : ∀ {l v}, s.heap.get l = some v → (l, v) ∈ r :: cs

/-- A store to a live node. -/
lemma Net.store_eq {s : Net} {l v f} (g : s.heap.get l = some v) :
    s.store (some l) f = some { s with heap := s.heap.set l (f v) } := by
  simp [Net.store, g]

/-- A load is a lookup in the heap. -/
lemma Net.load_eq {s : Net} {l} : s.load (some l) = s.heap.get l := rfl

/-- The search loop finds the first cell with the address, if there is one. -/
lemma searchLoop_chain {h p cs a n} (c : Chain Node.next h p cs) (lt : cs.length < n) :
    searchLoop h a n p = some ((cs.find? (·.2.addr = a)).map Prod.fst) := by
  induction c generalizing n with
  | nil =>
    cases n with
    | zero => cases lt
    | succ n => rfl
  | @cons l v cs g _ ih =>
    cases n with
    | zero => cases lt
    | succ n =>
      have tail := ih (Nat.lt_of_succ_lt_succ lt)
      simp only [searchLoop, g, Option.bind_eq_bind, Option.bind_some, List.find?_cons]
      by_cases e : v.addr = a
      · simp [e]
      · simp [e, tail]

section
variable {s : Net} {r : Loc × Node} {cs : List (Loc × Node)}

/-- Rewriting the counters of cells keeps the invariant. -/
lemma Rep.rewrite {h} {g : Loc × Node → Node} (rep : Rep s r cs)
    (vals : ∀ c ∈ r :: cs, h.get c.1 = some (g c))
    (only : ∀ k ∉ (r :: cs).map Prod.fst, h.get k = s.heap.get k)
    (addr : ∀ c ∈ r :: cs, (g c).addr = c.2.addr)
    (next : ∀ c ∈ r :: cs, (g c).next = c.2.next) :
    Rep { s with heap := h } (r.1, g r) (cs.map fun c => (c.1, g c)) := by
  refine ⟨?_, ?_, ?_, ?_, ?_⟩
  · exact rep.chain.rewrite vals next
  · obtain ⟨pre, t, e, et⟩ := rep.last
    refine ⟨pre.map fun c => (c.1, g c), (t.1, g t), ?_, et⟩
    have e' := congrArg (List.map fun c => (c.1, g c)) e
    rwa [List.map_append, List.map_singleton] at e'
  · exact (addr r List.mem_cons_self).trans rep.sentinel
  · have same : (r :: cs).map (fun c => (g c).addr) = (r :: cs).map (·.2.addr) :=
      List.map_congr_left addr
    rw [← List.map_cons (f := fun c => (c.1, g c)), List.map_map,
      show (·.2.addr) ∘ (fun c => (c.1, g c)) = fun c => (g c).addr from rfl, same]
    exact rep.distinct
  · intro k w get
    rw [← List.map_cons (f := fun c => (c.1, g c))]
    by_cases mem : k ∈ (r :: cs).map Prod.fst
    · obtain ⟨c, mc, rfl⟩ := List.mem_map.mp mem
      rw [vals c mc] at get
      cases get
      exact List.mem_map_of_mem mc
    · -- no live node lies outside of the list
      rw [only k mem] at get
      exact absurd (List.mem_map_of_mem (rep.all get)) mem

/-- A store that keeps text and link keeps the representation. -/
lemma Rep.store {l v} {f : Node → Node} (rep : Rep s r cs) (g : s.heap.get l = some v)
    (addr : (f v).addr = v.addr) (next : (f v).next = v.next) :
    Rep { s with heap := s.heap.set l (f v) } (Heap.replace l (f v) r)
      (cs.map (Heap.replace l (f v))) := by
  have split : Heap.replace l (f v) = fun d => (d.1, (Heap.replace l (f v) d).2) := by
    funext d
    rw [← Heap.replace_fst]
  have cell : ∀ c ∈ r :: cs, c.1 = l → c.2 = v := by
    rintro c mem rfl
    exact Option.some.inj ((rep.chain.get mem).symm.trans g)
  rw [split]
  apply rep.rewrite
  · intro c mem
    by_cases e : c.1 = l
    · rw [Heap.replace, if_pos e, e]
      exact Heap.get_set_self g
    · rw [Heap.replace, if_neg e, Heap.get_set_of_ne e]
      exact rep.chain.get mem
  · intro k out
    have ne : k ≠ l := by
      rintro rfl
      exact out (List.mem_map_of_mem (rep.all g))
    exact Heap.get_set_of_ne ne
  · intro c mem
    by_cases e : c.1 = l
    · rw [Heap.replace, if_pos e, addr, cell c mem e]
    · rw [Heap.replace, if_neg e]
  · intro c mem
    by_cases e : c.1 = l
    · rw [Heap.replace, if_pos e, next, cell c mem e]
    · rw [Heap.replace, if_neg e]

/-- A text belongs to one cell. -/
lemma Rep.addr_inj {c d} (rep : Rep s r cs) (mc : c ∈ r :: cs) (md : d ∈ r :: cs)
    (e : c.2.addr = d.2.addr) : c = d :=
  List.inj_on_of_nodup_map rep.distinct mc md e

/-- The root has the empty text. -/
lemma Rep.not_mem_cons {a} (rep : Rep s r cs) (ne : a ≠ []) (out : a ∉ cs.map (·.2.addr)) :
    a ∉ (r :: cs).map (·.2.addr) := by
  rw [List.map_cons, List.mem_cons, not_or, rep.sentinel]
  exact ⟨ne, out⟩

/-- Writing a cell, its text kept, changes no address and no text. -/
lemma Rep.skeleton_replace {l v w} (rep : Rep s r cs) (mem : (l, v) ∈ r :: cs)
    (addr : w.addr = v.addr) :
    skeleton ((r :: cs).map (Heap.replace l w)) = skeleton (r :: cs) := by
  rw [skeleton, List.map_map]
  apply List.map_congr_left
  intro c mc
  rw [Function.comp_apply, Heap.replace]
  by_cases e : c.1 = l
  · have cell : c.2 = v := by
      have g := rep.chain.get mc
      rw [e, rep.chain.get mem] at g
      exact (Option.some.inj g).symm
    rw [if_pos e, cell, e, addr]
  · rw [if_neg e]

/-- Crediting a cell credits the ledger entry of its source. -/
lemma Rep.entries_replace {l v w} {m : Amount} (rep : Rep s r cs) (mem : (l, v) ∈ cs)
    (e : (w.addr, (w.count, w.dataUsed)) = (v.addr, (v.count, v.dataUsed) + m)) :
    entries (cs.map (Heap.replace l w)) = (entries cs).map (Posting.credit v.addr m) := by
  rw [entries, entries, List.map_map, List.map_map]
  apply List.map_congr_left
  intro c mc
  have mem' := List.mem_cons_of_mem r mem
  have mc' := List.mem_cons_of_mem r mc
  rw [Function.comp_apply, Function.comp_apply, Posting.credit]
  by_cases el : c.1 = l
  · have ec : c = (l, v) := by
      have g := rep.chain.get mc'
      rw [el, rep.chain.get mem'] at g
      exact Prod.ext el (Option.some.inj g).symm
    rw [Heap.replace, if_pos el, ec, if_pos rfl]
    exact e
  · have ne : c.2.addr ≠ v.addr := by
      intro ea
      have ec := rep.addr_inj mc' mem' ea
      exact el (congrArg Prod.fst ec)
    rw [Heap.replace, if_neg el, if_neg ne]

/-- The first assignment of a call that appends a node links the new node, as it is, to the old last
    one. -/
lemma exec_linkAlloc {t l v a} (junk : Node) (d : BitVec 32) (et : s.tail = some t)
    (g : s.heap.get t = some v) (free : s.heap.get l = none) :
    Assign.exec a d s (.linkAlloc (some (l, junk))) =
      some ⟨(s.heap.alloc l junk free).set t { v with next := some l }, s.root, some t⟩ := by
  have ne : t ≠ l := by
    rintro rfl
    rw [g] at free
    cases free
  have g0 : (s.heap.alloc l junk free).get t = some v := (Heap.get_alloc_of_ne ne).trans g
  simp [Assign.exec, Net.kmemCacheAlloc, free, et, Net.store, g0]

/-- The assignments that append a node: the old last node is linked to the new one, the new one has
    all its fields set, and `tail` points to it. -/
lemma exec_addAssigns {t l v a} (junk : Node) (d : BitVec 32) (et : s.tail = some t)
    (g : s.heap.get t = some v)
    (free : s.heap.get l = none) (short : a.length < 16) :
    ∃ h, run (Assign.exec a d) s (addAssigns (some (l, junk))) = some ⟨h, s.root, some l⟩ ∧
      (∀ k, k ≠ l → k ≠ t → h.get k = s.heap.get k) ∧
      h.get t = some { v with next := some l } ∧
      h.get l = some ⟨a, 1, d.signExtend 64, none⟩ := by
  have ne : t ≠ l := by
    rintro rfl
    rw [g] at free
    cases free
  let h0 := s.heap.alloc l junk free
  have g0t : h0.get t = some v := by
    rw [Heap.get_alloc_of_ne ne]
    exact g
  have g0l : h0.get l = some junk := Heap.get_alloc_self
  let h1 := h0.set t { v with next := some l }
  have g1t : h1.get t = some { v with next := some l } := Heap.get_set_self g0t
  have g1l : h1.get l = some junk := by
    rw [Heap.get_set_of_ne (Ne.symm ne)]
    exact g0l
  -- four writes to the new node, one for each of its fields
  let h2 := h1.set l { junk with count := 1 }
  have g2 : h2.get l = some { junk with count := 1 } := Heap.get_set_self g1l
  let h3 := h2.set l ⟨junk.addr, 1, d.signExtend 64, junk.next⟩
  have g3 : h3.get l = some ⟨junk.addr, 1, d.signExtend 64, junk.next⟩ := Heap.get_set_self g2
  let h4 := h3.set l ⟨a, 1, d.signExtend 64, junk.next⟩
  have g4 : h4.get l = some ⟨a, 1, d.signExtend 64, junk.next⟩ := Heap.get_set_self g3
  let h5 := h4.set l ⟨a, 1, d.signExtend 64, none⟩
  have g5 : h5.get l = some ⟨a, 1, d.signExtend 64, none⟩ := Heap.get_set_self g4
  refine ⟨h5, ?_, ?_, ?_, g5⟩
  · have st0 : Assign.exec a d s (.linkAlloc (some (l, junk))) = some ⟨h1, s.root, some t⟩ :=
      exec_linkAlloc junk d et g free
    have st1 : Assign.exec a d ⟨h1, s.root, some t⟩ .tailNext = some ⟨h1, s.root, some l⟩ := by
      simp [Assign.exec, Net.load, g1t]
    have st2 : Assign.exec a d ⟨h1, s.root, some l⟩ .setCount = some ⟨h2, s.root, some l⟩ := by
      rw [Assign.exec, Net.store_eq g1l]
    have st3 : Assign.exec a d ⟨h2, s.root, some l⟩ .setDataUsed = some ⟨h3, s.root, some l⟩ := by
      rw [Assign.exec, Net.store_eq g2]
    have st4 : Assign.exec a d ⟨h3, s.root, some l⟩ .strcpyAddr = some ⟨h4, s.root, some l⟩ := by
      rw [Assign.exec, if_pos short, Net.store_eq g3]
    have st5 : Assign.exec a d ⟨h4, s.root, some l⟩ .nextNull = some ⟨h5, s.root, some l⟩ := by
      rw [Assign.exec, Net.store_eq g4]
    simp only [addAssigns, run_cons, run_nil, st0, st1, st2, st3, st4, st5, Option.bind_some]
  · intro k nl nt
    have only : h5.get k = h1.get k := by
      simp only [h5, h4, h3, h2, Heap.get_set_of_ne nl]
    rw [only, Heap.get_set_of_ne nt, Heap.get_alloc_of_ne nl]
  · have only : h5.get t = h1.get t := by
      simp only [h5, h4, h3, h2, Heap.get_set_of_ne ne]
    rw [only]
    exact g1t

/-- A new last cell with a new text keeps the representation. -/
lemma Rep.append {pre t v l w h} (rep : Rep s r cs) (e : r :: cs = pre ++ [(t, v)])
    (free : s.heap.get l = none)
    (same : ∀ k, k ≠ l → k ≠ t → h.get k = s.heap.get k)
    (last : h.get t = some { v with next := some l }) (new : h.get l = some w)
    (end_ : w.next = none) (fresh : w.addr ∉ (r :: cs).map (·.2.addr)) :
    ∃ r' cs', Rep ⟨h, s.root, some l⟩ r' (cs' ++ [(l, w)]) ∧ entries cs' = entries cs ∧
      r' :: cs' = pre ++ [(t, { v with next := some l })] := by
  have chain := rep.chain
  rw [e] at chain
  obtain ⟨-, sep⟩ := chain.separate free
  have chain' := chain.link (fun k mk => same k (sep k mk).1 (sep k mk).2) last rfl new end_
  -- the cells before are as they were, up to the link of the last one
  obtain ⟨r', cs', e', addrs, ents, sent⟩ :
      ∃ r' cs', r' :: cs' = pre ++ [(t, { v with next := some l })] ∧
      (r' :: cs').map (·.2.addr) = (r :: cs).map (·.2.addr) ∧ entries cs' = entries cs ∧
      r'.2.addr = r.2.addr := by
    rw [e]
    cases pre with
    | nil =>
      obtain ⟨rfl, rfl⟩ := List.cons.inj e
      exact ⟨_, _, rfl, rfl, rfl, rfl⟩
    | cons p pre =>
      obtain ⟨rfl, rfl⟩ := List.cons.inj e
      refine ⟨r, pre ++ [(t, { v with next := some l })], rfl, ?_, ?_, rfl⟩
      · simp
      · simp [entries]
  refine ⟨r', cs', ⟨?_, ?_, ?_, ?_, ?_⟩, ents, e'⟩
  · rw [← List.cons_append, e', List.append_assoc]
    exact chain'
  · exact ⟨r' :: cs', (l, w), rfl, rfl⟩
  · rw [sent]
    exact rep.sentinel
  · rw [← List.cons_append, List.map_append, addrs, List.map_singleton]
    refine List.nodup_append.mpr ⟨rep.distinct, List.nodup_singleton _, ?_⟩
    intro x mx y my
    rw [List.mem_singleton.mp my]
    rintro rfl
    exact fresh mx
  · intro k u g
    rw [← List.cons_append, e']
    by_cases kl : k = l
    · subst kl
      rw [new] at g
      cases g
      simp
    · by_cases kt : k = t
      · subst kt
        rw [last] at g
        cases g
        simp
      · rw [same k kl kt] at g
        have mem := rep.all g
        rw [e] at mem
        have mem' : (k, u) ∈ pre := by simpa [kt] using mem
        simp [mem']

/-- The search finds the cell with the text. -/
lemma Rep.search {a c} (rep : Rep s r cs) (mem : c ∈ r :: cs) (ea : c.2.addr = a) :
    searchLoop s.heap a (s.heap.size + 1) s.root = some (some c.1) := by
  rw [searchLoop_chain rep.chain (Nat.lt_succ_of_le rep.chain.length_le)]
  cases found : (r :: cs).find? (·.2.addr = a) with
  | none => exact absurd ea (by simpa using List.find?_eq_none.mp found c mem)
  | some d =>
    -- no other cell has this text
    have ed : d.2.addr = a := by simpa using List.find?_some found
    rw [rep.addr_inj (List.mem_of_find?_eq_some found) mem (ed.trans ea.symm)]
    rfl

/-- For a text that no cell has it finds nothing. -/
lemma Rep.search_none {a} (rep : Rep s r cs) (out : a ∉ (r :: cs).map (·.2.addr)) :
    searchLoop s.heap a (s.heap.size + 1) s.root = some none := by
  have none_ : (r :: cs).find? (·.2.addr = a) = none := by
    rw [List.find?_eq_none]
    intro c mem e
    exact out (List.mem_map.mpr ⟨c, mem, by simpa using e⟩)
  rw [searchLoop_chain rep.chain (Nat.lt_succ_of_le rep.chain.length_le), none_]
  rfl

/-- A node that has counted one more packet. -/
def Node.credited (n : Node) (dataSize : BitVec 32) : Node :=
  { n with count := n.count + 1, dataUsed := n.dataUsed + dataSize.signExtend 64 }

/-- A text that a cell has, be it the root: the cell counts the packet
    (C `add_to_list_network`). -/
lemma Rep.credit {a k v ans} (d : BitVec 32) (rep : Rep s r cs) (mem : (k, v) ∈ r :: cs)
    (ea : v.addr = a) :
    ∃ s', Packet.addToListNetwork s a d ans = some s' ∧
      Rep s' (Heap.replace k (v.credited d) r) (cs.map (Heap.replace k (v.credited d))) := by
  have g := rep.chain.get mem
  -- `atomic_inc`, then `atomic64_add`
  let h1 := s.heap.set k { v with count := v.count + 1 }
  have rep1 := rep.store (f := fun v => { v with count := v.count + 1 }) g rfl rfl
  have g1 : h1.get k = some { v with count := v.count + 1 } := Heap.get_set_self g
  have rep2 := rep1.store (f := fun v => { v with dataUsed := v.dataUsed + d.signExtend 64 })
    g1 rfl rfl
  have twice : Heap.replace k (v.credited d) ∘ Heap.replace k { v with count := v.count + 1 } =
      Heap.replace k (v.credited d) := by
    funext c
    by_cases e : c.1 = k
    · simp [Heap.replace, e]
    · simp [Heap.replace, e]
  refine ⟨{ s with heap := h1.set k (v.credited d) }, ?_, ?_⟩
  · simp only [Packet.addToListNetwork, rep.search mem ea, Option.bind_eq_bind, Option.bind_some,
      Net.store_eq g]
    exact Net.store_eq (s := { s with heap := h1 }) g1
  · rw [← twice, ← List.map_map]
    exact rep2

/-- A text that no cell has: a cell for it is appended, provided that it fits into `addr` and that
    the allocation gets a free address (C `add_to_list_network`). -/
lemma Rep.grow {a l} (junk : Node) (d : BitVec 32) (rep : Rep s r cs)
    (out : a ∉ (r :: cs).map (·.2.addr)) (short : a.length < 16) (free : s.heap.get l = none) :
    ∃ s' r' cs', Packet.addToListNetwork s a d (some (l, junk)) = some s' ∧
      Rep s' r' (cs' ++ [(l, ⟨a, 1, d.signExtend 64, none⟩)]) ∧ entries cs' = entries cs ∧
      skeleton (r' :: cs') = skeleton (r :: cs) := by
  obtain ⟨pre, ⟨t, v⟩, e, et⟩ := rep.last
  have g : s.heap.get t = some v := rep.chain.get (e ▸ List.mem_append_right _ List.mem_cons_self)
  obtain ⟨h, st, same, last, new⟩ := exec_addAssigns junk d et g free short
  obtain ⟨r', cs', rep', ents, e'⟩ := rep.append e free same last new rfl out
  refine ⟨_, r', cs', ?_, rep', ents, ?_⟩
  · simp only [Packet.addToListNetwork, rep.search_none out, Option.bind_eq_bind, Option.bind_some]
    exact st
  · rw [e, e', skeleton_append, skeleton_append]
    rfl

/-- A packet is a posting to its source: the text is not empty, it fits into `addr`, and the
    allocation for a new source gets a free address (C `add_to_list_network`). -/
lemma Rep.addToListNetwork {a l} (junk : Node) (d : BitVec 32) (rep : Rep s r cs) (ne : a ≠ [])
    (short : a.length < 16) (free : a ∉ cs.map (·.2.addr) → s.heap.get l = none) :
    ∃ s' r' cs', Packet.addToListNetwork s a d (some (l, junk)) = some s' ∧ Rep s' r' cs' ∧
      entries cs' = Posting.apply (entries cs) (.post a (1, d.signExtend 64)) := by
  have keys : (entries cs).map Prod.fst = cs.map (·.2.addr) := by
    rw [entries, List.map_map]
    rfl
  rw [Posting.apply, keys]
  by_cases known : a ∈ cs.map (·.2.addr)
  · obtain ⟨⟨k, v⟩, mem, ea⟩ := List.mem_map.mp known
    obtain ⟨s', st, rep'⟩ := rep.credit d (List.mem_cons_of_mem r mem) ea
    refine ⟨s', _, _, st, rep', ?_⟩
    rw [if_pos known, rep.entries_replace (m := (1, d.signExtend 64)) mem rfl]
    exact congrArg (fun b => (entries cs).map (Posting.credit b _)) ea
  · obtain ⟨s', r', cs', st, rep', ents, -⟩ :=
      rep.grow junk d (rep.not_mem_cons ne known) short (free known)
    refine ⟨s', r', _, st, rep', ?_⟩
    rw [if_neg known, ← ents]
    simp [entries]

/-- A call for a new source goes through only at a free address. -/
lemma Rep.free_of_addToListNetwork {a d l junk s'} (rep : Rep s r cs) (ne : a ≠ [])
    (st : Packet.addToListNetwork s a d (some (l, junk)) = some s')
    (out : a ∉ cs.map (·.2.addr)) : s.heap.get l = none := by
  unfold Packet.addToListNetwork at st
  rw [rep.search_none (rep.not_mem_cons ne out)] at st
  by_contra used
  simp [addAssigns, Assign.exec, Net.kmemCacheAlloc, used] at st

/-- A node with its counters cleared. -/
def Node.cleared (n : Node) : Node := { n with count := 0, dataUsed := 0 }

/-- The loop of `my_write` clears the cells of a chain and nothing else. -/
lemma clearLoop_chain {n p} {s : Net} {cs : List (Loc × Node)}
    (c : Chain Node.next s.heap p cs) (lt : cs.length < n) :
    ∃ h, clearLoop n s p = some { s with heap := h } ∧
      (∀ d ∈ cs, h.get d.1 = some d.2.cleared) ∧
      ∀ k ∉ cs.map Prod.fst, h.get k = s.heap.get k := by
  induction cs generalizing n p s with
  | nil =>
    cases c
    cases n with
    | zero => cases lt
    | succ n => exact ⟨s.heap, rfl, nofun, fun _ _ => rfl⟩
  | cons d cs ih =>
    have nd := c.nodup
    obtain ⟨l, v⟩ := d
    cases c with
    | cons g c =>
      cases n with
      | zero => cases lt
      | succ n =>
        have out : l ∉ cs.map Prod.fst := (List.nodup_cons.mp nd).1
        let h1 := s.heap.set l { v with count := 0 }
        have g1 : h1.get l = some { v with count := 0 } := Heap.get_set_self g
        let h2 := h1.set l v.cleared
        have g2 : h2.get l = some v.cleared := Heap.get_set_self g1
        have keep : ∀ k, k ≠ l → h2.get k = s.heap.get k := by
          intro k ne
          rw [Heap.get_set_of_ne ne, Heap.get_set_of_ne ne]
        have c2 : Chain Node.next h2 v.next cs := by
          apply c.frame
          intro k mem
          exact keep k fun e => out (e ▸ mem)
        obtain ⟨h, st, vals, only⟩ := ih (s := { s with heap := h2 }) c2 (Nat.lt_of_succ_lt_succ lt)
        refine ⟨h, ?_, ?_, ?_⟩
        · rw [clearLoop, Net.store_eq g]
          simp only [Option.bind_eq_bind, Option.bind_some]
          rw [Net.store_eq g1]
          simp only [Option.bind_some]
          show (h2.get l).bind _ = _
          rw [g2]
          exact st
        · intro d mem
          cases mem with
          | head =>
            rw [only l out]
            exact g2
          | tail _ mem => exact vals d mem
        · intro k nk
          obtain ⟨ne, nk⟩ := not_or.mp (mt List.mem_cons.mpr nk)
          rw [only k nk]
          exact keep k ne

/-- A write to `/proc/net_proc` clears every cell (C `my_write`). -/
lemma Rep.clear (len : BitVec 64) (rep : Rep s r cs) :
    ∃ s', Packet.myWrite s len = some (s', len.setWidth 32) ∧
      Rep s' (r.1, r.2.cleared) (cs.map fun c => (c.1, c.2.cleared)) := by
  obtain ⟨h, st, vals, only⟩ := clearLoop_chain rep.chain (Nat.lt_succ_of_le rep.chain.length_le)
  refine ⟨_, ?_, rep.rewrite vals only (fun _ _ => rfl) (fun _ _ => rfl)⟩
  rw [Packet.myWrite, st]
  rfl

/-- A write to `/proc/net_proc` is a reset (C `my_write`). -/
lemma Rep.myWrite (len : BitVec 64) (rep : Rep s r cs) :
    ∃ s' r' cs', Packet.myWrite s len = some (s', len.setWidth 32) ∧ Rep s' r' cs' ∧
      entries cs' = Posting.apply (entries cs) .reset := by
  obtain ⟨s', st, rep'⟩ := rep.clear len
  refine ⟨s', _, _, st, rep', ?_⟩
  rw [entries, List.map_map, Posting.apply, entries, List.map_map]
  rfl

/-- `my_start` answers the first source at every position. -/
lemma Rep.myStart (rep : Rep s r cs) (p : Nat) :
    Packet.myStart s p = some (cs.head?.map Prod.fst, p) := by
  have root : s.root = some r.1 := rep.chain.head
  have g : s.heap.get r.1 = some r.2 := rep.chain.get List.mem_cons_self
  rw [← rep.chain.tail.head, Packet.myStart, root, Net.load_eq, g]
  rfl

/-- The iterator shows a chain from its start to its end. -/
lemma iterate_chain {n p} (c : Chain Node.next s.heap p cs) (lt : cs.length < n) :
    iterate s n p = some (cs.map Prod.snd) := by
  induction c generalizing n with
  | nil =>
    cases n with
    | zero => cases lt
    | succ n => rfl
  | @cons l v cs g _ ih =>
    cases n with
    | zero => cases lt
    | succ n =>
      have tail := ih (Nat.lt_of_succ_lt_succ lt)
      simp only [iterate, myNext, Net.load_eq, g, Option.bind_eq_bind, Option.bind_some, tail,
        List.map_cons]

/-- A dump shows the cells behind the root. -/
lemma Rep.dump (rep : Rep s r cs) : Packet.dump s = some (cs.map Prod.snd) := by
  have tail := rep.chain.tail
  have lt : cs.length < s.heap.size + 1 :=
    Nat.lt_of_lt_of_le (Nat.lt_succ_self _) (Nat.le_succ_of_le rep.chain.length_le)
  rw [Packet.dump, rep.myStart 0, ← tail.head]
  exact iterate_chain tail lt

end

/-- The heap holds the root and nothing else. -/
structure RootOnly (s : Net) (l : Loc) (v : Node) : Prop where
  root : s.root = some l
  get : s.heap.get l = some v
  only : ∀ {k}, k ≠ l → s.heap.get k = none

/-- What holds before the statement of `init_packet` with this index, up to the registration. -/
def InitInv (m : Module) : Nat → Prop
  | 0 => m = .boot
  | 1 => m = { Module.boot with cache := true }
  | pc => m.cache = true ∧ (m.hooked = false ∧ m.proc = false) ∧ ∃ l v, RootOnly m.net l v ∧
      (5 ≤ pc → v.next = none) ∧ (6 ≤ pc → v.addr = []) ∧ (7 ≤ pc → m.net.tail = some l)

/-- A store to the root leaves it alone in the heap. -/
lemma RootOnly.store {s : Net} {l v} {f : Node → Node} (ro : RootOnly s l v) :
    ∃ s', s.store s.root f = some s' ∧ RootOnly s' l (f v) ∧ s'.tail = s.tail := by
  refine ⟨{ s with heap := s.heap.set l (f v) }, ?_, ⟨ro.root, ?_, ?_⟩, rfl⟩
  · rw [ro.root, Net.store_eq ro.get, ro.root]
  · exact Heap.get_set_self ro.get
  · intro k ne
    rw [Heap.get_set_of_ne ne]
    exact ro.only ne

/-- The root with its fields set is the empty list. -/
lemma RootOnly.rep {s : Net} {l v} (ro : RootOnly s l v) (next : v.next = none) (addr : v.addr = [])
    (tail : s.tail = some l) : Rep s (l, v) [] := by
  refine ⟨?_, ⟨[], (l, v), rfl, tail⟩, addr, List.nodup_singleton _, ?_⟩
  · rw [ro.root]
    refine .cons ro.get ?_
    rw [next]
    exact .nil
  · intro k w g
    by_cases e : k = l
    · subst e
      cases ro.get.symm.trans g
      exact List.mem_cons_self
    · rw [ro.only e] at g
      cases g

/-- The statements of `init_packet` before the registration of the hook all succeed. -/
lemma InitOp.exec_inv {m} (op : InitOp) (inv : InitInv m op.index) (lt : op.index < 7) :
    ∃ m', op.exec m = some m' ∧ InitInv m' (op.index + 1) := by
  cases op with
  | cacheCreate =>
    cases inv
    exact ⟨_, rfl, rfl⟩
  | rootAlloc l junk =>
    cases inv
    let h : Heap Node := Heap.empty.alloc l junk rfl
    have ro : RootOnly ⟨h, some l, none⟩ l junk :=
      ⟨rfl, Heap.get_alloc_self (f := rfl), Heap.get_alloc_of_ne (f := rfl)⟩
    refine ⟨⟨⟨h, some l, none⟩, true, false, false⟩, ?_, rfl, ⟨rfl, rfl⟩, l, junk, ro, nofun,
      nofun, nofun⟩
    simp [InitOp.exec, Net.kmemCacheAlloc, Module.boot, h]
  | rootCount =>
    obtain ⟨ca, ho, l, v, ro, -⟩ := inv
    obtain ⟨s, st, ro', et⟩ := ro.store (f := fun v => { v with count := 0 })
    refine ⟨{ m with net := s }, ?_, ca, ho, l, _, ro', nofun, nofun, nofun⟩
    rw [InitOp.exec, st]
    rfl
  | rootDataUsed =>
    obtain ⟨ca, ho, l, v, ro, -⟩ := inv
    obtain ⟨s, st, ro', et⟩ := ro.store (f := fun v => { v with dataUsed := 0 })
    refine ⟨{ m with net := s }, ?_, ca, ho, l, _, ro', nofun, nofun, nofun⟩
    rw [InitOp.exec, st]
    rfl
  | rootNext =>
    obtain ⟨ca, ho, l, v, ro, -⟩ := inv
    obtain ⟨s, st, ro', et⟩ := ro.store (f := fun v => { v with next := none })
    refine ⟨{ m with net := s }, ?_, ca, ho, l, _, ro', fun _ => rfl, nofun, nofun⟩
    rw [InitOp.exec, st]
    rfl
  | rootAddr =>
    obtain ⟨ca, ho, l, v, ro, next, -⟩ := inv
    obtain ⟨s, st, ro', et⟩ := ro.store (f := fun v => { v with addr := [] })
    refine ⟨{ m with net := s }, ?_, ca, ho, l, _, ro', fun _ => next (Nat.le_refl _),
      fun _ => rfl, nofun⟩
    rw [InitOp.exec, st]
    rfl
  | tailRoot =>
    obtain ⟨ca, ho, l, v, ro, next, addr, -⟩ := inv
    refine ⟨_, rfl, ca, ho, l, v, ⟨ro.root, ro.get, ro.only⟩, ?_, ?_, ?_⟩
    · exact fun _ => next (by decide)
    · exact fun _ => addr (by decide)
    · exact fun _ => ro.root
  | registerHook => exact absurd lt (Nat.lt_irrefl 7)
  | procCreate ok => exact absurd lt (Nat.not_succ_lt_self)

/-- Until then neither the hook nor the file is there. -/
lemma InitInv.unseen {m pc} (inv : InitInv m pc) : m.hooked = false ∧ m.proc = false := by
  match pc, inv with
  | 0, inv => cases inv; exact ⟨rfl, rfl⟩
  | 1, inv => cases inv; exact ⟨rfl, rfl⟩
  | _ + 2, ⟨_, un, _⟩ => exact un

/-- Before the registration the list is the empty one. -/
lemma InitInv.rep {m} (inv : InitInv m 7) : ∃ r, Rep m.net r [] := by
  obtain ⟨_, _, l, v, ro, next, addr, tail⟩ := inv
  exact ⟨(l, v), ro.rep (next (by decide)) (addr (by decide)) (tail (by decide))⟩

/-- `init_packet` builds the list of no entries, whatever the memory of the root held. -/
lemma Rep.initPacket (l : Loc) (junk : Node) (ok : Bool) :
    ∃ m r, run InitOp.exec .boot (Packet.initPacket l junk ok) = some m ∧ Rep m.net r [] := by
  obtain ⟨m1, st1, inv⟩ := InitOp.exec_inv .cacheCreate rfl (by decide)
  obtain ⟨m2, st2, inv⟩ := InitOp.exec_inv (.rootAlloc l junk) inv (by simp [InitOp.index])
  obtain ⟨m3, st3, inv⟩ := InitOp.exec_inv .rootCount inv (by decide)
  obtain ⟨m4, st4, inv⟩ := InitOp.exec_inv .rootDataUsed inv (by decide)
  obtain ⟨m5, st5, inv⟩ := InitOp.exec_inv .rootNext inv (by decide)
  obtain ⟨m6, st6, inv⟩ := InitOp.exec_inv .rootAddr inv (by decide)
  obtain ⟨m7, st7, inv⟩ := InitOp.exec_inv .tailRoot inv (by decide)
  obtain ⟨r, rep⟩ := inv.rep
  refine ⟨{ m7 with hooked := true, proc := ok }, r, ?_, rep⟩
  simp only [Packet.initPacket, run_cons, run_nil, st1, st2, st3, st4, st5, st6, st7,
    Option.bind_some]
  rfl

end KernelModules.Packet
