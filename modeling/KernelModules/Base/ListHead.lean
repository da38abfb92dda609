import KernelModules.Base.Heap
import KernelModules.Base.Ring
import Mathlib.Logic.Function.Basic

/-!
# Doubly linked rings of list heads

The lists of `<linux/list.h>`: a structure that is to be on a list has a `struct list_head` as a
member, and the list heads of a list are linked to a ring in both directions. A `Member` says where
the list head is in the objects of a heap; `container_of` leads from a list head to its object, so
that both have one address. `INIT_LIST_HEAD`, `__list_add` and `list_del` are given store by store,
and a store to an address that holds no object has no result.

`Ringed m h c` says that the links of the heap `h` lead around the cycle `c` in both directions.

* `initListHead_spec`, `listAdd_spec`, `listDel_spec`: what the stores make of the links. None of
  them touches another member (`Member.Keeps`).
* `Ringed.init`, `Ringed.add`, `Ringed.del`: on rings, these are the empty list, the insertion
  behind an element, and the removal of an element. `Ringed.frame`: a ring only depends on its own
  elements.
* `Ringed.forEach`: `list_for_each` from an element visits the other ones, in their order.
-/

namespace KernelModules

/-- C `struct list_head` -/
structure Links where
  next : Loc
  prev : Loc
  deriving Repr, DecidableEq

/-- The place of a list head in the objects `ν`, with what else an object holds. -/
structure Member (ν π : Type) where
  links : ν → Links
  setLinks : Links → ν → ν
  rest : ν → π
  links_setLinks : ∀ k v, links (setLinks k v) = k
  rest_setLinks : ∀ k v, rest (setLinks k v) = rest v

/-- C `LIST_POISON1` -/
def listPoison1 : Loc := 0x00100100

/-- C `LIST_POISON2` -/
def listPoison2 : Loc := 0x00200200

namespace Member
variable {ν π : Type} (m : Member ν π) (h : Heap ν)

/-- Reads `p->next`. -/
def next (p : Loc) : Option Loc := (h.get p).map fun v => (m.links v).next

/-- Reads `p->prev`. -/
def prev (p : Loc) : Option Loc := (h.get p).map fun v => (m.links v).prev

/-- What the object at an address holds besides its links. -/
def payload (p : Loc) : Option π := (h.get p).map m.rest

/-- The store `p->next = q`. -/
def setNext (p q : Loc) : Option (Heap ν) :=
  (h.get p).map fun v => h.set p (m.setLinks { m.links v with next := q } v)

/-- The store `p->prev = q`. -/
def setPrev (p q : Loc) : Option (Heap ν) :=
  (h.get p).map fun v => h.set p (m.setLinks { m.links v with prev := q } v)

/-- C `INIT_LIST_HEAD` -/
def initListHead (list : Loc) : Option (Heap ν) := do
  let h ← m.setNext h list list
  m.setPrev h list list

/-- C `__list_add` -/
def listAdd (new prev next : Loc) : Option (Heap ν) := do
  let h ← m.setPrev h next new
  let h ← m.setNext h new next
  let h ← m.setPrev h new prev
  m.setNext h prev new

/-- C `list_del` -/
def listDel (entry : Loc) : Option (Heap ν) := do
  let prev ← m.prev h entry
  let next ← m.next h entry
  let h ← m.setPrev h next prev
  let h ← m.setNext h prev next
  let h ← m.setNext h entry listPoison1
  m.setPrev h entry listPoison2

/-- The loop `list_for_each(pos, head)` with what the visits give. It gets one more iteration than
    there are objects. -/
def listForEach {β : Type} (head : Loc) (visit : Loc → Option (List β)) : Option (List β) := do
  let pos ← m.next h head
  forLoop (m.next h) head visit (h.size + 1) pos

/-- Every object is still there, with what it holds besides its links. -/
def Keeps (h h' : Heap ν) : Prop := m.payload h' = m.payload h

variable {m h} {h' : Heap ν}

/-- An address is live when there is something besides the links. -/
lemma live_iff {p} : h.get p = none ↔ m.payload h p = none := Option.map_eq_none_iff.symm

/-- A change of links neither allocates nor frees. -/
lemma Keeps.get_eq_none {p} (keeps : m.Keeps h h') : h'.get p = none ↔ h.get p = none := by
  rw [live_iff (m := m), live_iff (m := m), keeps]

/-- Two changes of links are one. -/
lemma Keeps.trans {h''} (keeps : m.Keeps h h') (keeps' : m.Keeps h' h'') : m.Keeps h h'' :=
  Eq.trans keeps' keeps

/-! ## The stores -/

/-- A store of links leaves everything else alone. -/
lemma set_spec {p v k} (live : h.get p = some v) :
    m.next (h.set p (m.setLinks k v)) = Function.update (m.next h) p (some k.next) ∧
      m.prev (h.set p (m.setLinks k v)) = Function.update (m.prev h) p (some k.prev) ∧
      m.Keeps h (h.set p (m.setLinks k v)) := by
  refine ⟨funext fun l => ?_, funext fun l => ?_, funext fun l => ?_⟩
  all_goals
    by_cases here : l = p
    · subst here
      simp [next, prev, payload, Heap.get_set_self live, m.links_setLinks, m.rest_setLinks, live]
    · simp [next, prev, payload, Heap.get_set_of_ne here, here]

/-- A store to a `next` goes through at a live address, and changes nothing else. -/
lemma setNext_spec {p q} (live : h.get p ≠ none) :
    ∃ h', m.setNext h p q = some h' ∧ m.next h' = Function.update (m.next h) p (some q) ∧
      m.prev h' = m.prev h ∧ m.Keeps h h' := by
  obtain ⟨v, at_⟩ := Option.ne_none_iff_exists'.mp live
  obtain ⟨next, prev, keeps⟩ := set_spec (m := m) (k := { m.links v with next := q }) at_
  refine ⟨_, by rw [setNext, at_, Option.map_some], next, ?_, keeps⟩
  have same : m.prev h p = some (m.links v).prev := by
    rw [Member.prev, at_, Option.map_some]
  rw [prev, ← same, Function.update_eq_self]

/-- A store to a `prev` goes through at a live address, and changes nothing else. -/
lemma setPrev_spec {p q} (live : h.get p ≠ none) :
    ∃ h', m.setPrev h p q = some h' ∧ m.next h' = m.next h ∧
      m.prev h' = Function.update (m.prev h) p (some q) ∧ m.Keeps h h' := by
  obtain ⟨v, at_⟩ := Option.ne_none_iff_exists'.mp live
  obtain ⟨next, prev, keeps⟩ := set_spec (m := m) (k := { m.links v with prev := q }) at_
  refine ⟨_, by rw [setPrev, at_, Option.map_some], ?_, prev, keeps⟩
  have same : m.next h p = some (m.links v).next := by
    rw [Member.next, at_, Option.map_some]
  rw [next, ← same, Function.update_eq_self]

/-- `INIT_LIST_HEAD` links a live head to itself. -/
lemma initListHead_spec {list} (live : h.get list ≠ none) :
    ∃ h', m.initListHead h list = some h' ∧
      m.next h' = Function.update (m.next h) list (some list) ∧
      m.prev h' = Function.update (m.prev h) list (some list) ∧ m.Keeps h h' := by
  obtain ⟨h1, e1, next1, prev1, keeps1⟩ := setNext_spec (m := m) (q := list) live
  obtain ⟨h2, e2, next2, prev2, keeps2⟩ :=
    setPrev_spec (m := m) (q := list) (mt keeps1.get_eq_none.mp live)
  refine ⟨h2, ?_, by rw [next2, next1], by rw [prev2, prev1], keeps1.trans keeps2⟩
  rw [initListHead, e1]
  exact e2

/-- `__list_add` puts the new entry between two live ones. -/
lemma listAdd_spec {new prev next} (new_live : h.get new ≠ none) (prev_live : h.get prev ≠ none)
    (next_live : h.get next ≠ none) :
    ∃ h', m.listAdd h new prev next = some h' ∧
      m.next h' = Function.update (Function.update (m.next h) new (some next)) prev (some new) ∧
      m.prev h' = Function.update (Function.update (m.prev h) next (some new)) new (some prev) ∧
      m.Keeps h h' := by
  obtain ⟨h1, e1, next1, prev1, keeps1⟩ := setPrev_spec (m := m) (q := new) next_live
  obtain ⟨h2, e2, next2, prev2, keeps2⟩ :=
    setNext_spec (m := m) (q := next) (mt keeps1.get_eq_none.mp new_live)
  have keeps12 := keeps1.trans keeps2
  obtain ⟨h3, e3, next3, prev3, keeps3⟩ :=
    setPrev_spec (m := m) (q := prev) (mt keeps12.get_eq_none.mp new_live)
  have keeps13 := keeps12.trans keeps3
  obtain ⟨h4, e4, next4, prev4, keeps4⟩ :=
    setNext_spec (m := m) (q := new) (mt keeps13.get_eq_none.mp prev_live)
  refine ⟨h4, ?_, by rw [next4, next3, next2, next1], by rw [prev4, prev3, prev2, prev1],
    keeps13.trans keeps4⟩
  simp only [listAdd, e1, e2, e3, e4, Option.bind_eq_bind, Option.bind_some]

/-- `list_del` links the neighbours to each other and poisons the entry. -/
lemma listDel_spec {entry prev next} (at_prev : m.prev h entry = some prev)
    (at_next : m.next h entry = some next) (prev_live : h.get prev ≠ none)
    (next_live : h.get next ≠ none) :
    ∃ h', m.listDel h entry = some h' ∧
      m.next h' = Function.update (Function.update (m.next h) prev (some next)) entry
        (some listPoison1) ∧
      m.prev h' = Function.update (Function.update (m.prev h) next (some prev)) entry
        (some listPoison2) ∧
      m.Keeps h h' := by
  have entry_live : h.get entry ≠ none := by
    intro none
    rw [Member.next, none] at at_next
    cases at_next
  obtain ⟨h1, e1, next1, prev1, keeps1⟩ := setPrev_spec (m := m) (q := prev) next_live
  obtain ⟨h2, e2, next2, prev2, keeps2⟩ :=
    setNext_spec (m := m) (q := next) (mt keeps1.get_eq_none.mp prev_live)
  have keeps12 := keeps1.trans keeps2
  obtain ⟨h3, e3, next3, prev3, keeps3⟩ :=
    setNext_spec (m := m) (q := listPoison1) (mt keeps12.get_eq_none.mp entry_live)
  have keeps13 := keeps12.trans keeps3
  obtain ⟨h4, e4, next4, prev4, keeps4⟩ :=
    setPrev_spec (m := m) (q := listPoison2) (mt keeps13.get_eq_none.mp entry_live)
  refine ⟨h4, ?_, by rw [next4, next3, next2, next1], by rw [prev4, prev3, prev2, prev1],
    keeps13.trans keeps4⟩
  simp only [listDel, at_prev, at_next, e1, e2, e3, e4, Option.bind_eq_bind, Option.bind_some]

/-! ## Rings -/

variable (m h) in
/-- `a` and `b` are linked, in both directions. -/
def Linked (a b : Loc) : Prop := m.next h a = some b ∧ m.prev h b = some a

/-- Links that have not been written still lead along the list. -/
lemma linked_congr {l : List Loc} {z} (chain : (l ++ [z]).IsChain (m.Linked h))
    (nexts : ∀ a ∈ l, m.next h' a = m.next h a)
    (prevs : ∀ b ∈ (l ++ [z]).tail, m.prev h' b = m.prev h b) :
    (l ++ [z]).IsChain (m.Linked h') := by
  induction l with
  | nil => exact List.isChain_singleton z
  | cons a l ih =>
    obtain ⟨here, rest⟩ := List.isChain_cons.mp chain
    refine List.isChain_cons.mpr ⟨fun b head => ?_, ih rest ?_ ?_⟩
    · obtain ⟨toNext, toPrev⟩ := here b head
      exact ⟨(nexts a List.mem_cons_self).trans toNext,
        (prevs b (List.mem_of_mem_head? head)).trans toPrev⟩
    · exact fun b mem => nexts b (List.mem_cons_of_mem a mem)
    · exact fun b mem => prevs b (List.mem_of_mem_tail mem)

end Member

/-- The links lead around the cycle in both directions. -/
structure Ringed {ν π : Type} (m : Member ν π) (h : Heap ν) (c : Cycle Loc) : Prop where
  links : c.Chain (m.Linked h)
  nodup : c.Nodup

namespace Ringed
variable {ν π : Type} {m : Member ν π} {h h' : Heap ν}

/-- The `next` links of a ring go round it. -/
lemma circular {c} (ring : Ringed m h c) : Circular (m.next h) c :=
  ⟨ring.links.imp fun _ _ linked => linked.1, ring.nodup⟩

/-- The elements of a ring are linked with elements of the ring. -/
lemma exists_links {c a} (ring : Ringed m h c) (mem : a ∈ c) :
    (∃ b ∈ c, m.Linked h a b) ∧ ∃ b ∈ c, m.Linked h b a := by
  obtain ⟨l, rfl⟩ := exists_cons mem
  have chain := (Cycle.chain_coe_cons ..).mp ring.links
  refine ⟨?_, ?_⟩
  · obtain ⟨b, head⟩ := exists_head l a
    refine ⟨b, ?_, (List.isChain_cons.mp chain).1 b head⟩
    rw [Cycle.mem_coe_iff, ← (List.perm_append_singleton a l).mem_iff]
    exact List.mem_of_mem_head? head
  · obtain ⟨i, z, e⟩ := (List.eq_nil_or_concat' (a :: l)).resolve_left (List.cons_ne_nil a l)
    rw [← List.cons_append, e] at chain
    refine ⟨z, ?_, ?_⟩
    · rw [Cycle.mem_coe_iff, e]
      exact List.mem_append_right i List.mem_cons_self
    · exact (List.isChain_append.mp chain).2.2 z (by simp) a rfl

/-- The entries of a ring are live. -/
lemma live {c a} (ring : Ringed m h c) (mem : a ∈ c) : h.get a ≠ none := by
  obtain ⟨⟨b, -, toNext, -⟩, -⟩ := ring.exists_links mem
  intro none
  rw [Member.next, none] at toNext
  cases toNext

/-- A ring only depends on the links of its elements. -/
lemma frame {c} (ring : Ringed m h c) (nexts : ∀ a ∈ c, m.next h' a = m.next h a)
    (prevs : ∀ a ∈ c, m.prev h' a = m.prev h a) : Ringed m h' c := by
  refine ⟨?_, ring.nodup⟩
  obtain ⟨l, rfl⟩ := Quot.exists_rep c
  cases l with
  | nil => exact Cycle.Chain.nil _
  | cons a l =>
    refine (Cycle.chain_coe_cons ..).mpr ?_
    rw [← List.cons_append]
    refine Member.linked_congr ((Cycle.chain_coe_cons ..).mp ring.links) ?_ fun b mem => ?_
    · exact fun b mem => nexts b (Cycle.mem_coe_iff.mpr mem)
    · refine prevs b (Cycle.mem_coe_iff.mpr ?_)
      rw [List.cons_append, List.tail_cons] at mem
      rcases List.mem_append.mp mem with mem | mem
      · exact List.mem_cons_of_mem a mem
      · rw [List.mem_singleton.mp mem]
        exact List.mem_cons_self

/-- `INIT_LIST_HEAD` makes a ring of one element. -/
lemma init {list} (live : h.get list ≠ none) :
    ∃ h', m.initListHead h list = some h' ∧ Ringed m h' ↑[list] ∧ m.Keeps h h' ∧
      ∀ a, a ≠ list → m.next h' a = m.next h a ∧ m.prev h' a = m.prev h a := by
  obtain ⟨h', e, next, prev, keeps⟩ := Member.initListHead_spec (m := m) live
  refine ⟨h', e, ⟨?_, ?_⟩, keeps, fun a ne => ⟨?_, ?_⟩⟩
  · rw [Cycle.chain_singleton]
    exact ⟨by rw [next, Function.update_self], by rw [prev, Function.update_self]⟩
  · exact Cycle.nodup_coe_iff.mpr (List.nodup_singleton list)
  · rw [next, Function.update_of_ne ne]
  · rw [prev, Function.update_of_ne ne]

/-- `__list_add` between an element and the next one inserts a new element behind it. -/
lemma add {a b new : Loc} {l : List Loc} (ring : Ringed m h ↑(a :: l)) (link : m.next h a = some b)
    (new_live : h.get new ≠ none) (out : new ∉ a :: l) :
    ∃ h', m.listAdd h new a b = some h' ∧ Ringed m h' ↑(a :: new :: l) ∧ m.Keeps h h' ∧
      ∀ c, c ∉ a :: new :: l → m.next h' c = m.next h c ∧ m.prev h' c = m.prev h c := by
  have nodup : (a :: l).Nodup := Cycle.nodup_coe_iff.mp ring.nodup
  obtain ⟨toNext, chain⟩ := List.isChain_cons.mp ((Cycle.chain_coe_cons ..).mp ring.links)
  obtain ⟨b', head⟩ := exists_head l a
  cases link.symm.trans (toNext b' head).1
  have in_ : b ∈ a :: l := (List.perm_append_singleton a l).mem_iff.mp (List.mem_of_mem_head? head)
  obtain ⟨h', e, next, prev, keeps⟩ := Member.listAdd_spec (m := m) new_live
    (ring.live (Cycle.mem_coe_iff.mpr List.mem_cons_self)) (ring.live (Cycle.mem_coe_iff.mpr in_))
  have ne_a : new ≠ a := fun e => out (e ▸ List.mem_cons_self)
  have ne_b : b ≠ new := fun e => out (e ▸ in_)
  refine ⟨h', e, ⟨(Cycle.chain_coe_cons ..).mpr ?_, ?_⟩, keeps, fun c away => ⟨?_, ?_⟩⟩
  · rw [List.cons_append, List.isChain_cons_cons]
    refine ⟨⟨by rw [next, Function.update_self], by rw [prev, Function.update_self]⟩, ?_⟩
    refine List.isChain_cons.mpr ⟨fun b' head' => ?_, Member.linked_congr chain ?_ ?_⟩
    · cases head.symm.trans head'
      refine ⟨?_, ?_⟩
      · rw [next, Function.update_of_ne ne_a, Function.update_self]
      · rw [prev, Function.update_of_ne ne_b, Function.update_self]
    · intro c mem
      have ne : c ≠ a := fun e => (List.nodup_cons.mp nodup).1 (e ▸ mem)
      have ne' : c ≠ new := fun e => out (e ▸ List.mem_cons_of_mem a mem)
      rw [next, Function.update_of_ne ne, Function.update_of_ne ne']
    · -- the successor of `a` is the only element whose `prev` is written
      intro c mem
      have turned : (l ++ [a]).Nodup := (List.perm_append_singleton a l).nodup_iff.mpr nodup
      have ne : c ≠ b := by
        rintro rfl
        rw [← List.cons_head?_tail head] at turned
        exact (List.nodup_cons.mp turned).1 mem
      have ne' : c ≠ new := by
        rintro rfl
        exact out ((List.perm_append_singleton a l).mem_iff.mp (List.mem_of_mem_tail mem))
      rw [prev, Function.update_of_ne ne', Function.update_of_ne ne]
  · rw [Cycle.nodup_coe_iff, List.nodup_cons, List.mem_cons, List.nodup_cons]
    obtain ⟨out_a, nodup_l⟩ := List.nodup_cons.mp nodup
    refine ⟨?_, fun mem => out (List.mem_cons_of_mem a mem), nodup_l⟩
    rintro (e | mem)
    · exact ne_a e.symm
    · exact out_a mem
  · obtain ⟨ne, away⟩ := List.ne_and_not_mem_of_not_mem_cons away
    obtain ⟨ne', -⟩ := List.ne_and_not_mem_of_not_mem_cons away
    rw [next, Function.update_of_ne ne, Function.update_of_ne ne']
  · have ne' : c ≠ new := fun e => away (e ▸ List.mem_cons_of_mem a List.mem_cons_self)
    have ne : c ≠ b := by
      rintro rfl
      rcases List.mem_cons.mp in_ with rfl | mem
      · exact away List.mem_cons_self
      · exact away (List.mem_cons_of_mem a (List.mem_cons_of_mem new mem))
    rw [prev, Function.update_of_ne ne', Function.update_of_ne ne]

/-- `list_del` removes an element. -/
lemma del {a : Loc} {l : List Loc} (ring : Ringed m h ↑(a :: l)) :
    ∃ h', m.listDel h a = some h' ∧ Ringed m h' ↑l ∧ m.Keeps h h' ∧
      ∀ c, c ∉ a :: l → m.next h' c = m.next h c ∧ m.prev h' c = m.prev h c := by
  obtain ⟨out, nodup⟩ := List.nodup_cons.mp (Cycle.nodup_coe_iff.mp ring.nodup)
  obtain ⟨toNext, chain⟩ := List.isChain_cons.mp ((Cycle.chain_coe_cons ..).mp ring.links)
  obtain ⟨⟨b, in_b, ab, -⟩, z, in_z, -, za⟩ :=
    ring.exists_links (Cycle.mem_coe_iff.mpr List.mem_cons_self)
  obtain ⟨h', e, next, prev, keeps⟩ := Member.listDel_spec za ab (ring.live in_z) (ring.live in_b)
  refine ⟨h', e, ⟨?_, Cycle.nodup_coe_iff.mpr nodup⟩, keeps, fun c away => ⟨?_, ?_⟩⟩
  · cases l with
    | nil => exact Cycle.Chain.nil _
    | cons b' l =>
      cases ab.symm.trans (toNext b' rfl).1
      obtain ⟨i, z', e'⟩ := (List.eq_nil_or_concat' (b :: l)).resolve_left (List.cons_ne_nil b l)
      rw [e'] at out nodup
      rw [e'] at chain
      obtain ⟨chain, -, last⟩ := List.isChain_append.mp chain
      cases za.symm.trans (last z' (by simp) a rfl).2
      have ne_b : b ≠ a := by
        rintro rfl
        exact out (e' ▸ List.mem_cons_self)
      have ne_z : z ≠ a := by
        rintro rfl
        exact out (List.mem_append_right i List.mem_cons_self)
      refine (Cycle.chain_coe_cons ..).mpr ?_
      rw [← List.cons_append, e']
      refine (Member.linked_congr chain (fun c mem => ?_) fun c mem => ?_).append
        (List.isChain_singleton b) ?_
      · have ne : c ≠ a := fun e => out (List.mem_append_left [z] (e ▸ mem))
        have ne' : c ≠ z := fun e => (List.nodup_append.mp nodup).2.2 c mem z List.mem_cons_self e
        rw [next, Function.update_of_ne ne, Function.update_of_ne ne']
      · rw [← e', List.tail_cons] at mem
        have ne : c ≠ a := by
          rintro rfl
          exact out (e' ▸ List.mem_cons_of_mem b mem)
        have ne' : c ≠ b := by
          rintro rfl
          rw [← e'] at nodup
          exact (List.nodup_cons.mp nodup).1 mem
        rw [prev, Function.update_of_ne ne, Function.update_of_ne ne']
      · -- the last element is linked with the first one
        intro z' last b' first
        obtain rfl : z = z' := by simpa using last
        obtain rfl : b = b' := by simpa using first
        refine ⟨?_, ?_⟩
        · rw [next, Function.update_of_ne ne_z, Function.update_self]
        · rw [prev, Function.update_of_ne ne_b, Function.update_self]
  · have ne : c ≠ a := fun e => away (e ▸ List.mem_cons_self)
    have ne' : c ≠ z := fun e => away (e ▸ Cycle.mem_coe_iff.mp in_z)
    rw [next, Function.update_of_ne ne, Function.update_of_ne ne']
  · have ne : c ≠ a := fun e => away (e ▸ List.mem_cons_self)
    have ne' : c ≠ b := fun e => away (e ▸ Cycle.mem_coe_iff.mp in_b)
    rw [prev, Function.update_of_ne ne, Function.update_of_ne ne']

/-- `list_for_each` visits the other elements of the ring, in their order. -/
lemma forEach {β : Type} {visit : Loc → Option (List β)} {out : Loc → List β} {a : Loc}
    {l : List Loc} (ring : Ringed m h ↑(a :: l)) (visits : ∀ b ∈ l, visit b = some (out b)) :
    m.listForEach h a visit = some (l.flatMap out) := by
  have mem : ∀ b ∈ a :: l, b ∈ (↑(a :: l) : Cycle Loc) := fun b mem => Cycle.mem_coe_iff.mpr mem
  obtain ⟨⟨b, -, toNext, -⟩, -⟩ := ring.exists_links (mem a List.mem_cons_self)
  have short : l.length ≤ h.size := by
    refine Heap.length_le_size (List.nodup_cons.mp (Cycle.nodup_coe_iff.mp ring.nodup)).2
      fun b in_ => ?_
    exact ring.live (mem b (List.mem_cons_of_mem a in_))
  rw [Member.listForEach, toNext]
  exact ring.circular.forLoop_eq toNext visits (Nat.lt_succ_of_le short)

end Ringed

end KernelModules
