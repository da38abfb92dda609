import Mathlib.Tactic.Common
import Mathlib.Data.List.Perm.Subperm

/-!
# Finite heaps and chains of cells

A `Heap ν` holds finitely many objects of type `ν`, each at its own address. `alloc` takes a proof
that the address is free, so that no two live objects ever share one. `get` of an address that holds
no object is `none`: what a program does through a null, freed or never allocated pointer has no
value here.

`Chain next h p cs` says that following `next` from the pointer `p` meets exactly the cells `cs`, in
this order, and then the null pointer.

* `Chain.unique`, `Chain.nodup`: a chain is determined by its first pointer and visits no cell
  twice, so it is acyclic and not longer than the heap (`Chain.length_le`).
* `Chain.rewrite`: rewriting cells, their links kept, rewrites the chain in place; so a chain only
  depends on the cells it visits (`Chain.frame`).
* `Chain.next_eq`, `Chain.next_eq_none`: each cell leads to the next one, and only the last one to
  null.
* `Chain.mem_of_reaches`, `Chain.reaches_free`: a chain leads to its cells, and still does when one
  of them has been freed.
* `Chain.link`: linking a new cell behind the last one appends it.
-/

namespace KernelModules

/-- The address of an object. -/
abbrev Loc := Nat

/-- A finite heap: the live objects, no two of them at one address. -/
structure Heap (ν : Type*) where
  objs : List (Loc × ν)
  nodup : (objs.map Prod.fst).Nodup

namespace Heap
variable {ν : Type*}

/-- The heap without any object. -/
def empty : Heap ν := ⟨[], List.nodup_nil⟩

/-- The object at an address. -/
def get (h : Heap ν) (l : Loc) : Option ν := h.objs.lookup l

/-- The number of live objects. -/
def size (h : Heap ν) : Nat := h.objs.length

/-- A load fails exactly at the addresses of no object. -/
lemma get_eq_none {h : Heap ν} {l} : h.get l = none ↔ l ∉ h.objs.map Prod.fst := by
  simp only [get, List.lookup_eq_none_iff, List.mem_map, not_exists, not_and, bne_iff_ne]
  constructor
  · intro ne o mem e
    exact ne o mem e.symm
  · intro ne o mem e
    exact ne o mem e.symm

/-- What a load returns is the object at that address. -/
lemma mem_of_get {h : Heap ν} {l v} (e : h.get l = some v) : (l, v) ∈ h.objs := by
  obtain ⟨xs, ys, e', -⟩ := List.lookup_eq_some_iff.mp e
  rw [e']
  exact List.mem_append_right _ List.mem_cons_self

/-- Different addresses of live objects are not more than there are live objects. -/
lemma length_le_size {h : Heap ν} {ls : List Loc} (nodup : ls.Nodup)
    (live : ∀ l ∈ ls, h.get l ≠ none) :
    ls.length ≤ h.size := by
  have sub : ls ⊆ h.objs.map Prod.fst := by
    intro l mem
    by_contra out
    exact live l mem (get_eq_none.mpr out)
  have le := (nodup.subperm sub).length_le
  rwa [List.length_map] at le

/-- Places a new object at a free address. -/
def alloc (h : Heap ν) (l : Loc) (v : ν) (free : h.get l = none) : Heap ν :=
  ⟨(l, v) :: h.objs, List.nodup_cons.mpr ⟨get_eq_none.mp free, h.nodup⟩⟩

/-- Replaces one object of a list of addressed objects. -/
def replace (l : Loc) (v : ν) (o : Loc × ν) : Loc × ν := if o.1 = l then (l, v) else o

/-- Replacing a value keeps the address it stands at. -/
@[simp] lemma replace_fst {l : Loc} {v : ν} {o} : (replace l v o).1 = o.1 := by
  unfold replace
  split
  case isTrue e => exact e.symm
  case isFalse => rfl

/-- Overwrites the object at an address; without an object there nothing changes. -/
def set (h : Heap ν) (l : Loc) (v : ν) : Heap ν :=
  ⟨h.objs.map (replace l v), by
    rw [List.map_map, show Prod.fst ∘ replace l v = Prod.fst from funext fun _ => replace_fst]
    exact h.nodup⟩

/-- Removes the object at an address. -/
def free (h : Heap ν) (l : Loc) : Heap ν :=
  ⟨h.objs.filter (·.1 ≠ l), h.nodup.sublist (List.filter_sublist.map Prod.fst)⟩

/-- Nothing is allocated at first. -/
@[simp] lemma get_empty {l} : (empty : Heap ν).get l = none := rfl

/-- A new object has the contents it is allocated with. -/
@[simp] lemma get_alloc_self {h : Heap ν} {l v f} : (h.alloc l v f).get l = some v := by
  simp [get, alloc]

/-- Allocation changes no other address. -/
lemma get_alloc_of_ne {h : Heap ν} {l l' v f} (ne : l' ≠ l) :
    (h.alloc l v f).get l' = h.get l' := by
  have e : (l' == l) = false := beq_false_of_ne ne
  simp [get, alloc, List.lookup_cons, e]

/-- Lookup after one value is replaced. -/
lemma lookup_replace {l l' : Loc} {v : ν} {os : List (Loc × ν)} :
    (os.map (replace l v)).lookup l' =
      if l' = l then (os.lookup l).map fun _ => v else os.lookup l' := by
  induction os with
  | nil => simp
  | cons o os ih =>
    obtain ⟨k, w⟩ := o
    by_cases e : k = l
    · subst e
      simp only [List.map_cons, replace, if_true, List.lookup_cons, beq_self_eq_true,
        Option.map_some]
      rw [ih]
      by_cases e' : l' = k
      · simp [e']
      · simp [e', beq_false_of_ne e']
    · have ne : (l == k) = false := beq_false_of_ne (Ne.symm e)
      simp only [List.map_cons, replace, if_neg e, List.lookup_cons, ne]
      rw [ih]
      by_cases e' : l' = l
      · simp [e', ne]
      · simp [e']

/-- A store to a live object is read back. -/
lemma get_set_self {h : Heap ν} {l v w} (e : h.get l = some w) : (h.set l v).get l = some v := by
  unfold get at e
  simp [get, set, lookup_replace, e]

/-- A store changes no other address. -/
lemma get_set_of_ne {h : Heap ν} {l l' v} (ne : l' ≠ l) : (h.set l v).get l' = h.get l' := by
  simp [get, set, lookup_replace, ne]

/-- A store neither allocates nor frees. -/
lemma get_set_eq_none {h : Heap ν} {l l' v} : (h.set l v).get l' = none ↔ h.get l' = none := by
  by_cases e : l' = l
  · subst e
    simp [get, set, lookup_replace]
  · rw [get_set_of_ne e]

/-- A freed address is not live. -/
lemma get_free_self {h : Heap ν} {l} : (h.free l).get l = none := by
  rw [get_eq_none]
  simp [free]

/-- Freeing changes no other address. -/
lemma get_free_of_ne {h : Heap ν} {l l'} (ne : l' ≠ l) : (h.free l).get l' = h.get l' := by
  show (h.objs.filter (·.1 ≠ l)).lookup l' = h.objs.lookup l'
  induction h.objs with
  | nil => rfl
  | cons o os ih =>
    obtain ⟨k, w⟩ := o
    by_cases e : k = l
    · subst e
      simpa [List.lookup_cons, beq_false_of_ne ne] using ih
    · rw [List.filter_cons_of_pos (by simpa using e), List.lookup_cons, List.lookup_cons, ih]

end Heap

/-- Following `next` from a pointer meets exactly these cells, then the null pointer. -/
inductive Chain {ν : Type*} (next : ν → Option Loc) (h : Heap ν) :
    Option Loc → List (Loc × ν) → Prop where
  | nil :
    Chain next h none []
  | cons {l v cs} :
    h.get l = some v →
    Chain next h (next v) cs →
    Chain next h (some l) ((l, v) :: cs)

/-- A pointer leads to an address, through live cells. -/
inductive Reaches {ν : Type*} (next : ν → Option Loc) (h : Heap ν) : Option Loc → Loc → Prop where
  | here {l} :
    Reaches next h (some l) l
  | there {k v l} :
    h.get k = some v →
    Reaches next h (next v) l →
    Reaches next h (some k) l

namespace Chain
variable {ν : Type*} {next : ν → Option Loc} {h h' : Heap ν}

/-- A pointer starts at most one chain. -/
lemma unique {p cs ds} (c : Chain next h p cs) (d : Chain next h p ds) : cs = ds := by
  induction c generalizing ds with
  | nil => cases d; rfl
  | cons get _ ih =>
    cases d with
    | cons get' d =>
      cases get.symm.trans get'
      rw [ih d]

/-- The pointer a chain starts from is the address of its first node, or null. -/
lemma head {p cs} (c : Chain next h p cs) : p = cs.head?.map Prod.fst := by
  cases c with
  | nil => rfl
  | cons => rfl

/-- Behind its first node, a chain goes on from that node's link. -/
lemma tail {p d cs} (c : Chain next h p (d :: cs)) : Chain next h (next d.2) cs := by
  cases c with
  | cons _ c => exact c

/-- The nodes of a chain are objects of the heap. -/
lemma get {p cs l v} (c : Chain next h p cs) (mem : (l, v) ∈ cs) : h.get l = some v := by
  induction c with
  | nil => cases mem
  | cons g _ ih =>
    cases mem with
    | head => exact g
    | tail _ mem => exact ih mem

/-- A cell of a chain leads to the next one. -/
lemma next_eq {p xs l v ys} (c : Chain next h p (xs ++ (l, v) :: ys)) :
    next v = ys.head?.map Prod.fst := by
  induction xs generalizing p with
  | nil =>
    cases c with
    | cons _ c => exact c.head
  | cons x xs ih =>
    cases c with
    | cons _ c => exact ih c

/-- The last cell of a chain is the only one that leads to null. -/
lemma next_eq_none {p xs t d} (c : Chain next h p (xs ++ [t])) (mem : d ∈ xs ++ [t]) :
    next d.2 = none ↔ d = t := by
  constructor
  · intro null
    obtain ⟨ys, zs, e⟩ := List.append_of_mem mem
    rw [e] at c
    have none_ := c.next_eq.symm.trans null
    cases zs with
    | nil => exact (List.singleton_inj.mp (List.append_inj_right' e rfl)).symm
    | cons z zs => cases none_
  · rintro rfl
    exact c.next_eq

/-- From each of its nodes on, a chain is a chain that is no longer. -/
lemma from_mem {p cs l} (c : Chain next h p cs) (mem : l ∈ cs.map Prod.fst) :
    ∃ ds, Chain next h (some l) ds ∧ ds.length ≤ cs.length := by
  induction c with
  | nil => cases mem
  | @cons k v cs g c ih =>
    cases mem with
    | head => exact ⟨_, .cons g c, Nat.le_refl _⟩
    | tail _ mem =>
      obtain ⟨ds, d, le⟩ := ih mem
      exact ⟨ds, d, Nat.le_succ_of_le le⟩

/-- A chain visits no node twice: from a node met again it would never reach the null link. -/
lemma nodup {p cs} (c : Chain next h p cs) : (cs.map Prod.fst).Nodup := by
  induction c with
  | nil => exact List.nodup_nil
  | @cons l v cs g c ih =>
    refine List.nodup_cons.mpr ⟨fun mem => ?_, ih⟩
    -- meeting `l` again would give a chain from `l` shorter than the one at hand
    obtain ⟨ds, d, le⟩ := c.from_mem mem
    have e := d.unique (.cons g c)
    subst e
    exact absurd le (Nat.not_succ_le_self _)

/-- A chain has at most as many nodes as the heap has objects, so fuel of that size is enough. -/
lemma length_le {p cs} (c : Chain next h p cs) : cs.length ≤ h.size := by
  rw [← List.length_map (f := Prod.fst)]
  refine Heap.length_le_size c.nodup fun l mem => ?_
  obtain ⟨⟨_, v⟩, mem', rfl⟩ := List.mem_map.mp mem
  rw [c.get mem']
  exact Option.some_ne_none v

/-- Following links from the start of a chain leads to its nodes only. -/
lemma mem_of_reaches {p cs l} (c : Chain next h p cs) (re : Reaches next h p l) :
    l ∈ cs.map Prod.fst := by
  induction re generalizing cs with
  | here =>
    cases c with
    | cons => exact List.mem_cons_self
  | there g _ ih =>
    cases c with
    | cons g' c =>
      cases g.symm.trans g'
      exact List.mem_cons_of_mem _ (ih c)

/-- A node freed in place is still reached: nothing was unlinked. -/
lemma reaches_free {p cs l} (c : Chain next h p cs) (mem : l ∈ cs.map Prod.fst) :
    Reaches next (h.free l) p l := by
  induction c with
  | nil => cases mem
  | @cons k v cs g _ ih =>
    by_cases e : k = l
    · subst e
      exact .here
    · refine .there ?_ (ih (List.mem_of_ne_of_mem (Ne.symm e) mem))
      rw [Heap.get_free_of_ne e]
      exact g

/-- Rewriting the cells of a chain, their links kept, rewrites the chain in place. -/
lemma rewrite {p cs} {g : Loc × ν → ν} (c : Chain next h p cs)
    (vals : ∀ d ∈ cs, h'.get d.1 = some (g d)) (links : ∀ d ∈ cs, next (g d) = next d.2) :
    Chain next h' p (cs.map fun d => (d.1, g d)) := by
  induction c with
  | nil => exact .nil
  | cons _ _ ih =>
    refine .cons (vals _ List.mem_cons_self) ?_
    rw [links _ List.mem_cons_self]
    apply ih
    · exact fun d mem => vals d (List.mem_cons_of_mem _ mem)
    · exact fun d mem => links d (List.mem_cons_of_mem _ mem)

/-- A chain depends on the objects of its own nodes only. -/
lemma frame {p cs} (c : Chain next h p cs)
    (same : ∀ l ∈ cs.map Prod.fst, h'.get l = h.get l) : Chain next h' p cs := by
  have vals : ∀ d ∈ cs, h'.get d.1 = some d.2 := by
    intro d mem
    rw [same d.1 (List.mem_map_of_mem mem)]
    exact c.get mem
  have c' := c.rewrite vals fun _ _ => rfl
  rwa [show (fun d : Loc × ν => (d.1, d.2)) = id from rfl, List.map_id] at c'

/-- Linking a new last node behind the old one extends the chain by it. -/
lemma link {p cs t v v' l w} (c : Chain next h p (cs ++ [(t, v)]))
    (same : ∀ k ∈ cs.map Prod.fst, h'.get k = h.get k)
    (last : h'.get t = some v') (next_last : next v' = some l)
    (new : h'.get l = some w) (next_new : next w = none) :
    Chain next h' p (cs ++ [(t, v'), (l, w)]) := by
  induction cs generalizing p with
  | nil =>
    cases c with
    | cons g c =>
      refine .cons last ?_
      rw [next_last]
      refine .cons new ?_
      rw [next_new]
      exact .nil
  | cons c' cs ih =>
    cases c with
    | cons g c =>
      refine .cons ?_ ?_
      · rw [same _ List.mem_cons_self]
        exact g
      · exact ih c fun k mem => same k (List.mem_cons_of_mem _ mem)

/-- The cells before the last one are others than the last one and than a free address. -/
lemma separate {p cs t v l} (c : Chain next h p (cs ++ [(t, v)])) (free : h.get l = none) :
    t ≠ l ∧ ∀ k ∈ cs.map Prod.fst, k ≠ l ∧ k ≠ t := by
  have live : ∀ d ∈ cs ++ [(t, v)], d.1 ≠ l := by
    rintro d mem rfl
    rw [c.get mem] at free
    cases free
  have nd := c.nodup
  rw [List.map_append, List.map_singleton] at nd
  refine ⟨live (t, v) (List.mem_append_right _ List.mem_cons_self), fun k mem => ⟨?_, ?_⟩⟩
  · obtain ⟨d, mem', rfl⟩ := List.mem_map.mp mem
    exact live d (List.mem_append_left _ mem')
  · rintro rfl
    exact (List.nodup_append.mp nd).2.2 _ mem _ (List.mem_singleton.mpr rfl) rfl

/-- What the last cell of a chain is linked to is reached, whatever is there. -/
lemma reaches_link {p cs t v v' l} (c : Chain next h p (cs ++ [(t, v)]))
    (same : ∀ k ∈ cs.map Prod.fst, h'.get k = h.get k) (last : h'.get t = some v')
    (next_last : next v' = some l) : Reaches next h' p l := by
  induction cs generalizing p with
  | nil =>
    cases c with
    | cons g c =>
      refine .there last ?_
      rw [next_last]
      exact .here
  | cons c' cs ih =>
    cases c with
    | cons g c =>
      refine .there ((same _ List.mem_cons_self).trans g) ?_
      exact ih c fun k mem => same k (List.mem_cons_of_mem _ mem)

/-- Every node of a chain is reached from its start. -/
lemma reaches {p cs l} (c : Chain next h p cs) (mem : l ∈ cs.map Prod.fst) :
    Reaches next h p l := by
  induction c with
  | nil => cases mem
  | @cons k v cs g _ ih =>
    cases mem with
    | head => exact .here
    | tail _ mem => exact .there g (ih mem)

end Chain

end KernelModules
