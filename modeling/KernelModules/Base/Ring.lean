import Mathlib.Data.List.Cycle

/-!
# Circular lists

A circular list without an end marker is given by its links: `next a = some b` says that the element
`a` leads to `b`. `Circular next c` says that the links lead around the cycle `c`, which meets no
element twice. It does not say where the cycle begins: any of its elements can be taken as the first
one (`exists_cons`).

* `Circular.link`: the links rotate the list of elements. So `k` links behind the first element is
  the element with the index `k`, modulo the number of elements (`head?_rotate_mod`).
* `forLoop`, `doLoop`: the two loops that go around a circular list until they are back at an
  element, `for (a = first; a != stop; a = next a)` and `do ... while (a != stop)`. Nothing but the
  links makes them end: their first argument bounds the number of iterations, and
  `Circular.forLoop_eq` and `Circular.doLoop_eq` say that as many iterations as there are elements
  are enough, and what is visited.
-/

namespace KernelModules

universe u

variable {α β : Type u}

/-- The links lead around the cycle. -/
structure Circular (next : α → Option α) (c : Cycle α) : Prop where
  links : c.Chain fun a b => next a = some b
  nodup : c.Nodup

/-- The loop `for (; a != stop; a = next a) visit(a)` with what the visits give. -/
def forLoop [DecidableEq α] (next : α → Option α) (stop : α) (visit : α → Option (List β)) :
    Nat → α → Option (List β)
  | 0, _ => none
  | fuel + 1, a =>
    if a = stop then some [] else do
      let out ← visit a
      let b ← next a
      let rest ← forLoop next stop visit fuel b
      some (out ++ rest)

/-- The loop `do { visit(a); a = next a; } while (a != stop)` with what the visits give. -/
def doLoop [DecidableEq α] (next : α → Option α) (stop : α) (visit : α → Option (List β)) :
    Nat → α → Option (List β)
  | 0, _ => none
  | fuel + 1, a => do
    let out ← visit a
    let b ← next a
    if b = stop then some out else do
      let rest ← doLoop next stop visit fuel b
      some (out ++ rest)

/-- Any element of a cycle can be its first one. -/
lemma exists_cons {c : Cycle α} {a} (mem : a ∈ c) : ∃ l : List α, (↑(a :: l) : Cycle α) = c := by
  obtain ⟨cs, rfl⟩ := Quot.exists_rep c
  obtain ⟨pre, post, rfl⟩ := List.append_of_mem (Cycle.mem_coe_iff.mp mem)
  exact ⟨post ++ pre, Cycle.coe_eq_coe.mpr (List.isRotated_append (l := a :: post))⟩

/-- The head of a turned list, which repeats after one turn. -/
lemma head?_rotate_mod {cs : List α} (ne : cs ≠ []) (k : Nat) :
    (cs.rotate k).head? = cs[k % cs.length]? := by
  have lt : k % cs.length < cs.length := Nat.mod_lt k (List.length_pos_iff.mpr ne)
  rw [← List.rotate_mod, List.head?_rotate lt]

/-- A turned list that is not empty has one of its elements as head. -/
lemma exists_head_rotate {cs : List α} (ne : cs ≠ []) (k : Nat) :
    ∃ a ∈ cs, (cs.rotate k).head? = some a := by
  have lt : k % cs.length < cs.length := Nat.mod_lt k (List.length_pos_iff.mpr ne)
  refine ⟨cs[k % cs.length], List.getElem_mem lt, ?_⟩
  rw [head?_rotate_mod ne, List.getElem?_eq_getElem lt]

/-- A list with a last element has a head. -/
lemma exists_head (l : List α) (a : α) : ∃ b, (l ++ [a]).head? = some b := by
  cases l with
  | nil => exact ⟨a, rfl⟩
  | cons b l => exact ⟨b, rfl⟩

namespace Circular
variable {next : α → Option α}

/-- Every element of a ring has a successor. -/
lemma exists_next {c : Cycle α} (ring : Circular next c) {a} (mem : a ∈ c) :
    ∃ b, next a = some b := by
  obtain ⟨l, rfl⟩ := exists_cons mem
  obtain ⟨toNext, -⟩ := List.isChain_cons.mp ((Cycle.chain_coe_cons ..).mp ring.links)
  obtain ⟨b, head⟩ := exists_head l a
  exact ⟨b, toNext b head⟩

/-- One link rotates the list by one. -/
lemma link {cs : List α} (ring : Circular next ↑cs) (k : Nat) :
    (cs.rotate k).head?.bind next = (cs.rotate (k + 1)).head? := by
  have turned : (↑(cs.rotate k) : Cycle α) = ↑cs :=
    Cycle.coe_eq_coe.mpr (List.IsRotated.forall cs k)
  rw [← List.rotate_rotate]
  have links := ring.links
  rw [← turned] at links
  cases e : cs.rotate k with
  | nil => rfl
  | cons a l =>
    rw [e, Cycle.chain_coe_cons] at links
    rw [List.rotate_cons_succ, List.rotate_zero]
    cases l with
    | nil => exact (List.isChain_cons_cons.mp links).1
    | cons b l => exact (List.isChain_cons_cons.mp links).1

section
variable [DecidableEq α] {visit : α → Option (List β)} {out : α → List β} {stop : α}

/-- The loop `for` along links that lead through `l` to `stop`. -/
lemma forLoop_chain {l : List α} {a fuel}
    (links : (l ++ [stop]).IsChain fun a b => next a = some b) (first : a ∈ (l ++ [stop]).head?)
    (away : stop ∉ l) (visits : ∀ b ∈ l, visit b = some (out b)) (enough : l.length < fuel) :
    forLoop next stop visit fuel a = some (l.flatMap out) := by
  induction l generalizing a fuel with
  | nil =>
    cases first
    obtain ⟨fuel, rfl⟩ := Nat.exists_eq_succ_of_ne_zero (Nat.ne_zero_of_lt enough)
    exact if_pos rfl
  | cons b l ih =>
    cases first
    obtain ⟨fuel, rfl⟩ := Nat.exists_eq_succ_of_ne_zero (Nat.ne_zero_of_lt enough)
    obtain ⟨ne, away'⟩ := List.ne_and_not_mem_of_not_mem_cons away
    obtain ⟨here, rest⟩ := List.forall_mem_cons.mp visits
    obtain ⟨toNext, links'⟩ := List.isChain_cons.mp links
    obtain ⟨c, first'⟩ := exists_head l stop
    have loop := ih links' first' away' rest (Nat.lt_of_succ_lt_succ enough)
    rw [forLoop, if_neg ne.symm, here, toNext c first']
    simp only [Option.bind_eq_bind, Option.bind_some, loop]
    rfl

/-- The loop `do` along links that lead through `l` to `stop`. -/
lemma doLoop_chain {l : List α} {a fuel}
    (links : (a :: (l ++ [stop])).IsChain fun a b => next a = some b) (away : stop ∉ l)
    (visits : ∀ b ∈ a :: l, visit b = some (out b)) (enough : l.length < fuel) :
    doLoop next stop visit fuel a = some ((a :: l).flatMap out) := by
  induction l generalizing a fuel with
  | nil =>
    obtain ⟨fuel, rfl⟩ := Nat.exists_eq_succ_of_ne_zero (Nat.ne_zero_of_lt enough)
    have back : next a = some stop := (List.isChain_cons_cons.mp links).1
    rw [doLoop, visits a List.mem_cons_self, back]
    simp
  | cons b l ih =>
    obtain ⟨fuel, rfl⟩ := Nat.exists_eq_succ_of_ne_zero (Nat.ne_zero_of_lt enough)
    obtain ⟨ne, away'⟩ := List.ne_and_not_mem_of_not_mem_cons away
    obtain ⟨here, rest⟩ := List.forall_mem_cons.mp visits
    obtain ⟨toNext, links'⟩ := List.isChain_cons_cons.mp links
    have loop := ih links' away' rest (Nat.lt_of_succ_lt_succ enough)
    rw [doLoop, here, toNext]
    simp only [Option.bind_eq_bind, Option.bind_some, if_neg ne.symm, loop]
    rfl

/-- The loop `for` from the link of `stop` on visits all other elements, in order. -/
lemma forLoop_eq {l : List α} {a fuel} (ring : Circular next ↑(stop :: l))
    (first : next stop = some a)
    (visits : ∀ b ∈ l, visit b = some (out b)) (enough : l.length < fuel) :
    forLoop next stop visit fuel a = some (l.flatMap out) := by
  have away := (List.nodup_cons.mp (Cycle.nodup_coe_iff.mp ring.nodup)).1
  obtain ⟨toNext, links⟩ := List.isChain_cons.mp ((Cycle.chain_coe_cons ..).mp ring.links)
  obtain ⟨b, head⟩ := exists_head l stop
  cases first.symm.trans (toNext b head)
  exact forLoop_chain links head away visits enough

/-- The loop `do` from `stop` on visits all elements, `stop` first and the others in order. -/
lemma doLoop_eq {l : List α} {fuel} (ring : Circular next ↑(stop :: l))
    (visits : ∀ b ∈ stop :: l, visit b = some (out b)) (enough : l.length < fuel) :
    doLoop next stop visit fuel stop = some ((stop :: l).flatMap out) := by
  have away := (List.nodup_cons.mp (Cycle.nodup_coe_iff.mp ring.nodup)).1
  exact doLoop_chain ((Cycle.chain_coe_cons ..).mp ring.links) away visits enough

end

end Circular

end KernelModules
