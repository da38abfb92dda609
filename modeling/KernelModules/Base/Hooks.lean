import Mathlib.Data.List.Sort

/-!
# Chains of handlers

Handlers that are registered in a list and consulted one after the other. Each looks at a state, may
change it and gives a verdict. A handler that accepts leaves the decision to the next one, and the
first verdict that is not `accept` is the verdict of the chain.

* `consult`: the chain as a function of the state.
* `called stops hs`: the handlers of `hs` that are consulted when those that satisfy `stops` do not
  accept: all of them up to the first such one. `mem_called` says which these are.
* `orderedInsert_eq_append`: a handler that goes in front of no other one is registered last.
-/

namespace KernelModules

variable {η σ ω : Type*}

/-- Consults handlers in turn until one of them does not accept. -/
def consult [DecidableEq ω] (accept : ω) (call : η → σ → Option (σ × ω)) :
    List η → σ → Option (σ × ω)
  | [], s => some (s, accept)
  | h :: hs, s => do
    let (s', v) ← call h s
    if v = accept then consult accept call hs s' else some (s', v)

/-- The handlers that are consulted, when those that satisfy `stops` do not accept. -/
def called (stops : η → Bool) : List η → List η
  | [] => []
  | h :: hs => h :: if stops h then [] else called stops hs

section
variable [DecidableEq ω] {accept : ω} {call : η → σ → Option (σ × ω)} {stops : η → Bool}

/-- Behind a hook that accepts, the others are called. -/
lemma consult_accept {h hs s s'} (here : call h s = some (s', accept)) :
    consult accept call (h :: hs) s = consult accept call hs s' := by
  simp only [consult, here, Option.bind_eq_bind, Option.bind_some, if_true]

/-- Any other verdict ends the walk. -/
lemma consult_stop {h hs s s' v} (here : call h s = some (s', v)) (ne : v ≠ accept) :
    consult accept call (h :: hs) s = some (s', v) := by
  simp only [consult, here, Option.bind_eq_bind, Option.bind_some, if_neg ne]

/-- A hook that stops the walk is the last one called. -/
lemma called_cons_of_pos {h hs} (stop : stops h = true) : called stops (h :: hs) = [h] := by
  rw [called, if_pos stop]

/-- A hook that does not stop it is called, and so are those behind it. -/
lemma called_cons_of_neg {h hs} (go : stops h = false) :
    called stops (h :: hs) = h :: called stops hs := by
  rw [called, go, if_neg Bool.false_ne_true]

/-- Hooks that do not stop the walk are all called. -/
lemma called_append {hs ks} (go : ∀ h ∈ hs, stops h = false) :
    called stops (hs ++ ks) = hs ++ called stops ks := by
  induction hs with
  | nil => rfl
  | cons h hs ih =>
    obtain ⟨here, rest⟩ := List.forall_mem_cons.mp go
    rw [List.cons_append, called_cons_of_neg here, ih rest, List.cons_append]

/-- A handler is consulted when none in front of it stops. -/
lemma mem_called [DecidableEq η] {h hs} :
    h ∈ called stops hs ↔ h ∈ hs ∧ ∀ k ∈ hs.takeWhile (· ≠ h), stops k = false := by
  induction hs with
  | nil => simp [called]
  | cons k hs ih =>
    by_cases same : k = h
    · subst same
      simp [called]
    · have other : h ≠ k := Ne.symm same
      rw [List.takeWhile_cons_of_pos (by simpa using same), List.forall_mem_cons, called,
        List.mem_cons, List.mem_cons]
      cases stop : stops k with
      | true => simp [other]
      | false => simp [other, ih]

end

/-- What sorts behind everything is inserted at the end. -/
lemma orderedInsert_eq_append {r : η → η → Prop} [DecidableRel r] {x : η} {hs : List η}
    (last : ∀ h ∈ hs, ¬ r x h) : hs.orderedInsert r x = hs ++ [x] := by
  induction hs with
  | nil => rfl
  | cons h hs ih =>
    obtain ⟨here, rest⟩ := List.forall_mem_cons.mp last
    rw [List.orderedInsert_of_not_le r hs here, ih rest, List.cons_append]

end KernelModules
