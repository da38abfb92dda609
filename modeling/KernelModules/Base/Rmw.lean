import KernelModules.Base.Run
import Mathlib.Data.List.Basic
import Mathlib.Logic.Function.Basic

/-!
# Updates that are not atomic

The update `x = f(x, b)` of a shared variable is a load and a store; between the two, other writers
may load and store as well. Every writer has a number, and makes one update after the other. `done`
has the arguments of the updates that have been stored, in the order of their stores.

* `shared_iff`: the values that the variable can have after the updates `bs` are those of a sublist
  of `bs` that has the last one of them. So an update can be lost, except for the one that was
  stored last, and none counts twice.
* `shared_of_serial`: updates that do not overlap all count.
-/

namespace KernelModules.Rmw

variable {α β : Type*}

/-- A load of a writer, for the update with `b`, or its store. -/
inductive Event (β : Type*) where
  | load (w : Nat) (b : β)
  | store (w : Nat)

/-- The variable, what the writers have loaded for which update, and the updates that are stored. -/
structure State (α β : Type*) where
  shared : α
  pending : Nat → Option (α × β)
  done : List β

/-- No update has been made. -/
def State.start (z : α) : State α β := ⟨z, fun _ => none, []⟩

/-- The writer `w` has loaded the variable. -/
def State.load (s : State α β) (w : Nat) (b : β) : State α β :=
  { s with pending := Function.update s.pending w (some (s.shared, b)) }

/-- The writer `w` has stored its update. -/
def State.store (f : α → β → α) (s : State α β) (w : Nat) (x : α × β) : State α β :=
  ⟨f x.1 x.2, Function.update s.pending w none, s.done ++ [x.2]⟩

/-- One load or store. -/
def step (f : α → β → α) (s : State α β) : Event β → Option (State α β)
  | .load w b => if (s.pending w).isSome then none else some (s.load w b)
  | .store w => (s.pending w).map (s.store f w)

/-- An update begins when no other one is going on. -/
def Alone (s : State α β) : Event β → Prop
  | .load _ _ => ∀ w, s.pending w = none
  | .store _ => True

section
variable {f : α → β → α} {z : α} {s s' : State α β} {w : Nat} {es : List (Event β)}

/-- A writer that has loaded holds the value it has seen. -/
lemma State.load_self {b} : (s.load w b).pending w = some (s.shared, b) := Function.update_self ..

/-- A load leaves the other writers alone. -/
lemma State.load_other {b v} (other : v ≠ w) : (s.load w b).pending v = s.pending v :=
  Function.update_of_ne other ..

/-- A store ends its update. -/
lemma State.store_self {x} : (s.store f w x).pending w = none := Function.update_self ..

/-- A store leaves the other writers alone. -/
lemma State.store_other {x v} (other : v ≠ w) : (s.store f w x).pending v = s.pending v :=
  Function.update_of_ne other ..

/-- What is pending after the load is the load, or was pending before. -/
lemma State.load_cases {b v x} (at_ : (s.load w b).pending v = some x) :
    v = w ∧ x = (s.shared, b) ∨ s.pending v = some x := by
  by_cases same : v = w
  · subst same
    exact .inl ⟨rfl, (Option.some.inj (State.load_self.symm.trans at_)).symm⟩
  · exact .inr ((State.load_other same).symm.trans at_)

/-- An update that is pending after a store was pending before it. -/
lemma State.store_cases {v x y} (at_ : (s.store f w x).pending v = some y) :
    v ≠ w ∧ s.pending v = some y := by
  by_cases same : v = w
  · subst same
    exact absurd (at_.symm.trans State.store_self) (Option.some_ne_none y)
  · exact ⟨same, (State.store_other same).symm.trans at_⟩

/-- When a load can happen, and what it does. -/
lemma step_load {b} : step f s (.load w b) = some s' ↔ s.pending w = none ∧ s.load w b = s' := by
  simp [step]

/-- When a store can happen, and what it does. -/
lemma step_store :
    step f s (.store w) = some s' ↔ ∃ x, s.pending w = some x ∧ s.store f w x = s' := by
  simp [step]

/-! ## Lost updates -/

/-- The value comes from a sublist of the updates. -/
def From (f : α → β → α) (z : α) (bs : List β) (a : α) : Prop :=
  ∃ sub : List β, sub.Sublist bs ∧ a = sub.foldl f z

/-- The variable has a value of a sublist with the last update, and the writers have loaded values
    of sublists. -/
structure Explained (f : α → β → α) (z : α) (s : State α β) : Prop where
  shared : ∃ sub : List β, sub.Sublist s.done ∧ sub.getLast? = s.done.getLast? ∧
    s.shared = sub.foldl f z
  pending : ∀ w x, s.pending w = some x → From f z s.done x.1

/-- A step keeps the explanation: a store extends what its writer loaded, and drops what came in
    between. -/
lemma Explained.step {e} (inv : Explained f z s) (st : Rmw.step f s e = some s') :
    Explained f z s' := by
  cases e with
  | load w b =>
    obtain ⟨-, rfl⟩ := step_load.mp st
    refine ⟨inv.shared, fun v x at_ => ?_⟩
    rcases State.load_cases at_ with ⟨-, rfl⟩ | at_
    · obtain ⟨sub, le, -, e⟩ := inv.shared
      exact ⟨sub, le, e⟩
    · exact inv.pending v x at_
  | store w =>
    obtain ⟨x, at_w, rfl⟩ := step_store.mp st
    obtain ⟨sub, le, e⟩ := inv.pending w x at_w
    refine ⟨⟨sub ++ [x.2], le.append_right [x.2], ?_, ?_⟩, fun v y at_ => ?_⟩
    · exact List.getLast?_concat.trans List.getLast?_concat.symm
    · rw [List.foldl_append, ← e]
      rfl
    · obtain ⟨sub', le', e'⟩ := inv.pending v y (State.store_cases at_).2
      exact ⟨sub', le'.trans (List.sublist_append_left ..), e'⟩

/-- After every run the shared value is explained by a part of the updates. -/
lemma run_explained (go : run (Rmw.step f) (.start z) es = some s) : Explained f z s := by
  refine run_induction (P := fun _ s => Explained f z s) ?_ (fun _ inv st => inv.step st) go
  refine ⟨⟨[], List.Sublist.refl [], rfl, rfl⟩, fun w x at_ => ?_⟩
  cases at_

/-- Updates of the writer 1 that are stored one after the other. -/
def inBetween (lost : List β) : List (Event β) := lost.flatMap fun c => [.load 1 c, .store 1]

/-- Updates that start and end while another one is pending. -/
lemma run_inBetween (lost : List β) (free : s.pending 1 = none) :
    ∃ s', run (Rmw.step f) s (inBetween lost) = some s' ∧ s'.pending = s.pending ∧
      s'.done = s.done ++ lost := by
  induction lost generalizing s with
  | nil => exact ⟨s, rfl, rfl, (List.append_nil _).symm⟩
  | cons c lost ih =>
    obtain ⟨s', go, pending, done⟩ :=
      ih (s := (s.load 1 c).store f 1 (s.shared, c)) State.store_self
    refine ⟨s', ?_, pending.trans ?_, ?_⟩
    · rw [inBetween, List.flatMap_cons, run_append, run_cons, step_load.mpr ⟨free, rfl⟩,
        Option.bind_some, run_singleton, step_store.mpr ⟨_, State.load_self, rfl⟩]
      exact go
    · funext v
      by_cases same : v = 1
      · rw [same, State.store_self, free]
      · rw [State.store_other same, State.load_other same]
    · rw [done]
      exact List.append_assoc ..

/-- An update that overlaps others: they are stored between its load and its store, and lost. -/
lemma run_losing (lost : List β) (b : β) (free : ∀ w, s.pending w = none) :
    ∃ es s', run (Rmw.step f) s es = some s' ∧ (∀ w, s'.pending w = none) ∧
      s'.shared = f s.shared b ∧
      s'.done = s.done ++ lost ++ [b] := by
  obtain ⟨s1, go, pending, done⟩ :=
    run_inBetween (f := f) (s := s.load 0 b) lost
      ((State.load_other Nat.one_ne_zero).trans (free 1))
  have held : s1.pending 0 = some (s.shared, b) := by
    rw [pending, State.load_self]
  refine ⟨.load 0 b :: (inBetween lost ++ [.store 0]), s1.store f 0 (s.shared, b), ?_, fun w => ?_,
    rfl, ?_⟩
  · rw [run_cons, step_load.mpr ⟨free 0, rfl⟩, Option.bind_some, run_append, go, Option.bind_some,
      run_singleton]
    exact step_store.mpr ⟨_, held, rfl⟩
  · by_cases same : w = 0
    · rw [same, State.store_self]
    · rw [State.store_other same, pending, State.load_other same, free]
  · exact congrArg (· ++ [b]) done

/-- The updates after the last one that counts are cut off. -/
lemma cut_lost {sub bs : List β} (le : sub.Sublist bs) :
    ∃ kept lost, bs = kept ++ lost ∧ sub.Sublist kept ∧ sub.getLast? = kept.getLast? := by
  induction bs using List.reverseRecOn with
  | nil =>
    rw [List.sublist_nil.mp le]
    exact ⟨[], [], rfl, List.Sublist.refl [], rfl⟩
  | append_singleton bs c ih =>
    obtain ⟨sub, last, rfl, before, at_⟩ := List.sublist_append_iff.mp le
    rcases List.sublist_singleton.mp at_ with rfl | rfl
    · rw [List.append_nil] at ih ⊢
      obtain ⟨kept, lost, rfl, le, same⟩ := ih before
      exact ⟨kept, lost ++ [c], List.append_assoc .., le, same⟩
    · refine ⟨bs ++ [c], [], (List.append_nil _).symm, le, ?_⟩
      rw [List.getLast?_concat, List.getLast?_concat]

/-- Every sublist with the last update is the value of some interleaving. -/
lemma exists_run (z : α) {sub bs : List β} (le : sub.Sublist bs)
    (last : sub.getLast? = bs.getLast?) :
    ∃ es s, run (Rmw.step f) (.start z) es = some s ∧ (∀ w, s.pending w = none) ∧
      s.shared = sub.foldl f z ∧
      s.done = bs := by
  -- The part before the last update that counts is shorter, and ends with an update that counts.
  induction size : bs.length using Nat.strongRecOn generalizing sub bs with
  | _ n ih =>
    rcases List.eq_nil_or_concat bs with rfl | ⟨bs, b, rfl⟩
    · rw [List.sublist_nil.mp le]
      exact ⟨[], .start z, rfl, fun _ => rfl, rfl, rfl⟩
    · rw [List.concat_eq_append] at le last size ⊢
      rw [List.getLast?_concat] at last
      obtain ⟨sub, rfl⟩ := List.getLast?_eq_some_iff.mp last
      obtain ⟨kept, lost, rfl, le, same⟩ := cut_lost (List.append_sublist_append_right _ |>.mp le)
      have shorter : kept.length < n := by
        rw [← size]
        simp
      obtain ⟨es, s, go, free, shared, done⟩ := ih _ shorter le same rfl
      obtain ⟨fs, s', go', free', shared', done'⟩ := run_losing (f := f) lost b free
      refine ⟨es ++ fs, s', ?_, free', ?_, ?_⟩
      · rw [run_append, go]
        exact go'
      · rw [shared', shared, List.foldl_append]
        rfl
      · rw [done', done]

/-- The values a run can end with: those of the sublists of its updates that keep the last one. -/
theorem shared_iff {bs : List β} {a : α} :
    (∃ es s, run (Rmw.step f) (.start z) es = some s ∧ s.done = bs ∧ s.shared = a) ↔
      ∃ sub : List β, sub.Sublist bs ∧ sub.getLast? = bs.getLast? ∧ a = sub.foldl f z := by
  constructor
  · rintro ⟨es, s, go, rfl, rfl⟩
    exact (run_explained go).shared
  · rintro ⟨sub, le, last, rfl⟩
    obtain ⟨es, s, go, -, shared, done⟩ := exists_run (f := f) z le last
    exact ⟨es, s, go, done, shared⟩

/-! ## Updates that do not overlap -/

/-- Nothing is lost, and what a writer has loaded is the value of the variable. -/
structure Exact (f : α → β → α) (z : α) (s : State α β) : Prop where
  shared : s.shared = s.done.foldl f z
  pending : ∀ w x, s.pending w = some x → x.1 = s.shared ∧ ∀ v, v ≠ w → s.pending v = none

/-- A step keeps the shared value exact when no other update is pending. -/
lemma Exact.step {e} (inv : Exact f z s) (alone : Alone s e) (st : Rmw.step f s e = some s') :
    Exact f z s' := by
  cases e with
  | load w b =>
    obtain ⟨-, rfl⟩ := step_load.mp st
    refine ⟨inv.shared, fun v x at_ => ?_⟩
    rcases State.load_cases at_ with ⟨rfl, rfl⟩ | at_
    · exact ⟨rfl, fun u other => (State.load_other other).trans (alone u)⟩
    · exact absurd (at_.symm.trans (alone v)) (Option.some_ne_none x)
  | store w =>
    obtain ⟨x, at_w, rfl⟩ := step_store.mp st
    obtain ⟨loaded, others⟩ := inv.pending w x at_w
    refine ⟨?_, fun v y at_ => ?_⟩
    · show f x.1 x.2 = (s.done ++ [x.2]).foldl f z
      rw [List.foldl_append, loaded, inv.shared]
      rfl
    · obtain ⟨other, at_⟩ := State.store_cases at_
      exact absurd (at_.symm.trans (others v other)) (Option.some_ne_none y)

/-- One update after the other: none is lost. -/
lemma shared_of_serial (alone : Admits Alone (Rmw.step f) (.start z) es)
    (go : run (Rmw.step f) (.start z) es = some s) : s.shared = s.done.foldl f z := by
  have start : Exact f z (.start z : State α β) := by
    refine ⟨rfl, fun w x at_ => ?_⟩
    cases at_
  exact (Admits.invariant (fun inv ok st => Exact.step inv ok st) start alone go).shared

end

end KernelModules.Rmw
