import KernelModules.Base.Run
import Mathlib.Logic.Function.Basic

/-!
# Calls that pass their argument through global variables

A function that is called concurrently keeps its argument in global variables: its first statement
stores a pointer to the argument in `arg`, its second one computes `view` from `arg`, and the
statements behind them look at the argument through the two globals. So a call looks at the argument
of another one when that one has stored in between, and at an argument that is gone when the other
one has returned.

`Code` gives the statements behind the first two. `stepWith look` is one statement of one call, with
`look` telling what the globals lead to: `step` takes the globals as they are, and `ownStep` is the
same function with local variables. Every call has a number of its own.

* `stepWith_enter`, `stepWith_view`, `stepWith_body`: what one statement does.
* `run_eq_own`: as long as no two calls overlap, the globals are as good as local variables.
* `returned_of_own`: with local variables, what holds of every call by itself holds in every run.
-/

namespace KernelModules.Calls

variable {ρ κ θ σ ι : Type*}

/-- How far a call is. -/
inductive Pc (κ θ : Type*) where
  | start                -- before `view` is computed
  | body (k : κ)
  | returned (t : θ)

/-- The statements behind the first two: from the shared state, the place, and what `view` and `arg`
    lead to, to the shared state and the next place or the value returned. -/
structure Code (ρ κ θ σ ι : Type*) where
  first : κ
  exec : σ → κ → Option ρ → Option ρ → ι → Option (σ × (κ ⊕ θ))

/-- The globals, the calls with their arguments, and the rest of the state. -/
structure State (ρ κ θ σ : Type*) where
  arg : Option Nat
  view : Option Nat
  calls : Nat → Option (ρ × Pc κ θ)
  shared : σ

/-- No call has been made. -/
def State.start (shared : σ) : State ρ κ θ σ := ⟨none, none, fun _ => none, shared⟩

/-- A statement of the call `w`. -/
inductive Event (ρ ι : Type*) where
  | enter (w : Nat) (a : ρ)
  | view (w : Nat)
  | body (w : Nat) (x : ι)

/-- What the argument of a call is, as long as it has not returned. -/
def Pc.live (a : ρ) : Pc κ θ → Option ρ
  | start => some a
  | body _ => some a
  | returned _ => none

/-- What a global leads to. -/
def State.deref (s : State ρ κ θ σ) (p : Option Nat) : Option ρ :=
  p.bind fun w => (s.calls w).bind fun c => c.2.live c.1

/-- Sets the place of a call. -/
def State.setCall (s : State ρ κ θ σ) (w : Nat) (a : ρ) (pc : Pc κ θ) : State ρ κ θ σ :=
  { s with calls := Function.update s.calls w (some (a, pc)) }

/-- One statement, when `look` says what a call with the argument `a` finds behind `view` and
    `arg`. -/
def stepWith (look : State ρ κ θ σ → ρ → Option ρ × Option ρ) (code : Code ρ κ θ σ ι)
    (s : State ρ κ θ σ) : Event ρ ι → Option (State ρ κ θ σ)
  | .enter w a =>
    if (s.calls w).isSome then none else some ({ s with arg := some w }.setCall w a .start)
  | .view w =>
    match s.calls w with
    | some (a, .start) =>
      if (look s a).2.isSome then some ({ s with view := s.arg }.setCall w a (.body code.first))
      else none
    | _ => none
  | .body w x =>
    match s.calls w with
    | some (a, .body k) =>
      (code.exec s.shared k (look s a).1 (look s a).2 x).map fun y =>
        { s with shared := y.1 }.setCall w a (y.2.elim .body .returned)
    | _ => none

/-- One statement. -/
def step (code : Code ρ κ θ σ ι) : State ρ κ θ σ → Event ρ ι → Option (State ρ κ θ σ) :=
  stepWith (fun s _ => (s.deref s.view, s.deref s.arg)) code

/-- One statement of the function with local variables in place of the globals. -/
def ownStep (code : Code ρ κ θ σ ι) : State ρ κ θ σ → Event ρ ι → Option (State ρ κ θ σ) :=
  stepWith (fun _ a => (some a, some a)) code

/-- A call begins when every other one has returned. -/
def Alone (s : State ρ κ θ σ) : Event ρ ι → Prop
  | .enter _ _ => ∀ v a pc, s.calls v = some (a, pc) → pc.live a = none
  | .view _ => True
  | .body _ _ => True

section
variable {look : State ρ κ θ σ → ρ → Option ρ × Option ρ} {code : Code ρ κ θ σ ι}
  {s s' : State ρ κ θ σ}
  {w v : Nat}

/-- The place that was set. -/
@[simp] lemma setCall_self {a pc} : (s.setCall w a pc).calls w = some (a, pc) :=
  Function.update_self ..

/-- Setting the place of one call leaves the others alone. -/
lemma setCall_of_ne {a pc} (ne : v ≠ w) : (s.setCall w a pc).calls v = s.calls v :=
  Function.update_of_ne ne ..

/-- The calls after a call has been set. -/
lemma calls_setCall {a pc c} (at_ : (s.setCall w a pc).calls v = some c) :
    v = w ∧ c = (a, pc) ∨ v ≠ w ∧ s.calls v = some c := by
  by_cases same : v = w
  · subst same
    exact .inl ⟨rfl, Option.some.inj (at_.symm.trans setCall_self)⟩
  · exact .inr ⟨same, (setCall_of_ne same).symm.trans at_⟩

/-! ## What one statement does -/

/-- A call that begins is new, and its argument is behind `arg`. -/
lemma stepWith_enter {a} (st : stepWith look code s (.enter w a) = some s') :
    s.calls w = none ∧ s' = { s with arg := some w }.setCall w a .start := by
  obtain ⟨new, e⟩ := Option.ite_none_left_eq_some.mp st
  exact ⟨Option.not_isSome_iff_eq_none.mp new, (Option.some.inj e).symm⟩

/-- The first statement copies `arg` to `view`. -/
lemma stepWith_view (st : stepWith look code s (.view w) = some s') :
    ∃ a, s.calls w = some (a, .start) ∧
      s' = { s with view := s.arg }.setCall w a (.body code.first) := by
  rw [stepWith] at st
  split at st
  case h_1 a at_ =>
    obtain ⟨-, e⟩ := Option.ite_none_right_eq_some.mp st
    exact ⟨a, at_, (Option.some.inj e).symm⟩
  case h_2 => cases st

/-- A statement of the body runs the code on what `look` finds. -/
lemma stepWith_body {x} (st : stepWith look code s (.body w x) = some s') :
    ∃ a k y, s.calls w = some (a, .body k) ∧
      code.exec s.shared k (look s a).1 (look s a).2 x = some y ∧
      s' = { s with shared := y.1 }.setCall w a (y.2.elim .body .returned) := by
  rw [stepWith] at st
  split at st
  case h_1 a k at_ =>
    obtain ⟨y, ex, e⟩ := Option.map_eq_some_iff.mp st
    exact ⟨a, k, y, at_, ex, e.symm⟩
  case h_2 => cases st

/-- A statement of the body that goes through. -/
lemma step_body_eq {a k x y} (at_ : s.calls w = some (a, .body k))
    (ex : code.exec s.shared k (s.deref s.view) (s.deref s.arg) x = some y) :
    step code s (.body w x) =
      some ({ s with shared := y.1 }.setCall w a (y.2.elim .body .returned)) := by
  simp only [step, stepWith, at_, ex, Option.map_some]

/-- The globals belong to the call in progress. -/
structure Owns (s : State ρ κ θ σ) : Prop where
  arg : ∀ w a pc, s.calls w = some (a, pc) → pc.live a ≠ none → s.arg = some w
  view : ∀ w a k, s.calls w = some (a, .body k) → s.view = some w

/-- Before any call the globals belong to nobody. -/
lemma owns_start {shared : σ} : Owns (.start shared : State ρ κ θ σ) :=
  ⟨fun _ _ _ at_ => (Option.some_ne_none _ at_.symm).elim,
    fun _ _ _ at_ => (Option.some_ne_none _ at_.symm).elim⟩

/-- A call in progress finds its own argument behind `arg`. -/
lemma Owns.deref_arg (inv : Owns s) {a pc} (at_ : s.calls w = some (a, pc))
    (live : pc.live a = some a) :
    s.deref s.arg = some a := by
  rw [inv.arg w a pc at_ (live ▸ Option.some_ne_none a), State.deref, Option.bind_some, at_]
  exact live

/-- When the globals belong to the call in progress, they act like local variables. -/
lemma Owns.step_eq (inv : Owns s) (e : Event ρ ι) : step code s e = ownStep code s e := by
  cases e with
  | enter w a => rfl
  | view w =>
    rw [step, ownStep, stepWith, stepWith]
    cases at_ : s.calls w with
    | none => rfl
    | some c =>
      obtain ⟨a, pc⟩ := c
      cases pc with
      | start => rw [inv.deref_arg at_ rfl]
      | body k => rfl
      | returned t => rfl
  | body w x =>
    rw [step, ownStep, stepWith, stepWith]
    cases at_ : s.calls w with
    | none => rfl
    | some c =>
      obtain ⟨a, pc⟩ := c
      cases pc with
      | start => rfl
      | body k =>
        have view : s.deref s.view = some a := by
          rw [inv.view w a k at_, State.deref, Option.bind_some, at_]
          rfl
        rw [inv.deref_arg at_ rfl, view]
      | returned t => rfl

/-- A statement keeps the globals with the call in progress, if calls do not overlap. -/
lemma Owns.step {e : Event ρ ι} (inv : Owns s) (alone : Alone s e)
    (st : Calls.step code s e = some s') : Owns s' := by
  cases e with
  | enter w a =>
    obtain ⟨-, rfl⟩ := stepWith_enter st
    refine ⟨fun v b pc at_ live => ?_, fun v b k at_ => ?_⟩
    · rcases calls_setCall at_ with ⟨rfl, -⟩ | ⟨-, old⟩
      · rfl
      · exact absurd (alone v b pc old) live
    · rcases calls_setCall at_ with ⟨-, e⟩ | ⟨-, old⟩
      · cases e
      · exact absurd (alone v b (.body k) old) (Option.some_ne_none b)
  | view w =>
    obtain ⟨a, at_w, rfl⟩ := stepWith_view st
    have mine : s.arg = some w := inv.arg w a .start at_w (Option.some_ne_none a)
    refine ⟨fun v b pc at_ live => ?_, fun v b k at_ => ?_⟩
    · rcases calls_setCall at_ with ⟨rfl, -⟩ | ⟨-, old⟩
      · exact mine
      · exact inv.arg v b pc old live
    · rcases calls_setCall at_ with ⟨rfl, -⟩ | ⟨ne, old⟩
      · exact mine
      · have other := inv.arg v b (.body k) old (Option.some_ne_none b)
        exact absurd (Option.some.inj (other.symm.trans mine)) ne
  | body w x =>
    obtain ⟨a, k, y, at_w, -, rfl⟩ := stepWith_body st
    refine ⟨fun v b pc at_ live => ?_, fun v b j at_ => ?_⟩
    · rcases calls_setCall at_ with ⟨rfl, -⟩ | ⟨-, old⟩
      · exact inv.arg v a (.body k) at_w (Option.some_ne_none a)
      · exact inv.arg v b pc old live
    · rcases calls_setCall at_ with ⟨rfl, -⟩ | ⟨-, old⟩
      · exact inv.view v a k at_w
      · exact inv.view v b j old

/-- Calls that do not overlap find their own arguments. -/
theorem run_eq_own {es : List (Event ρ ι)} (inv : Owns s) (alone : Admits Alone (step code) s es) :
    run (step code) s es = run (ownStep code) s es := by
  induction es generalizing s with
  | nil => rfl
  | cons e es ih =>
    rw [run_cons, run_cons, ← inv.step_eq]
    cases st : step code s e with
    | none => rfl
    | some s1 => exact ih (inv.step alone.1 st) (alone.2 s1 st)

/-! ## Local variables -/

/-- What holds of the places and of the value returned of a call, whatever the others do. -/
theorem returned_of_own (code : Code ρ κ θ σ ι) {shared : σ} {es : List (Event ρ ι)}
    {Q : ρ → κ → Prop} {R : ρ → θ → Prop} (first : ∀ a, Q a code.first)
    (next : ∀ {t a k x y}, Q a k → code.exec t k (some a) (some a) x = some y →
      y.2.elim (Q a) (R a))
    (go : run (ownStep code) (.start shared) es = some s) :
    (∀ w a k, s.calls w = some (a, .body k) → Q a k) ∧
      ∀ w a t, s.calls w = some (a, .returned t) → R a t := by
  refine run_invariant (P := fun s : State ρ κ θ σ =>
    (∀ w a k, s.calls w = some (a, .body k) → Q a k) ∧
    ∀ w a t, s.calls w = some (a, .returned t) → R a t)
    (q := fun _ => True) ?_ ?_ (fun _ _ => trivial) go
  · rintro s e s' ⟨places, results⟩ - st
    cases e with
    | enter w a =>
      obtain ⟨-, rfl⟩ := stepWith_enter st
      refine ⟨fun v b k at_ => ?_, fun v b t at_ => ?_⟩
      · rcases calls_setCall at_ with ⟨-, e⟩ | ⟨-, old⟩
        · cases e
        · exact places v b k old
      · rcases calls_setCall at_ with ⟨-, e⟩ | ⟨-, old⟩
        · cases e
        · exact results v b t old
    | view w =>
      obtain ⟨a, -, rfl⟩ := stepWith_view st
      refine ⟨fun v b k at_ => ?_, fun v b t at_ => ?_⟩
      · rcases calls_setCall at_ with ⟨-, e⟩ | ⟨-, old⟩
        · cases e
          exact first a
        · exact places v b k old
      · rcases calls_setCall at_ with ⟨-, e⟩ | ⟨-, old⟩
        · cases e
        · exact results v b t old
    | body w x =>
      obtain ⟨a, k, ⟨t', out⟩, at_w, ex, rfl⟩ := stepWith_body st
      have here := next (places w a k at_w) ex
      refine ⟨fun v b j at_ => ?_, fun v b t at_ => ?_⟩
      · rcases calls_setCall at_ with ⟨-, e⟩ | ⟨-, old⟩
        · cases out with
          | inl k' =>
            cases e
            exact here
          | inr t => cases e
        · exact places v b j old
      · rcases calls_setCall at_ with ⟨-, e⟩ | ⟨-, old⟩
        · cases out with
          | inl k' => cases e
          | inr t =>
            cases e
            exact here
        · exact results v b t old
  · exact ⟨fun _ _ _ at_ => (Option.some_ne_none _ at_.symm).elim,
    fun _ _ _ at_ => (Option.some_ne_none _ at_.symm).elim⟩

end

end KernelModules.Calls
