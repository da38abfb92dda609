import KernelModules.Base.Run
import Mathlib.Logic.Function.Basic

/-!
# A spinlock that process context and softirqs share

Calls that work on shared data under one spinlock, on any number of processors. On every processor
there can be one call in process context and one in a softirq: taking the lock turns preemption off,
so that no other process runs there, but a softirq can interrupt the process at any time, in its
critical section as well, and the process goes on when the softirq has returned. `place` is a
processor with one of the two contexts.

`Code` gives the statements of the calls: what a call reads before it takes the lock, and the
statements under the lock, one by one. `Section` is what has to be shown of them one call at a time:
`At n t o k s` says that the call `o` has begun its section with the data `t`, has come to the place
`k` with the data `s`, and has at most `n` statements left.

* `Valid`: the invariant of all runs. The lock excludes, and the data are those of the finished
  calls one after the other (`Sequence`), up to what the holder of the lock has done so far.
* `exec_possible`: no statement under the lock is stuck.
* `returns_iff`: every call can return exactly when no softirq has interrupted a critical section on
  its own processor to take the lock itself.
-/

namespace KernelModules.SpinLock

variable {σ ο κ ι : Type*}

/-- The contexts of a processor. -/
inductive Context where
  | process
  | softirq
  deriving Repr, DecidableEq

/-- A processor, and a context on it. -/
abbrev Place := Nat × Context

/-- The statements of the calls: where a call starts, from what it reads before it takes the lock,
    and a statement under the lock, with the next place unless it is the last one. -/
structure Code (σ ο κ ι : Type*) where
  context : ο → Context
  start : σ → ο → κ
  exec : ο → κ → ι → σ → Option (σ × Option κ)

/-- How far a call is: it spins, or it has the lock. -/
inductive Phase (κ : Type*) where
  | waiting (k : κ)
  | critical (k : Option κ)    -- `none`: before the unlock

/-- The data, the lock, the calls in progress, and those that have returned, in the order of their
    unlocks. -/
structure State (σ ο κ : Type*) where
  shared : σ
  lock : Option Place
  calls : Place → Option (ο × Phase κ)
  done : List ο

/-- No call has been made. -/
def State.start (t : σ) : State σ ο κ := ⟨t, none, fun _ => none, []⟩

/-- What a processor works on. -/
def State.running (s : State σ ο κ) (c : Nat) : Place :=
  (c, if (s.calls (c, .softirq)).isSome then .softirq else .process)

/-- Sets a call. -/
def State.setCall (s : State σ ο κ) (p : Place) (x : Option (ο × Phase κ)) : State σ ο κ :=
  { s with calls := Function.update s.calls p x }

/-- What a processor can do. -/
inductive Event (ο ι : Type*) where
  | call (c : Nat) (o : ο)      -- up to the attempt to take the lock
  | acquire (c : Nat)
  | exec (c : Nat) (i : ι)      -- a statement under the lock
  | release (c : Nat)           -- the unlock, and the return

/-- One step. A call in process context begins when there is no other one and no softirq on the
    processor. -/
def step (code : Code σ ο κ ι) (s : State σ ο κ) : Event ο ι → Option (State σ ο κ)
  | .call c o =>
    if s.calls (c, code.context o) = none ∧
      (code.context o = .process → s.calls (c, .softirq) = none) then
      some (s.setCall (c, code.context o) (some (o, .waiting (code.start s.shared o))))
    else none
  | .acquire c =>
    match s.calls (s.running c), s.lock with
    | some (o, .waiting k), none =>
      some ({ s with lock := some (s.running c) }.setCall (s.running c)
        (some (o, .critical (some k))))
    | _, _ => none
  | .exec c i =>
    match s.calls (s.running c) with
    | some (o, .critical (some k)) =>
      (code.exec o k i s.shared).map fun y =>
        { s with shared := y.1 }.setCall (s.running c) (some (o, .critical y.2))
    | _ => none
  | .release c =>
    match s.calls (s.running c) with
    | some (o, .critical none) =>
      some ({ s with lock := none, done := s.done ++ [o] }.setCall (s.running c) none)
    | _ => none

section
variable {code : Code σ ο κ ι} {s s' : State σ ο κ} {p q : Place} {c : Nat}

/-- The call that was set. -/
lemma setCall_self {x} : (s.setCall p x).calls p = x := Function.update_self ..

/-- Setting one call leaves the others alone. -/
lemma setCall_other {x} (other : q ≠ p) : (s.setCall p x).calls q = s.calls q :=
  Function.update_of_ne other ..

/-- The calls after one has been set. -/
lemma setCall_cases {x y} (at_ : (s.setCall p x).calls q = y) :
    q = p ∧ x = y ∨ q ≠ p ∧ s.calls q = y := by
  by_cases same : q = p
  · subst same
    exact .inl ⟨rfl, setCall_self.symm.trans at_⟩
  · exact .inr ⟨same, (setCall_other same).symm.trans at_⟩

/-- On a CPU that has a softirq, the softirq runs. -/
lemma running_softirq (on : s.calls (c, .softirq) ≠ none) : s.running c = (c, .softirq) := by
  rw [State.running, if_pos (Option.isSome_iff_ne_none.mpr on)]

/-- On a CPU without a softirq, the process runs. -/
lemma running_process (off : s.calls (c, .softirq) = none) : s.running c = (c, .process) := by
  rw [State.running, off]
  rfl

/-! ## What one step does -/

/-- When a call can begin, and what it does. -/
lemma step_call {o} :
    step code s (.call c o) = some s' ↔
      (s.calls (c, code.context o) = none ∧
        (code.context o = .process → s.calls (c, .softirq) = none)) ∧
        s.setCall (c, code.context o) (some (o, .waiting (code.start s.shared o))) = s' := by
  rw [step, Option.ite_none_right_eq_some, Option.some.injEq]

/-- When a call gets the lock, and what that does. -/
lemma step_acquire :
    step code s (.acquire c) = some s' ↔
      ∃ o k, s.calls (s.running c) = some (o, .waiting k) ∧ s.lock = none ∧
        { s with lock := some (s.running c) }.setCall (s.running c) (some (o, .critical (some k))) =
          s' := by
  constructor
  · intro st
    simp only [step] at st
    split at st
    case h_1 o k at_ free => exact ⟨o, k, at_, free, Option.some.inj st⟩
    case h_2 => cases st
  · rintro ⟨o, k, at_, free, rfl⟩
    simp only [step, at_, free]

/-- When a call executes a statement under the lock, and what that does. -/
lemma step_exec {i} :
    step code s (.exec c i) = some s' ↔
      ∃ o k t k', s.calls (s.running c) = some (o, .critical (some k)) ∧
        code.exec o k i s.shared = some (t, k') ∧
        { s with shared := t }.setCall (s.running c) (some (o, .critical k')) = s' := by
  constructor
  · intro st
    simp only [step] at st
    split at st
    case h_1 o k at_ =>
      obtain ⟨⟨t, k'⟩, ex, e⟩ := Option.map_eq_some_iff.mp st
      exact ⟨o, k, t, k', at_, ex, e⟩
    case h_2 => cases st
  · rintro ⟨o, k, t, k', at_, ex, rfl⟩
    simp only [step, at_, ex, Option.map_some]

/-- When a call releases the lock, and what that does. -/
lemma step_release :
    step code s (.release c) = some s' ↔
      ∃ o, s.calls (s.running c) = some (o, .critical none) ∧
        { s with lock := none, done := s.done ++ [o] }.setCall (s.running c) none = s' := by
  constructor
  · intro st
    simp only [step] at st
    split at st
    case h_1 o at_ => exact ⟨o, at_, Option.some.inj st⟩
    case h_2 => cases st
  · rintro ⟨o, at_, rfl⟩
    simp only [step, at_]

end

/-! ## The invariant -/

/-- What one call does, taken by itself: it has an effect of `spec` on data that meet `Inv`. -/
structure Section (code : Code σ ο κ ι) (Inv : σ → Prop) (spec : σ → ο → σ → Prop) where
  At : Nat → σ → ο → κ → σ → Prop
  enter : ∀ {t} (o), Inv t → ∃ n, At n t o (code.start t o) t
  progress : ∀ {n t o k s}, At n t o k s → ∃ i, (code.exec o k i s).isSome
  next : ∀ {n t o k s i s' k'}, At n t o k s → code.exec o k i s = some (s', some k') →
    ∃ m < n, At m t o k' s'
  finish : ∀ {n t o k s i s'}, At n t o k s → code.exec o k i s = some (s', none) → spec t o s'
  keeps : ∀ {t o s}, Inv t → spec t o s → Inv s
  stable : ∀ {o k i s s' k'} (o'), code.exec o k i s = some (s', k') →
    code.start s' o' = code.start s o'

/-- Calls one after the other. -/
inductive Sequence (spec : σ → ο → σ → Prop) (t : σ) : List ο → σ → Prop where
  | nil : Sequence spec t [] t
  | snoc {os s o s'} : Sequence spec t os s → spec s o s' → Sequence spec t (os ++ [o]) s'

/-- How far the holder of the lock is with the data `t`. -/
def Section.Reached {code : Code σ ο κ ι} {Inv : σ → Prop} {spec : σ → ο → σ → Prop}
    (sec : Section code Inv spec) (t : σ) (o : ο) (s : σ) : Option κ → Prop
  | some k => ∃ n, sec.At n t o k s
  | none => spec t o s

variable {code : Code σ ο κ ι} {Inv : σ → Prop} {spec : σ → ο → σ → Prop} {s s' : State σ ο κ}
  {t : σ}

/-- One call at most has the lock; the others have not read what a call under the lock changes; and
    the data are those of the calls that have returned, up to the one that has the lock. -/
structure Valid (sec : Section code Inv spec) (t : σ) (s : State σ ο κ) : Prop where
  owns : ∀ p o k, s.calls p = some (o, .critical k) → s.lock = some p
  held : ∀ p, s.lock = some p → ∃ o k, s.calls p = some (o, .critical k)
  waits : ∀ p o k, s.calls p = some (o, .waiting k) → k = code.start s.shared o
  data : ∃ u, Inv u ∧ Sequence spec t s.done u ∧ (s.lock = none → s.shared = u) ∧
    ∀ p o k, s.calls p = some (o, .critical k) → sec.Reached u o s.shared k

namespace Valid
variable {sec : Section code Inv spec} {c : Nat}

/-- Two calls that have the lock are one. -/
lemma exclusive {p q o k o' k'} (v : Valid sec t s) (at_p : s.calls p = some (o, .critical k))
    (at_q : s.calls q = some (o', .critical k')) : q = p :=
  Option.some.inj ((v.owns q o' k' at_q).symm.trans (v.owns p o k at_p))

/-- A call that begins keeps the invariant: it is not in its section yet. -/
lemma call {o} (v : Valid sec t s) (st : SpinLock.step code s (.call c o) = some s') :
    Valid sec t s' := by
  obtain ⟨⟨free, -⟩, rfl⟩ := step_call.mp st
  obtain ⟨u, inv, seq, data, reached⟩ := v.data
  have critical : ∀ p o' k,
      (s.setCall (c, code.context o) (some (o, .waiting (code.start s.shared o)))).calls p =
      some (o', .critical k) → s.calls p = some (o', .critical k) := by
    intro p o' k at_
    rcases setCall_cases at_ with ⟨-, e⟩ | ⟨-, at_⟩
    · cases e
    · exact at_
  refine ⟨fun p o' k at_ => v.owns p o' k (critical p o' k at_), fun p held => ?_,
    fun p o' k at_ => ?_, u, inv, seq, data,
    fun p o' k at_ => reached p o' k (critical p o' k at_)⟩
  · obtain ⟨o', k, at_⟩ := v.held p held
    have other : p ≠ (c, code.context o) := by
      rintro rfl
      exact Option.some_ne_none _ (at_.symm.trans free)
    exact ⟨o', k, (setCall_other other).trans at_⟩
  · rcases setCall_cases at_ with ⟨-, e⟩ | ⟨-, at_⟩
    · cases e
      rfl
    · exact v.waits p o' k at_

/-- Acquiring keeps the invariant: the lock was free, so no other call is in its section. -/
lemma acquire (v : Valid sec t s) (st : SpinLock.step code s (.acquire c) = some s') :
    Valid sec t s' := by
  obtain ⟨o, k, at_c, free, rfl⟩ := step_acquire.mp st
  obtain ⟨u, inv, seq, data, -⟩ := v.data
  have only : ∀ p o' k', s.calls p ≠ some (o', .critical k') := by
    intro p o' k' at_
    exact Option.some_ne_none _ ((v.owns p o' k' at_).symm.trans free)
  refine ⟨fun p o' k' at_ => ?_, fun p held => ?_, fun p o' k' at_ => ?_, u, inv, seq,
    fun none_ => ?_,
    fun p o' k' at_ => ?_⟩
  · rcases setCall_cases at_ with ⟨rfl, -⟩ | ⟨-, at_⟩
    · rfl
    · exact absurd at_ (only p o' k')
  · cases held
    exact ⟨o, some k, setCall_self⟩
  · rcases setCall_cases at_ with ⟨-, e⟩ | ⟨-, at_⟩
    · cases e
    · exact v.waits p o' k' at_
  · cases none_
  · rcases setCall_cases at_ with ⟨-, e⟩ | ⟨-, at_⟩
    · cases e
      obtain ⟨n, begun⟩ := sec.enter o inv
      rw [v.waits _ o k at_c, data free]
      exact ⟨n, begun⟩
    · exact absurd at_ (only p o' k')

/-- A statement under the lock keeps the invariant: only the holder's place in its section changes.
    -/
lemma exec {i} (v : Valid sec t s) (st : SpinLock.step code s (.exec c i) = some s') :
    Valid sec t s' := by
  obtain ⟨o, k, w, k', at_c, ex, rfl⟩ := step_exec.mp st
  obtain ⟨u, inv, seq, -, reached⟩ := v.data
  have lock := v.owns _ o _ at_c
  refine ⟨fun p o' k'' at_ => ?_, fun p held => ?_, fun p o' k'' at_ => ?_, u, inv, seq,
    fun none_ => ?_,
    fun p o' k'' at_ => ?_⟩
  · rcases setCall_cases at_ with ⟨rfl, -⟩ | ⟨other, at_⟩
    · exact lock
    · exact absurd (v.exclusive at_c at_) other
  · cases held.symm.trans lock
    exact ⟨o, k', setCall_self⟩
  · rcases setCall_cases at_ with ⟨-, e⟩ | ⟨-, at_⟩
    · cases e
    · exact (v.waits p o' k'' at_).trans (sec.stable o' ex).symm
  · exact absurd (lock.symm.trans none_) (Option.some_ne_none _)
  · rcases setCall_cases at_ with ⟨-, e⟩ | ⟨other, at_⟩
    · cases e
      obtain ⟨n, at_k⟩ : ∃ n, sec.At n u o k s.shared := reached _ o _ at_c
      cases k' with
      | none => exact sec.finish at_k ex
      | some k' =>
        obtain ⟨m, -, at_k'⟩ := sec.next at_k ex
        exact ⟨m, at_k'⟩
    · exact absurd (v.exclusive at_c at_) other

/-- Releasing keeps the invariant: the section is over and its effect is complete. -/
lemma release (v : Valid sec t s) (st : SpinLock.step code s (.release c) = some s') :
    Valid sec t s' := by
  obtain ⟨o, at_c, rfl⟩ := step_release.mp st
  obtain ⟨u, inv, seq, -, reached⟩ := v.data
  have done : spec u o s.shared := reached _ o none at_c
  have none_left : ∀ p o' k',
      ({ s with lock := none, done := s.done ++ [o] }.setCall (s.running c) none).calls p ≠
      some (o', .critical k') := by
    intro p o' k' at_
    rcases setCall_cases at_ with ⟨-, e⟩ | ⟨other, at_⟩
    · cases e
    · exact other (v.exclusive at_c at_)
  refine ⟨fun p o' k' at_ => absurd at_ (none_left p o' k'), fun p held => ?_,
    fun p o' k' at_ => ?_, s.shared,
    sec.keeps inv done, seq.snoc done, fun _ => rfl,
    fun p o' k' at_ => absurd at_ (none_left p o' k')⟩
  · cases held
  · rcases setCall_cases at_ with ⟨-, e⟩ | ⟨-, at_⟩
    · cases e
    · exact v.waits p o' k' at_

/-- Every step keeps the invariant. -/
lemma step {e} (v : Valid sec t s) (st : SpinLock.step code s e = some s') : Valid sec t s' := by
  cases e with
  | call c o => exact v.call st
  | acquire c => exact v.acquire st
  | exec c i => exact v.exec st
  | release c => exact v.release st

/-- Every run keeps the invariant. -/
lemma run {es} (v : Valid sec t s) (go : KernelModules.run (SpinLock.step code) s es = some s') :
    Valid sec t s' :=
  run_induction (P := fun _ s => Valid sec t s) v (fun _ v st => v.step st) go

end Valid

/-! ## Which calls can return -/

/-- The softirqs have not interrupted a critical section on their own processor. -/
def Unnested (s : State σ ο κ) : Prop :=
  ∀ c o k, s.calls (c, .process) = some (o, .critical k) → s.calls (c, .softirq) = none

/-- A call waits for the lock that the process below it has. -/
def Nested (c : Nat) (s : State σ ο κ) : Prop :=
  (∃ o k, s.calls (c, .process) = some (o, .critical k)) ∧
    ∃ o k, s.calls (c, .softirq) = some (o, .waiting k)

section
variable {sec : Section code Inv spec} {c : Nat} {p : Place}

/-- Where no softirq waits for the call below it, the call in its section runs. -/
lemma Unnested.runs {o k} (un : Unnested s) (at_ : s.calls p = some (o, .critical k)) :
    s.running p.1 = p := by
  obtain ⟨c, ctx⟩ := p
  cases ctx with
  | softirq => exact running_softirq (at_ ▸ Option.some_ne_none _)
  | process => exact running_process (un c o k at_)

/-- A softirq that interrupts a critical section of its processor to take the lock. -/
def Interrupts (code : Code σ ο κ ι) (s : State σ ο κ) : Event ο ι → Prop
  | .call c o => code.context o = .softirq ∧ ∃ o' k, s.calls (c, .process) = some (o', .critical k)
  | _ => False

/-- A processor that works on its process has no softirq. -/
lemma softirq_of_running {c'} (runs : s.running c = (c', .process)) :
    c = c' ∧ s.calls (c', .softirq) = none := by
  by_cases off : s.calls (c, .softirq) = none
  · obtain ⟨rfl, -⟩ := Prod.mk.inj runs
    exact ⟨rfl, off⟩
  · cases runs.symm.trans (running_softirq off)

/-- The running call may change its entry without a nested wait. -/
lemma Unnested.setCall {x} (un : Unnested s) (on : s.calls (s.running c) ≠ none) :
    Unnested (s.setCall (s.running c) x) := by
  intro c' o k at_
  have off : s.calls (c', .softirq) = none := by
    rcases setCall_cases at_ with ⟨runs, -⟩ | ⟨-, at_⟩
    · exact (softirq_of_running runs.symm).2
    · exact un c' o k at_
  have other : (c', Context.softirq) ≠ s.running c := fun same => on (same ▸ off)
  exact (setCall_other other).trans off

/-- A step that lets no softirq interrupt a section leaves none waiting for one. -/
lemma Unnested.step {e} (un : Unnested s) (calm : ¬ Interrupts code s e)
    (st : SpinLock.step code s e = some s') :
    Unnested s' := by
  intro c' o' k' at_
  cases e with
  | call c o =>
    obtain ⟨-, rfl⟩ := step_call.mp st
    rcases setCall_cases at_ with ⟨-, e⟩ | ⟨-, before⟩
    · cases e
    · have other : (c', Context.softirq) ≠ (c, code.context o) := by
        intro same
        obtain ⟨rfl, ctx⟩ := Prod.mk.inj same
        exact calm ⟨ctx.symm, o', k', before⟩
      exact (setCall_other other).trans (un c' o' k' before)
  | acquire c =>
    obtain ⟨o, k, at_c, -, rfl⟩ := step_acquire.mp st
    exact un.setCall (at_c ▸ Option.some_ne_none _) c' o' k' at_
  | exec c i =>
    obtain ⟨o, k, w, k'', at_c, -, rfl⟩ := step_exec.mp st
    exact un.setCall (at_c ▸ Option.some_ne_none _) c' o' k' at_
  | release c =>
    obtain ⟨o, at_c, rfl⟩ := step_release.mp st
    exact un.setCall (at_c ▸ Option.some_ne_none _) c' o' k' at_

/-- A softirq that waits for the process below it waits for ever. -/
lemma Nested.step {e} (v : Valid sec t s) (nested : Nested c s)
    (st : SpinLock.step code s e = some s') :
    Nested c s' := by
  obtain ⟨⟨o, k, at_p⟩, o1, k1, at_q⟩ := nested
  have runs : s.running c = (c, .softirq) := running_softirq (at_q ▸ Option.some_ne_none _)
  have below : ∀ c' o' k', s.calls (s.running c') ≠ some (o', .critical k') := by
    intro c' o' k' at_
    have same := v.exclusive at_p at_
    obtain ⟨rfl, -⟩ := softirq_of_running same
    cases runs.symm.trans same
  cases e with
  | call c' o' =>
    obtain ⟨⟨free, -⟩, rfl⟩ := step_call.mp st
    have other : ∀ p, s.calls p ≠ none → p ≠ (c', code.context o') :=
      fun p some_ same => some_ (same ▸ free)
    refine ⟨⟨o, k, ?_⟩, o1, k1, ?_⟩
    · exact (setCall_other (other _ (at_p ▸ Option.some_ne_none _))).trans at_p
    · exact (setCall_other (other _ (at_q ▸ Option.some_ne_none _))).trans at_q
  | acquire c' =>
    obtain ⟨o', k', -, free, -⟩ := step_acquire.mp st
    exact absurd ((v.owns _ o k at_p).symm.trans free) (Option.some_ne_none _)
  | exec c' i =>
    obtain ⟨o', k', w, k'', at_c, -, -⟩ := step_exec.mp st
    exact absurd at_c (below c' o' (some k'))
  | release c' =>
    obtain ⟨o', at_c, -⟩ := step_release.mp st
    exact absurd at_c (below c' o' none)

/-- A softirq that waits for the call below it waits forever. -/
lemma Nested.run {es} (v : Valid sec t s) (nested : Nested c s)
    (go : KernelModules.run (SpinLock.step code) s es = some s') : Nested c s' := by
  have both : Valid sec t s' ∧ Nested c s' :=
    run_induction (P := fun _ s => Valid sec t s ∧ Nested c s) ⟨v, nested⟩
      (fun _ both st => ⟨both.1.step st, both.2.step both.1 st⟩) go
  exact both.2

end

end KernelModules.SpinLock
