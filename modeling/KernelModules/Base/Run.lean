import Mathlib.Tactic.Common
import Mathlib.Data.List.Induction

/-!
# Runs of a partial step function

A system is given by its step function `step : σ → ε → Option σ`: `step s e` is the state after the
event `e`, and `none` says that `e` cannot happen in `s`, or that it ends the run (an invalid memory
access). `run step s es` takes the events `es` one after the other.

* `run_append`, `run_snoc`: a run splits at any point.
* `run_induction`: the induction rule for what holds along every run. The invariant may speak of the
  events taken so far, so that a state can be compared with its history.
* `all_or_first`: a run that leaves a condition does so at a first event. `forall_split_congr`
  compares two conditions event by event.
* `run_isSome_iff`: when the history tells which events are possible, it tells which runs go
  through.
* `Admits ok step s es`: the events `es` meet the side condition `ok`, each in the state it is taken
  in (what the environment promises, such as the freshness of an allocated object).
* `Admits.invariant`: an invariant along an admitted run. `admits_or_first`: a run that is not
  admitted has a first event that is not.
* `run_total`: when an invariant lets every admitted event take place, an admitted run goes through.
  `Admits.run_keeps` is the rule for an invariant that does not speak of the history.
* `ghosted`: a run with a ghost beside the state that records what the steps do. `run_ghosted`: the
  ghost does not disturb the run.
* `trace`: a run in which every step has an output. `trace_simulates` lifts the simulation of one
  step to whole runs: an admitted run goes through, and the other system gives the same outputs.
-/

namespace KernelModules

variable {σ ε : Type*}

/-- Runs a partial step function over a list of events. -/
def run (step : σ → ε → Option σ) : σ → List ε → Option σ
  | s, [] => some s
  | s, e :: es => (step s e).bind fun s' => run step s' es

/-- The events meet `ok`, each in the state it is taken in. -/
def Admits (ok : σ → ε → Prop) (step : σ → ε → Option σ) : σ → List ε → Prop
  | _, [] => True
  | s, e :: es => ok s e ∧ ∀ s', step s e = some s' → Admits ok step s' es

section
variable {step : σ → ε → Option σ} {ok : σ → ε → Prop}

/-- Where the first event is refused, only that event has to be admissible. -/
lemma admits_cons_none {s e es} (st : step s e = none) : Admits ok step s (e :: es) ↔ ok s e := by
  simp [Admits, st]

/-- The first event is admissible, and so are the others in the state it leads to. -/
lemma admits_cons_some {s e es s'} (st : step s e = some s') :
    Admits ok step s (e :: es) ↔ ok s e ∧ Admits ok step s' es := by
  simp [Admits, st]

/-- On a given run the side conditions can be checked. -/
instance decidableAdmits [∀ s e, Decidable (ok s e)] : ∀ s es, Decidable (Admits ok step s es)
  | _, [] => .isTrue trivial
  | s, e :: es =>
    match st : step s e with
    | none => decidable_of_iff (ok s e) (admits_cons_none st).symm
    | some s' =>
      have := decidableAdmits s' es
      decidable_of_iff (ok s e ∧ Admits ok step s' es) (admits_cons_some st).symm

/-- No event changes nothing. -/
@[simp] lemma run_nil {s} : run step s [] = some s := rfl

/-- A run takes its first event and goes on from there. -/
@[simp] lemma run_cons {s e es} :
    run step s (e :: es) = (step s e).bind fun s' => run step s' es := rfl

/-- A run of one event is a step. -/
@[simp] lemma run_singleton {s e} : run step s [e] = step s e := by
  rw [run_cons]
  exact Option.bind_fun_some (step s e)

/-- Renaming the events commutes with running them. -/
lemma run_map {δ : Type*} {f : δ → ε} {s ds} :
    run step s (ds.map f) = run (fun s d => step s (f d)) s ds := by
  induction ds generalizing s with
  | nil => rfl
  | cons d ds ih =>
    rw [List.map_cons, run_cons, run_cons]
    exact congrArg _ (funext fun s' => ih)

/-- A run of two parts is the second part from where the first one ends. -/
lemma run_append {s es fs} :
    run step s (es ++ fs) = (run step s es).bind fun s' => run step s' fs := by
  induction es generalizing s with
  | nil => rfl
  | cons e es ih =>
    rw [List.cons_append, run_cons, run_cons]
    cases step s e with
    | none => rfl
    | some s' => exact ih

/-- A run ends with the step of its last event. -/
lemma run_snoc {s es e s'} :
    run step s (es ++ [e]) = some s' ↔ ∃ s1, run step s es = some s1 ∧ step s1 e = some s' := by
  rw [run_append]
  cases run step s es with
  | none => simp
  | some s1 => simp

/-- A run that goes through passes a state between its two parts. -/
lemma run_split {s es fs s'} (r : run step s (es ++ fs) = some s') :
    ∃ s1, run step s es = some s1 ∧ run step s1 fs = some s' := by
  rw [run_append] at r
  exact Option.bind_eq_some_iff.mp r

/-- Induction along a run: the invariant holds at the start and every step taken keeps it. -/
lemma run_induction {s0} {P : List ε → σ → Prop} (base : P [] s0)
    (next : ∀ {es s e s'}, run step s0 es = some s → P es s → step s e = some s' →
      P (es ++ [e]) s') {es s} (r : run step s0 es = some s) : P es s := by
  induction es using List.reverseRecOn generalizing s with
  | nil =>
    cases r
    exact base
  | append_singleton es e ih =>
    obtain ⟨s1, r1, st⟩ := run_snoc.mp r
    exact next r1 (ih r1) st

/-- Invariant rule: what each step with an event of `q` keeps holds after every run of such events.
    -/
lemma run_invariant {P : σ → Prop} {q : ε → Prop}
    (next : ∀ {s e s'}, P s → q e → step s e = some s' → P s') {s0 es s} (base : P s0)
    (qs : ∀ e ∈ es, q e) (r : run step s0 es = some s) : P s := by
  induction es generalizing s0 with
  | nil =>
    cases r
    exact base
  | cons e es ih =>
    obtain ⟨s1, st, r1⟩ := Option.bind_eq_some_iff.mp r
    have q1 := qs e List.mem_cons_self
    exact ih (next base q1 st) (fun e' mem => qs e' (List.mem_cons_of_mem e mem)) r1

/-- Invariant rule for runs whose events are admissible where they happen. -/
lemma Admits.invariant {P : σ → Prop}
    (next : ∀ {s e s'}, P s → ok s e → step s e = some s' → P s') {s0 es s} (base : P s0)
    (ad : Admits ok step s0 es) (r : run step s0 es = some s) : P s := by
  induction es generalizing s0 with
  | nil =>
    cases r
    exact base
  | cons e es ih =>
    obtain ⟨s1, st, r1⟩ := Option.bind_eq_some_iff.mp r
    exact ih (next base ad.1 st) (ad.2 s1 st) r1

/-- The first part of an admissible run is admissible. -/
lemma Admits.of_append {s es fs} (ad : Admits ok step s (es ++ fs)) : Admits ok step s es := by
  induction es generalizing s with
  | nil => trivial
  | cons e es ih => exact ⟨ad.1, fun s' st => ih (ad.2 s' st)⟩

/-- The second part of an admissible run is admissible from where the first one ends. -/
lemma Admits.rest {s es fs s1} (ad : Admits ok step s (es ++ fs)) (r : run step s es = some s1) :
    Admits ok step s1 fs := by
  induction es generalizing s with
  | nil =>
    cases r
    exact ad
  | cons e es ih =>
    obtain ⟨s2, st, r2⟩ := Option.bind_eq_some_iff.mp r
    exact ih (ad.2 s2 st) r2

/-- A condition on the events alone can be added to what is admitted. -/
lemma Admits.and_mem {q : ε → Prop} {s es} (ad : Admits ok step s es) (all : ∀ e ∈ es, q e) :
    Admits (fun s e => ok s e ∧ q e) step s es := by
  induction es generalizing s with
  | nil => trivial
  | cons e es ih =>
    obtain ⟨here, rest⟩ := List.forall_mem_cons.mp all
    exact ⟨⟨ad.1, here⟩, fun s' st => ih (ad.2 s' st) rest⟩

/-- An admissible run may be extended by an event that is admissible at its end. -/
lemma Admits.concat {s es s1 e} (ad : Admits ok step s es) (r : run step s es = some s1)
    (here : ok s1 e) :
    Admits ok step s (es ++ [e]) := by
  induction es generalizing s with
  | nil =>
    cases r
    exact ⟨here, fun _ _ => trivial⟩
  | cons d es ih =>
    refine ⟨ad.1, fun s' st => ih (ad.2 s' st) ?_⟩
    rw [run_cons, st] at r
    exact r

/-- A run that goes through and is not admitted has a first event that is not. -/
lemma admits_or_first (ok : σ → ε → Prop) {s es s'} (r : run step s es = some s') :
    Admits ok step s es ∨ ∃ pre e post s1 s2, es = pre ++ e :: post ∧ Admits ok step s pre ∧
      run step s pre = some s1 ∧ ¬ ok s1 e ∧ step s1 e = some s2 := by
  induction es generalizing s with
  | nil => exact .inl trivial
  | cons e es ih =>
    obtain ⟨s1, st, r1⟩ := Option.bind_eq_some_iff.mp r
    have only : ∀ s2, step s e = some s2 → s2 = s1 := by
      intro s2 st2
      exact Option.some.inj (st2.symm.trans st)
    by_cases here : ok s e
    · rcases ih r1 with ad | ⟨pre, d, post, s2, s3, rfl, ad, r2, bad, st3⟩
      · refine .inl ⟨here, fun s2 st2 => ?_⟩
        rw [only s2 st2]
        exact ad
      · refine .inr ⟨e :: pre, d, post, s2, s3, rfl, ⟨here, fun s4 st4 => ?_⟩, ?_, bad, st3⟩
        · rw [only s4 st4]
          exact ad
        · rw [run_cons, st]
          exact r2
    · exact .inr ⟨[], e, es, s, s1, rfl, trivial, rfl, here, st⟩

/-- Either all events have the property, or there is a first one that does not. -/
lemma all_or_first {q : ε → Prop} (es : List ε) :
    (∀ e ∈ es, q e) ∨ ∃ pre e post, es = pre ++ e :: post ∧ (∀ d ∈ pre, q d) ∧ ¬ q e := by
  induction es with
  | nil => exact .inl nofun
  | cons d es ih =>
    by_cases qd : q d
    · rcases ih with all | ⟨pre, e, post, rfl, qs, nq⟩
      · exact .inl (List.forall_mem_cons.mpr ⟨qd, all⟩)
      · exact .inr ⟨d :: pre, e, post, rfl, List.forall_mem_cons.mpr ⟨qd, qs⟩, nq⟩
    · exact .inr ⟨[], d, es, rfl, nofun, qd⟩

/-- Two conditions on an event and those in front of it agree along a list when they agree at each
    of its events. -/
lemma forall_split_congr {es : List ε} {P Q : List ε → ε → Prop}
    (same : ∀ pre e post, es = pre ++ e :: post → (P pre e ↔ Q pre e)) :
    (∀ pre e post, es = pre ++ e :: post → P pre e) ↔
      ∀ pre e post, es = pre ++ e :: post → Q pre e := by
  constructor
  · intro all pre e post split
    exact (same pre e post split).mp (all pre e post split)
  · intro all pre e post split
    exact (same pre e post split).mpr (all pre e post split)

/-- A run goes through exactly when every event is allowed behind those in front of it. -/
lemma run_isSome_iff {P : List ε → σ → Prop} {allowed : List ε → ε → Prop} {s0} (base : P [] s0)
    (next : ∀ {es s e s'}, P es s → step s e = some s' → P (es ++ [e]) s')
    (goes : ∀ {es s e}, P es s → ((step s e).isSome ↔ allowed es e)) (es : List ε) :
    (run step s0 es).isSome ↔ ∀ pre e post, es = pre ++ e :: post → allowed pre e := by
  constructor
  · rintro all pre e post rfl
    obtain ⟨s, r⟩ := Option.isSome_iff_exists.mp all
    obtain ⟨s1, r1, r2⟩ := run_split r
    obtain ⟨s2, st, -⟩ := Option.bind_eq_some_iff.mp r2
    have inv : P pre s1 := run_induction base (fun _ inv st => next inv st) r1
    exact (goes inv).mp (st ▸ rfl)
  · intro all
    induction es using List.reverseRecOn with
    | nil => rfl
    | append_singleton es e ih =>
      have before : ∀ pre d post, es = pre ++ d :: post → allowed pre d := by
        rintro pre d post rfl
        exact all pre d (post ++ [e]) (List.append_assoc ..)
      obtain ⟨s, r⟩ := Option.isSome_iff_exists.mp (ih before)
      have inv : P es s := run_induction base (fun _ inv st => next inv st) r
      rw [run_append, r, Option.bind_some, run_singleton]
      exact (goes inv).mpr (all es e [] rfl)

/-- An admitted run goes through when the invariant lets every admitted event take place. -/
lemma run_total {P : List ε → σ → Prop}
    (next : ∀ {es s e}, P es s → ok s e → ∃ s', step s e = some s' ∧ P (es ++ [e]) s')
    (hist : List ε) {s0 es} (base : P hist s0) (ad : Admits ok step s0 es) :
    ∃ s, run step s0 es = some s ∧ P (hist ++ es) s := by
  induction es generalizing hist s0 with
  | nil =>
    refine ⟨s0, rfl, ?_⟩
    rw [List.append_nil]
    exact base
  | cons e es ih =>
    obtain ⟨ok1, ad1⟩ := ad
    obtain ⟨s1, st, inv⟩ := next base ok1
    obtain ⟨s, r, inv'⟩ := ih _ inv (ad1 s1 st)
    refine ⟨s, ?_, ?_⟩
    · rw [run_cons, st]
      exact r
    · rw [List.append_assoc] at inv'
      exact inv'

/-- The same for an invariant of the state alone. -/
lemma Admits.run_keeps {P : σ → Prop}
    (next : ∀ {s e}, P s → ok s e → ∃ s', step s e = some s' ∧ P s') {s0 es} (base : P s0)
    (ad : Admits ok step s0 es) : ∃ s, run step s0 es = some s ∧ P s :=
  run_total (P := fun _ s => P s) (fun inv here => next inv here) [] base ad

end

/-! ## Ghosts -/

section
variable {γ : Type*} {step : σ → ε → Option σ} {record : σ → γ → ε → γ}

/-- A step function with a ghost beside the state. -/
def ghosted (step : σ → ε → Option σ) (record : σ → γ → ε → γ) (x : σ × γ) (e : ε) :
    Option (σ × γ) :=
  (step x.1 e).map fun s => (s, record x.1 x.2 e)

/-- A step with a ghost state is a step of the program and the record of it. -/
lemma ghosted_eq_some {s : σ} {g : γ} {e y} :
    ghosted step record (s, g) e = some y ↔ step s e = some y.1 ∧ record s g e = y.2 := by
  obtain ⟨s', g'⟩ := y
  simp [ghosted]

/-- A ghost state does not change what the program does. -/
lemma run_ghosted (record : σ → γ → ε → γ) (g : γ) {s es} :
    (run (ghosted step record) (s, g) es).map Prod.fst = run step s es := by
  induction es generalizing s g with
  | nil => rfl
  | cons e es ih =>
    rw [run_cons, run_cons]
    cases st : step s e with
    | none =>
      rw [ghosted, st]
      rfl
    | some s' =>
      rw [ghosted, st]
      exact ih _

/-- Nor does it change which runs are admissible. -/
lemma Admits.ghosted {ok : σ → ε → Prop} {s es} (record : σ → γ → ε → γ) (g : γ)
    (ad : Admits ok step s es) :
    Admits (fun x e => ok x.1 e) (KernelModules.ghosted step record) (s, g) es := by
  induction es generalizing s g with
  | nil => trivial
  | cons e es ih =>
    refine ⟨ad.1, fun y st => ?_⟩
    obtain ⟨st', -⟩ := ghosted_eq_some.mp st
    exact ih _ (ad.2 y.1 st')

/-- A run has its ghost. -/
lemma exists_ghost {s s' : σ} {es} (record : σ → γ → ε → γ) (g : γ) (r : run step s es = some s') :
    ∃ g', run (ghosted step record) (s, g) es = some (s', g') := by
  rw [← run_ghosted record g] at r
  obtain ⟨⟨s1, g1⟩, go, rfl⟩ := Option.map_eq_some_iff.mp r
  exact ⟨g1, go⟩

end

/-! ## Outputs -/

section
variable {τ ο : Type*}

/-- Runs a partial step function with outputs over a list of events. -/
def trace (step : σ → ε → Option (σ × ο)) : σ → List ε → Option (σ × List ο)
  | s, [] => some (s, [])
  | s, e :: es =>
    (step s e).bind fun x => (trace step x.1 es).map fun y => (y.1, x.2 :: y.2)

/-- A step function without its outputs. -/
def silent (step : σ → ε → Option (σ × ο)) (s : σ) (e : ε) : Option σ := (step s e).map Prod.fst

variable {step : σ → ε → Option (σ × ο)} {other : τ → ε → Option (τ × ο)} {ok : σ → ε → Prop}

/-- The outputs of a run are those of its first step and of the rest. -/
lemma trace_cons {s e es s1 o s2 os} (st : step s e = some (s1, o))
    (rest : trace step s1 es = some (s2, os)) : trace step s (e :: es) = some (s2, o :: os) := by
  rw [trace, st, Option.bind_some, rest, Option.map_some]

/-- The outputs of a run of one event. -/
lemma trace_singleton {s e s1 o} (st : step s e = some (s1, o)) :
    trace step s [e] = some (s1, [o]) := trace_cons st rfl

/-- Renaming the events commutes with the outputs. -/
lemma trace_map {δ : Type*} {g : δ → ε} {s es} :
    trace (fun s d => step s (g d)) s es = trace step s (es.map g) := by
  induction es generalizing s with
  | nil => rfl
  | cons d es ih =>
    rw [List.map_cons, trace, trace]
    refine congrArg _ (funext fun x => ?_)
    rw [ih]

/-- Forward simulation along an admitted run. -/
lemma trace_simulates {R : σ → τ → Prop}
    (sim : ∀ {s t e}, R s t → ok s e →
      ∃ s' t' o, step s e = some (s', o) ∧ other t e = some (t', o) ∧ R s' t')
    {s t es} (base : R s t) (ad : Admits ok (silent step) s es) :
    ∃ s' t' os, trace step s es = some (s', os) ∧ trace other t es = some (t', os) ∧ R s' t' := by
  induction es generalizing s t with
  | nil => exact ⟨s, t, [], rfl, rfl, base⟩
  | cons e es ih =>
    obtain ⟨s1, t1, o, st, st', rel⟩ := sim base ad.1
    have ad1 := ad.2 s1 (by rw [silent, st, Option.map_some])
    obtain ⟨s2, t2, os, go, go', rel'⟩ := ih rel ad1
    exact ⟨s2, t2, o :: os, trace_cons st go, trace_cons st' go', rel'⟩

end

end KernelModules
