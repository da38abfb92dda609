import KernelModules.Base.Run
import Mathlib.Data.List.Nodup

/-!
# Drivers that acquire resources one by one

The init function of a driver acquires resources in stages; when one of the calls fails, it gives
back what its error path says (`undo`) and returns an error. The exit function gives back what
`exit` says. A resource is created only once: creating one that is there fails.

`step d` loads and unloads the driver `d` any number of times. A load comes with the answers of the
calls.

* `Unwinds d`: every error path gives back all that was acquired before it. Then the driver holds
  all its resources while it is loaded and none otherwise, and a load returns the error of its first
  failing call (`Unwinds.run`).
* `Abandons d`: no error path gives anything back. Then a load that fails behind its first call
  (`HalfDone`) leaves resources behind that make every later load fail (`Abandons.run`).
-/

namespace KernelModules.Setup

/-- A negative error number. -/
abbrev Errno := { e : Int // e < 0 }

/-- `-EEXIST` -/
def eExist : Errno := ⟨-17, by decide⟩

variable {ρ : Type} [DecidableEq ρ]

/-- One call of an init function: what it acquires, what is returned for an error of the call, and
    what is given back then. -/
structure Stage (ρ : Type) where
  resource : ρ
  error : Errno → Errno
  undo : List ρ

/-- The calls of the init function, and what the exit function gives back. -/
structure Driver (ρ : Type) where
  stages : List (Stage ρ)
  exit : List ρ

/-- What a call answers that creates a resource. -/
def create (held : List ρ) (r : ρ) (answer : Option Errno) : Option Errno :=
  if r ∈ held then some eExist else answer

/-- Gives resources back. -/
def release (held gone : List ρ) : List ρ := held.filter (· ∉ gone)

/-- The init function: what is held afterwards, and the error if there is one. -/
def init : List (Stage ρ) → List (Option Errno) → List ρ → List ρ × Option Errno
  | [], _, held => (held, none)
  | st :: sts, answers, held =>
    match create held st.resource (answers.headD none) with
    | some e => (release held st.undo, some (st.error e))
    | none => init sts answers.tail (held ++ [st.resource])

/-- What is held, whether the driver is loaded, and what the loads have returned. -/
structure State (ρ : Type) where
  held : List ρ
  loaded : Bool
  returned : List (Option Errno)

/-- The driver has never been loaded. -/
def State.boot : State ρ := ⟨[], false, []⟩

/-- A load with the answers of its calls, or an unload. -/
inductive Event where
  | load (answers : List (Option Errno))
  | unload

/-- One load or unload. A driver is loaded only once, and unloaded only if it is loaded. -/
def step (d : Driver ρ) (s : State ρ) : Event → Option (State ρ)
  | .load answers =>
    if s.loaded then none else
      let (held, result) := init d.stages answers s.held
      some ⟨held, result.isNone, s.returned ++ [result]⟩
  | .unload =>
    if s.loaded then some { s with held := release s.held d.exit, loaded := false } else none

/-- The resources of the driver. -/
def Driver.resources (d : Driver ρ) : List ρ := d.stages.map Stage.resource

/-- The error of the first call that fails, when nothing is there yet. -/
def firstError : List (Stage ρ) → List (Option Errno) → Option Errno
  | [], _ => none
  | st :: sts, answers =>
    match answers.headD none with
    | some e => some (st.error e)
    | none => firstError sts answers.tail

/-- What a load returns. -/
def Event.result (d : Driver ρ) : Event → Option (Option Errno)
  | .load answers => some (firstError d.stages answers)
  | .unload => none

section
variable {d : Driver ρ} {s s' : State ρ} {es : List Event}

/-- A load happens while the driver is out; what it holds and returns is up to `init`. -/
lemma step_load {answers} (st : step d s (.load answers) = some s') :
    s.loaded = false ∧
    s' = ⟨(init d.stages answers s.held).1, (init d.stages answers s.held).2.isNone,
      s.returned ++ [(init d.stages answers s.held).2]⟩ := by
  obtain ⟨off, e⟩ := Option.ite_none_left_eq_some.mp st
  exact ⟨Bool.not_eq_true _ ▸ off, (Option.some.inj e).symm⟩

/-- An unload happens while the driver is in, and releases what `exit` lists. -/
lemma step_unload (st : step d s .unload = some s') :
    s.loaded = true ∧ s' = { s with held := release s.held d.exit, loaded := false } := by
  obtain ⟨on, e⟩ := Option.ite_none_right_eq_some.mp st
  exact ⟨on, (Option.some.inj e).symm⟩

/-- Nothing is left when everything held is released. -/
lemma release_eq_nil {held gone : List ρ} (all : ∀ r ∈ held, r ∈ gone) :
    release held gone = [] := by
  refine List.filter_eq_nil_iff.mpr fun r mem => ?_
  simpa using all r mem

omit [DecidableEq ρ] in
/-- The resource of one more stage stands last. -/
lemma map_concat {pre : List (Stage ρ)} {st} :
    (pre ++ [st]).map Stage.resource = pre.map Stage.resource ++ [st.resource] := List.map_append

/-! ## Drivers that give back -/

/-- Every error path gives back what was acquired before it, and the exit function gives back
    everything. -/
structure Unwinds (d : Driver ρ) : Prop where
  nodup : d.resources.Nodup
  undo : d.stages.Pairwise fun before st => before.resource ∈ st.undo
  exit : ∀ r ∈ d.resources, r ∈ d.exit

/-- From the resources of the first stages on, the others are acquired, or nothing is held. -/
lemma init_of_pairwise (pre : List (Stage ρ)) {sts answers}
    (nodup : ((pre ++ sts).map Stage.resource).Nodup)
    (undo : (pre ++ sts).Pairwise fun before st => before.resource ∈ st.undo) :
    init sts answers (pre.map Stage.resource) =
      if firstError sts answers = none then ((pre ++ sts).map Stage.resource, none)
      else ([], firstError sts answers) := by
  induction sts generalizing pre answers with
  | nil => rw [init, firstError, if_pos rfl, List.append_nil]
  | cons st sts ih =>
    have new : st.resource ∉ pre.map Stage.resource := by
      rw [List.map_append, List.nodup_append] at nodup
      exact fun mem => nodup.2.2 _ mem _ List.mem_cons_self rfl
    rw [init, create, if_neg new, firstError]
    cases answers.headD none with
    | some e =>
      refine Prod.ext (release_eq_nil fun r mem => ?_) rfl
      obtain ⟨before, mem', rfl⟩ := List.mem_map.mp mem
      exact (List.pairwise_append.mp undo).2.2 before mem' st List.mem_cons_self
    | none =>
      rw [List.append_cons] at nodup undo
      have next : init sts answers.tail _ = _ := ih (pre ++ [st]) nodup undo
      rw [map_concat, ← List.append_cons] at next
      exact next

/-- A driver that gives back holds all its resources while it is loaded, and nothing otherwise. A
    load returns the error of the first call that fails. -/
theorem Unwinds.run (u : Unwinds d) (go : KernelModules.run (step d) .boot es = some s) :
    s.held = (if s.loaded then d.resources else []) ∧
    s.returned = es.filterMap (Event.result d) := by
  refine run_induction (P := fun es s => s.held = (if s.loaded then d.resources else []) ∧
    s.returned = es.filterMap (Event.result d)) ⟨rfl, rfl⟩ ?_ go
  rintro es s e s' - ⟨held, returned⟩ st
  rw [List.filterMap_append]
  cases e with
  | load answers =>
    obtain ⟨off, rfl⟩ := step_load st
    rw [off] at held
    have done : init d.stages answers [] = _ := init_of_pairwise [] u.nodup u.undo
    rw [show s.held = [] from held, done, returned]
    cases ok : firstError d.stages answers with
    | none => exact ⟨rfl, by rw [List.filterMap_cons, Event.result, ok]; rfl⟩
    | some e => exact ⟨rfl, by rw [List.filterMap_cons, Event.result, ok]; rfl⟩
  | unload =>
    obtain ⟨on, rfl⟩ := step_unload st
    rw [on] at held
    refine ⟨?_, ?_⟩
    · rw [held]
      exact release_eq_nil u.exit
    · exact returned.trans (List.append_nil _).symm

/-! ## Drivers that leave things behind -/

/-- No error path gives anything back. The exit function gives back everything. -/
structure Abandons (d : Driver ρ) : Prop where
  nodup : d.resources.Nodup
  undo : ∀ st ∈ d.stages, st.undo = []
  exit : ∀ r ∈ d.resources, r ∈ d.exit

/-- A load whose first call succeeds and a later one fails. -/
def HalfDone (d : Driver ρ) : Event → Prop
  | .load answers => answers.headD none = none ∧ firstError d.stages answers ≠ none
  | .unload => False

/-- From the resources of the first stages on, a load acquires those of the stages before the one
    that fails. -/
lemma init_of_undo_nil (pre : List (Stage ρ)) {sts answers}
    (nodup : ((pre ++ sts).map Stage.resource).Nodup) (undo : ∀ st ∈ sts, st.undo = []) :
    ∃ done rest, sts = done ++ rest ∧ (rest = [] ↔ firstError sts answers = none) ∧
      (done = [] ↔ sts = [] ∨ answers.headD none ≠ none) ∧
      init sts answers (pre.map Stage.resource) =
        ((pre ++ done).map Stage.resource, firstError sts answers) := by
  induction sts generalizing pre answers with
  | nil =>
    refine ⟨[], [], rfl, iff_of_true rfl rfl, iff_of_true rfl (.inl rfl), ?_⟩
    rw [init, firstError, List.append_nil]
  | cons st sts ih =>
    have new : st.resource ∉ pre.map Stage.resource := by
      rw [List.map_append, List.nodup_append] at nodup
      exact fun mem => nodup.2.2 _ mem _ List.mem_cons_self rfl
    obtain ⟨here, undo⟩ := List.forall_mem_cons.mp undo
    rw [init, create, if_neg new, firstError]
    cases answers.headD none with
    | some e =>
      refine ⟨[], st :: sts, rfl, iff_of_false (List.cons_ne_nil _ _) (Option.some_ne_none _),
        iff_of_true rfl (.inr (Option.some_ne_none e)), ?_⟩
      rw [here, List.append_nil]
      refine Prod.ext (List.filter_eq_self.mpr fun r _ => ?_) rfl
      simp
    | none =>
      rw [List.append_cons] at nodup
      obtain ⟨done, rest, rfl, all, -, next⟩ :
          ∃ done rest, sts = done ++ rest ∧
            (rest = [] ↔ firstError sts answers.tail = none) ∧ _ ∧ _ :=
        ih (pre ++ [st]) nodup undo
      rw [map_concat, ← List.append_cons] at next
      refine ⟨st :: done, rest, rfl, all, iff_of_false (List.cons_ne_nil _ _) ?_, next⟩
      rintro (nil | fails)
      · exact List.cons_ne_nil _ _ nil
      · exact fails rfl

/-- The same for a load of a driver that holds nothing. -/
lemma Abandons.init (a : Abandons d) (answers : List (Option Errno)) :
    ∃ done rest, d.stages = done ++ rest ∧ (rest = [] ↔ firstError d.stages answers = none) ∧
      (done = [] ↔ d.stages = [] ∨ answers.headD none ≠ none) ∧
      Setup.init d.stages answers [] = (done.map Stage.resource, firstError d.stages answers) :=
  init_of_undo_nil [] a.nodup a.undo

/-- The first resource is there although the driver is not loaded. -/
structure Stuck (d : Driver ρ) (s : State ρ) : Prop where
  off : s.loaded = false
  first : ∃ st sts, d.stages = st :: sts ∧ st.undo = [] ∧ st.resource ∈ s.held

/-- A stuck driver stays as it is. -/
lemma Stuck.step {e} (stuck : Stuck d s) (st : Setup.step d s e = some s') :
    s'.held = s.held ∧ Stuck d s' := by
  cases e with
  | load answers =>
    obtain ⟨-, rfl⟩ := step_load st
    obtain ⟨first, others, stages, undo, mem⟩ := stuck.first
    have fails : init d.stages answers s.held = (s.held, some (first.error eExist)) := by
      rw [stages, init, create, if_pos mem, undo]
      refine Prod.ext (List.filter_eq_self.mpr fun r _ => ?_) rfl
      simp
    rw [fails]
    exact ⟨rfl, rfl, first, others, stages, undo, mem⟩
  | unload =>
    obtain ⟨on, -⟩ := step_unload st
    rw [stuck.off] at on
    cases on

/-- A driver that is stuck stays so, with what it holds. -/
lemma Stuck.run (stuck : Stuck d s) (go : KernelModules.run (Setup.step d) s es = some s') :
    s'.held = s.held ∧ Stuck d s' := by
  refine run_induction (P := fun _ s' => s'.held = s.held ∧ Stuck d s') ⟨rfl, stuck⟩ ?_ go
  rintro _ s1 e s2 - ⟨held, stuck⟩ st
  obtain ⟨held', stuck'⟩ := stuck.step st
  exact ⟨held'.trans held, stuck'⟩

/-- As long as no load is half done, one step more is as it should be, or leaves the driver
    stuck. -/
lemma Abandons.step {e} (a : Abandons d) (none_ : ∀ e ∈ es, ¬ HalfDone d e)
    (held : s.held = if s.loaded then d.resources else [])
    (returned : s.returned = es.filterMap (Event.result d)) (st : Setup.step d s e = some s') :
    ((∀ e' ∈ es ++ [e], ¬ HalfDone d e') ∧ s'.held = (if s'.loaded then d.resources else []) ∧
      s'.returned = (es ++ [e]).filterMap (Event.result d)) ∨
    (∃ e' ∈ es ++ [e], HalfDone d e') ∧ Stuck d s' := by
  rw [List.filterMap_append]
  cases e with
  | load answers =>
    obtain ⟨off, rfl⟩ := step_load st
    rw [off] at held
    obtain ⟨done, rest, stages, all, first, result⟩ := a.init answers
    rw [show s.held = [] from held, result, returned]
    by_cases half : HalfDone d (.load answers)
    · obtain ⟨ok, fails⟩ := half
      refine .inr ⟨⟨_, List.mem_append_right es List.mem_cons_self, ok, fails⟩, ?_, ?_⟩
      · exact Option.isNone_eq_false_iff.mpr (Option.isSome_iff_ne_none.mpr fails)
      · cases done with
        | nil =>
          rcases first.mp rfl with nil | bad
          · rw [nil] at fails
            exact absurd rfl fails
          · exact absurd ok bad
        | cons st done =>
          exact ⟨st, done ++ rest, stages, a.undo st (stages ▸ List.mem_cons_self),
            List.mem_cons_self⟩
    · refine .inl ⟨List.forall_mem_append.mpr ⟨none_, List.forall_mem_singleton.mpr half⟩, ?_, rfl⟩
      by_cases ok : firstError d.stages answers = none
      · rw [all.mpr ok, List.append_nil] at stages
        rw [ok, Driver.resources, stages]
        rfl
      · have nil : done = [] := first.mpr (.inr fun head => half ⟨head, ok⟩)
        rw [Option.isNone_eq_false_iff.mpr (Option.isSome_iff_ne_none.mpr ok), nil]
        rfl
  | unload =>
    obtain ⟨on, rfl⟩ := step_unload st
    rw [on] at held
    refine .inl ⟨List.forall_mem_append.mpr ⟨none_, List.forall_mem_singleton.mpr id⟩, ?_, ?_⟩
    · rw [held]
      exact release_eq_nil a.exit
    · exact returned.trans (List.append_nil _).symm

/-- A driver that is not loaded holds nothing, as long as no load is half done. From a half done
    load on, it keeps what it holds for ever, its first resource among it, and is never loaded
    again. -/
theorem Abandons.run (a : Abandons d) (go : KernelModules.run (Setup.step d) .boot es = some s) :
    ((∀ e ∈ es, ¬ HalfDone d e) →
      s.held = (if s.loaded then d.resources else []) ∧
      s.returned = es.filterMap (Event.result d)) ∧
    ((∃ e ∈ es, HalfDone d e) → (∃ r, d.resources.head? = some r ∧ r ∈ s.held) ∧ s.loaded = false ∧
      ∀ es' s', KernelModules.run (Setup.step d) s es' = some s' →
        s'.held = s.held ∧ s'.loaded = false) := by
  have inv : ((∀ e ∈ es, ¬ HalfDone d e) ∧ s.held = (if s.loaded then d.resources else []) ∧
      s.returned = es.filterMap (Event.result d)) ∨ (∃ e ∈ es, HalfDone d e) ∧ Stuck d s := by
    refine run_induction (P := fun es s => ((∀ e ∈ es, ¬ HalfDone d e) ∧
      s.held = (if s.loaded then d.resources else []) ∧
      s.returned = es.filterMap (Event.result d)) ∨
      (∃ e ∈ es, HalfDone d e) ∧ Stuck d s)
      (.inl ⟨fun _ mem => absurd mem List.not_mem_nil, rfl, rfl⟩) ?_ go
    rintro es s e s' - (⟨none_, held, returned⟩ | ⟨⟨e', mem, half⟩, stuck⟩) st
    · exact a.step none_ held returned st
    · exact .inr ⟨⟨e', List.mem_append_left _ mem, half⟩, (stuck.step st).2⟩
  rcases inv with ⟨none_, clean⟩ | ⟨⟨e, mem, half⟩, stuck⟩
  · exact ⟨fun _ => clean, fun ⟨e, mem, half⟩ => absurd half (none_ e mem)⟩
  · refine ⟨fun none_ => absurd half (none_ e mem), fun _ => ⟨?_, stuck.off, fun es' s' go' => ?_⟩⟩
    · obtain ⟨first, others, stages, -, mem⟩ := stuck.first
      refine ⟨first.resource, ?_, mem⟩
      rw [Driver.resources, stages]
      rfl
    · obtain ⟨held, stuck'⟩ := stuck.run go'
      exact ⟨held, stuck'.off⟩

end

end KernelModules.Setup
