import KernelModules.Base.Run
import KernelModules.Vram.Source

/-!
# Loading and unloading the VRAM driver

`vram_init` of `hardware_map.c` should return 0 exactly when its five kernel calls have succeeded,
and give everything back otherwise. No failure path calls `iounmap`, so that a mapping is left
behind whenever a later call fails (`vramInit_mapping`). And only the failures of `ioremap` and
`alloc_chrdev_region` are always seen: an error pointer is not `NULL`, and an error of `cdev_add` is
compared with -1.

`all_or_nothing_iff` says which loads may occur in a run of loads and unloads in which every load is
all or nothing.
-/

namespace KernelModules.Vram

/-- All five calls succeed. -/
def Outcomes.AllSucceed (o : Outcomes) : Prop :=
  o.ioremap = true ∧ o.allocChrdevRegion = none ∧ o.classCreate = none ∧ o.deviceCreate = none ∧
    o.cdevAdd = none

/-- The driver over many loads: whether it is loaded, the resources acquired and released so far,
    and what each load has returned. -/
structure Driver where
  loaded : Bool
  log : List Call
  returned : List (Outcomes × Int)

/-- The driver has never been loaded. -/
def Driver.init : Driver := ⟨false, [], []⟩

/-- A load or an unload. -/
inductive LoadEvent where
  | load (o : Outcomes)
  | unload

namespace Driver

/-- One event. The module stays loaded when `vram_init` returns 0. -/
def step (s : Driver) : LoadEvent → Option Driver
  | .load o =>
    if s.loaded then none
    else some ⟨(vramInit o).2 = 0, s.log ++ (vramInit o).1, s.returned ++ [(o, (vramInit o).2)]⟩
  | .unload => if s.loaded then some { s with loaded := false, log := s.log ++ vramExit } else none

/-- Every load has returned 0 exactly when all its calls succeeded, and while the driver is not
    loaded everything acquired has been released exactly once. -/
def AllOrNothing (s : Driver) : Prop :=
  (∀ x ∈ s.returned, x.2 = 0 ↔ x.1.AllSucceed) ∧
    (s.loaded = false → ∀ r, s.log.count (.release r) = s.log.count (.acquire r))

end Driver

/-- The loads that are all or nothing: the first call fails, or none does. -/
def LoadEvent.Whole : LoadEvent → Prop
  | .load o => o.ioremap = false ∨ o.AllSucceed
  | .unload => True

/-! ## One load -/

/-- `class_create` and `device_create` never return null: an error is a pointer too. -/
lemma Outcome.toPtr_ne_null {o : Outcome} : o.toPtr ≠ .null := by
  cases o with
  | none => exact fun e => by cases e
  | some e => exact fun e => by cases e

/-- Without the mapping `vram_init` gets nothing and fails. -/
lemma vramInit_unmapped {o : Outcomes} (fails : o.ioremap = false) : vramInit o = ([], -1) := by
  rw [vramInit, fails]
  rfl

/-- When every call succeeds, `vram_init` gets everything and returns 0. -/
lemma vramInit_all {o : Outcomes} (all : o.AllSucceed) :
    vramInit o = ([.acquire .mapping, .acquire .region, .acquire .deviceClass, .acquire .device,
      .acquire .cdev], 0) := by
  obtain ⟨mapped, region, cls, device, cdev⟩ := all
  rw [vramInit, mapped, region, cls, device, cdev]
  rfl

/-- The calls behind the mapping do not touch it. -/
lemma count_acquired (o : Outcome) {r : Resource} (ne : r ≠ .mapping) :
    (o.acquired r).count (.acquire .mapping) = 0 ∧
      (o.acquired r).count (.release .mapping) = 0 := by
  cases o with
  | none => cases r with
    | mapping => exact absurd rfl ne
    | _ => exact ⟨rfl, rfl⟩
  | some e => exact ⟨rfl, rfl⟩

/-- Once the window is mapped, only two of the later failures are seen. -/
lemma vramInit_mapped {o : Outcomes} (mapped : o.ioremap = true) :
    vramInit o = if o.allocChrdevRegion.toInt < 0 then ([.acquire .mapping], -1) else
      let log := [.acquire .mapping] ++ [.acquire .region] ++ o.classCreate.acquired .deviceClass ++
        o.deviceCreate.acquired .device
      if o.cdevAdd.toInt = -1 then
        (log ++ [.release .device, .release .deviceClass, .release .region], -1)
      else (log ++ o.cdevAdd.acquired .cdev, 0) := by
  rw [vramInit, mapped, if_neg (by decide)]
  simp only [if_neg Outcome.toPtr_ne_null]

/-- And no path unmaps it. -/
lemma vramInit_mapping {o : Outcomes} (mapped : o.ioremap = true) :
    (vramInit o).1.count (.acquire .mapping) = 1 ∧
      (vramInit o).1.count (.release .mapping) = 0 := by
  obtain ⟨cls1, cls2⟩ := count_acquired o.classCreate (r := .deviceClass) (by decide)
  obtain ⟨device1, device2⟩ := count_acquired o.deviceCreate (r := .device) (by decide)
  obtain ⟨cdev1, cdev2⟩ := count_acquired o.cdevAdd (r := .cdev) (by decide)
  rw [vramInit_mapped mapped]
  split
  · exact ⟨rfl, rfl⟩
  · dsimp only
    split
    · simp [List.count_append, cls1, cls2, device1, device2]
    · simp [List.count_append, cls1, cls2, device1, device2, cdev1, cdev2]

/-! ## Runs -/

/-- What a run of whole loads keeps. -/
structure Tidy (s : Driver) : Prop where
  returned : ∀ x ∈ s.returned, x.2 = 0 ↔ x.1.AllSucceed
  held : ∀ r, s.log.count (.release r) + (if s.loaded then 1 else 0) = s.log.count (.acquire r)

/-- What whole loads keep is that the driver holds all or nothing. -/
lemma Tidy.allOrNothing {s} (tidy : Tidy s) : s.AllOrNothing := by
  refine ⟨tidy.returned, fun idle r => ?_⟩
  have held := tidy.held r
  rw [idle, if_neg Bool.false_ne_true] at held
  exact held

/-- A whole load keeps the driver tidy. -/
lemma Tidy.load {s : Driver} {o} (tidy : Tidy s) (idle : s.loaded = false)
    (whole : o.ioremap = false ∨ o.AllSucceed) :
    Tidy ⟨(vramInit o).2 = 0, s.log ++ (vramInit o).1, s.returned ++ [(o, (vramInit o).2)]⟩ := by
  have balanced := tidy.allOrNothing.2 idle
  rcases whole with fails | all
  · have not_all : ¬ o.AllSucceed := by
      intro all
      exact Bool.false_ne_true (fails.symm.trans all.1)
    rw [vramInit_unmapped fails]
    refine ⟨fun x mem => ?_, fun r => ?_⟩
    · rcases List.mem_append.mp mem with old | new
      · exact tidy.returned x old
      · rw [List.mem_singleton.mp new]
        exact ⟨fun zero => absurd zero (show (-1 : Int) ≠ 0 by decide),
          fun all => absurd all not_all⟩
    · rw [List.append_nil]
      exact balanced r
  · rw [vramInit_all all]
    refine ⟨fun x mem => ?_, fun r => ?_⟩
    · rcases List.mem_append.mp mem with old | new
      · exact tidy.returned x old
      · rw [List.mem_singleton.mp new]
        exact ⟨fun _ => all, fun _ => rfl⟩
    · rw [List.count_append, List.count_append, balanced r]
      cases r with
      | _ => rfl

/-- So does every step of a run of whole loads. -/
lemma Tidy.step {s e s'} (tidy : Tidy s) (whole : e.Whole) (st : s.step e = some s') : Tidy s' := by
  cases e with
  | load o =>
    obtain ⟨idle, e⟩ := Option.ite_none_left_eq_some.mp st
    rw [← Option.some.inj e]
    exact tidy.load (Bool.eq_false_iff.mpr idle) whole
  | unload =>
    obtain ⟨loaded, e⟩ := Option.ite_none_right_eq_some.mp st
    rw [← Option.some.inj e]
    refine ⟨tidy.returned, fun r => ?_⟩
    have held := tidy.held r
    rw [if_pos loaded] at held
    rw [List.count_append, List.count_append, ← held]
    cases r with
    | _ => rfl

/-- A load that is not whole returns 0 all the same, or leaves the mapping behind. -/
lemma Tidy.breaks {s e s'} (tidy : Tidy s) (bad : ¬ e.Whole) (st : s.step e = some s') :
    ¬ s'.AllOrNothing := by
  cases e with
  | load o =>
    obtain ⟨idle, e⟩ := Option.ite_none_left_eq_some.mp st
    have balanced := tidy.allOrNothing.2 (Bool.eq_false_iff.mpr idle) .mapping
    obtain ⟨mapped, some_⟩ := not_or.mp bad
    obtain ⟨acquired, released⟩ := vramInit_mapping (eq_true_of_ne_false mapped)
    rw [← Option.some.inj e]
    rintro ⟨returned, settled⟩
    have zero := returned (o, (vramInit o).2) (List.mem_append_right _ List.mem_cons_self)
    have ret : (vramInit o).2 ≠ 0 := mt zero.mp some_
    have count := settled (decide_eq_false ret) .mapping
    rw [List.count_append, List.count_append, balanced, acquired, released] at count
    omega
  | unload => exact absurd trivial bad

/-- Along a run of loads and unloads, with any outcomes, every load is all or nothing exactly when
    in each of them either `ioremap` fails or all five calls succeed. -/
theorem all_or_nothing_iff {es s} (go : run Driver.step .init es = some s) :
    (∀ pre s', pre <+: es → run Driver.step .init pre = some s' → s'.AllOrNothing) ↔
      ∀ o, LoadEvent.load o ∈ es → o.ioremap = false ∨ o.AllSucceed := by
  have base : Tidy .init := ⟨fun x mem => (List.not_mem_nil mem).elim, fun r => rfl⟩
  constructor
  · intro clean o mem
    rcases all_or_first (q := LoadEvent.Whole) es with all | ⟨pre, e, post, rfl, whole, bad⟩
    · exact all (.load o) mem
    · rw [List.append_cons] at go
      obtain ⟨s2, r2, -⟩ := run_split go
      obtain ⟨s1, r1, st⟩ := run_snoc.mp r2
      have tidy := run_invariant Tidy.step base whole r1
      exact absurd (clean (pre ++ [e]) s2 ⟨post, by simp⟩ r2) (tidy.breaks bad st)
  · rintro whole pre s' ⟨post, rfl⟩ go'
    refine (run_invariant (P := Tidy) (q := LoadEvent.Whole) Tidy.step base ?_ go').allOrNothing
    intro e mem
    cases e with
    | load o => exact whole o (List.mem_append_left _ mem)
    | unload => exact trivial

/-- A load that maps nothing, a load in which everything succeeds, and its unload. -/
theorem all_or_nothing_of_two_loads :
    ∃ s, run Driver.step .init [.load ⟨false, none, none, none, none⟩,
        .load ⟨true, none, none, none, none⟩, .unload] = some s ∧ s.AllOrNothing := by
  have whole : ∀ o, LoadEvent.load o ∈ [LoadEvent.load ⟨false, none, none, none, none⟩,
      .load ⟨true, none, none, none, none⟩, .unload] → o.ioremap = false ∨ o.AllSucceed := by
    intro o mem
    rcases List.mem_cons.mp mem with e | mem
    · cases e
      exact .inl rfl
    · rcases List.mem_cons.mp mem with e | mem
      · cases e
        exact .inr ⟨rfl, rfl, rfl, rfl, rfl⟩
      · rcases List.mem_cons.mp mem with e | none_
        · cases e
        · cases none_
  exact ⟨_, rfl, (all_or_nothing_iff rfl).mpr whole _ _ (List.prefix_refl _) rfl⟩

/-- `alloc_chrdev_region` fails with `-EBUSY`: the mapping is left behind. `class_create` fails with
    `-ENOMEM`: `vram_init` returns 0. `cdev_add` fails with `-EPERM`, the only error that is seen:
    the mapping is left behind. -/
theorem not_all_or_nothing :
    vramInit ⟨true, some ⟨16, by decide, by decide⟩, none, none, none⟩ = ([.acquire .mapping], -1) ∧
      (vramInit ⟨true, none, some ⟨12, by decide, by decide⟩, none, none⟩).2 = 0 ∧
      vramInit ⟨true, none, none, none, some ⟨1, by decide, by decide⟩⟩ =
        ([.acquire .mapping, .acquire .region, .acquire .deviceClass, .acquire .device,
          .release .device, .release .deviceClass, .release .region], -1) := by
  decide

end KernelModules.Vram
