import KernelModules.Base.Run
import KernelModules.SysfsExample.Source

/-!
# The lifetime of the page

`my_sysfs_exit` of `sysfs_example.c` frees `my_page_buffer` before `kobject_put` removes the file
`foo`, so that an access in between finds the page freed. And neither error branch behind `kmalloc`
in `my_sysfs_init` frees the page.

As long as none of this happens, how far the module is says what it holds (`Pc.page`, `Pc.kobj`,
`Pc.group`), and `lifetime_iff` says that these are the only ways in which the lifetime is violated.
-/

namespace KernelModules.SysfsExample

variable {n : Nat}

/-- An access to the attribute. -/
def Event.Accesses : Event n → Prop
  | .fooShow => True
  | .fooStore _ => True
  | _ => False

/-- `my_sysfs_init` has returned an error, or `my_sysfs_exit` has finished. -/
def Module.Over (s : Module n) : Prop := (∃ retval, s.pc = .failed retval) ∨ s.pc = .unloaded

/-- In every state of a run: an access finds the page allocated, and a module that is gone holds
    neither the page nor the kobject. -/
def Lifetime (s0 : Module n) (es : List (Event n)) : Prop :=
  (∀ pre e s, pre ++ [e] <+: es → e.Accesses → run step s0 pre = some s → s.page ≠ none) ∧
    ∀ pre s, pre <+: es → run step s0 pre = some s → s.Over → s.page = none ∧ s.kobj = false

/-- The steps that keep the lifetime: no call behind `kmalloc` fails, and no access comes between
    the `kfree` and the `kobject_put` of `my_sysfs_exit`. -/
def Orderly (s : Module n) : Event n → Prop
  | .kobjectCreateAndAdd ok => ok = true
  | .kobjectPut => False
  | .fooShow => s.pc ≠ .exitPut
  | .fooStore _ => s.pc ≠ .exitPut
  | _ => True

/-! ## What the module holds -/

/-- Whether the page is allocated. -/
def Pc.page : Pc → Bool
  | .createKobject | .createGroup | .putKobject _ | .loaded => true
  | _ => false

/-- Whether the kobject is held. -/
def Pc.kobj : Pc → Bool
  | .createGroup | .putKobject _ | .loaded | .exitPut => true
  | _ => false

/-- Whether the files exist. -/
def Pc.group : Pc → Bool
  | .loaded | .exitPut => true
  | _ => false

/-- The module holds what it should. -/
structure Holds (s : Module n) : Prop where
  page : s.page.isSome = s.pc.page
  kobj : s.kobj = s.pc.kobj
  group : s.group = s.pc.group

/-- An orderly step keeps what the module holds. -/
lemma Holds.step {s e s'} (inv : Holds (n := n) s) (ok : Orderly s e) (st : step s e = some s') :
    Holds s' := by
  obtain ⟨page, kobj, group⟩ := inv
  cases e with
  | kmalloc ans =>
    obtain ⟨pc, e⟩ := Option.ite_none_right_eq_some.mp st
    rw [← Option.some.inj e]
    rw [pc] at kobj group
    cases ans with
    | none => exact ⟨rfl, kobj, group⟩
    | some page => exact ⟨rfl, kobj, group⟩
  | kobjectCreateAndAdd created =>
    obtain ⟨pc, e⟩ := Option.ite_none_right_eq_some.mp st
    cases ok
    rw [← Option.some.inj e]
    rw [pc] at page group
    exact ⟨page, rfl, group⟩
  | sysfsCreateGroup retval =>
    obtain ⟨pc, e⟩ := Option.ite_none_right_eq_some.mp st
    rw [← Option.some.inj e]
    rw [pc] at page kobj
    by_cases zero : retval = 0
    · rw [if_pos zero]
      exact ⟨page, kobj, decide_eq_true zero⟩
    · rw [if_neg zero]
      exact ⟨page, kobj, decide_eq_false zero⟩
  | kobjectPut => exact ok.elim
  | exitKfree =>
    obtain ⟨pc, e⟩ := Option.ite_none_right_eq_some.mp st
    rw [← Option.some.inj e]
    rw [pc] at kobj group
    exact ⟨rfl, kobj, group⟩
  | exitKobjectPut =>
    obtain ⟨pc, e⟩ := Option.ite_none_right_eq_some.mp st
    rw [← Option.some.inj e]
    rw [pc] at page
    exact ⟨page, rfl, rfl⟩
  | fooShow =>
    obtain ⟨-, e⟩ := Option.ite_none_right_eq_some.mp st
    rw [← Option.some.inj e]
    exact ⟨page, kobj, group⟩
  | fooStore buf =>
    obtain ⟨-, e⟩ := Option.ite_none_right_eq_some.mp st
    rw [← Option.some.inj e]
    exact ⟨Option.isSome_map.trans page, kobj, group⟩

/-- Where the module should have its page, it has it. -/
lemma Holds.page_ne_none {s : Module n} (inv : Holds s) (held : s.pc.page = true) :
    s.page ≠ none := by
  intro freed
  have page := inv.page
  rw [held, freed] at page
  cases page

/-- Where it should not, it has none. -/
lemma Holds.page_eq_none {s : Module n} (inv : Holds s) (free : s.pc.page = false) :
    s.page = none := by
  rw [← Option.not_isSome_iff_eq_none, inv.page, free]
  exact Bool.false_ne_true

/-- An orderly access happens while the module is loaded. -/
lemma Holds.access {s : Module n} {e s'} (inv : Holds s) (ok : Orderly s e) (acc : e.Accesses)
    (st : SysfsExample.step s e = some s') : s.page ≠ none := by
  have loaded : s.group = true ∧ s.pc ≠ .exitPut := by
    cases e with
    | fooShow => exact ⟨(Option.ite_none_right_eq_some.mp st).1, ok⟩
    | fooStore buf => exact ⟨(Option.ite_none_right_eq_some.mp st).1, ok⟩
    | _ => exact acc.elim
  refine inv.page_ne_none ?_
  have group := inv.group.symm.trans loaded.1
  cases pc : s.pc with
  | loaded => rfl
  | exitPut => exact absurd pc loaded.2
  | _ =>
    rw [pc] at group
    cases group

/-- A module that is gone in an orderly way holds nothing. -/
lemma Holds.gone {s : Module n} (inv : Holds s) (ended : s.Over) :
    s.page = none ∧ s.kobj = false := by
  have nothing : s.pc.page = false ∧ s.pc.kobj = false := by
    rcases ended with ⟨retval, pc⟩ | pc
    · rw [pc]
      exact ⟨rfl, rfl⟩
    · rw [pc]
      exact ⟨rfl, rfl⟩
  exact ⟨inv.page_eq_none nothing.1, inv.kobj.trans nothing.2⟩

/-- The first step that is not orderly is an access to the freed page, or leaves the page behind. -/
lemma Holds.breaks {s : Module n} {e s'} (inv : Holds s) (bad : ¬ Orderly s e)
    (st : SysfsExample.step s e = some s') :
    (e.Accesses ∧ s.page = none) ∨ (s'.Over ∧ s'.page ≠ none) := by
  cases e with
  | kobjectCreateAndAdd created =>
    obtain ⟨pc, e⟩ := Option.ite_none_right_eq_some.mp st
    cases created with
    | true => exact absurd rfl bad
    | false =>
      rw [← Option.some.inj e]
      exact .inr ⟨.inl ⟨eNoMem, rfl⟩, inv.page_ne_none (by rw [pc]; rfl)⟩
  | kobjectPut =>
    simp only [SysfsExample.step] at st
    split at st
    case h_1 retval pc =>
      rw [← Option.some.inj st]
      exact .inr ⟨.inl ⟨retval, rfl⟩, inv.page_ne_none (by rw [pc]; rfl)⟩
    case h_2 => cases st
  | fooShow =>
    have pc : s.pc = .exitPut := not_not.mp bad
    exact .inl ⟨trivial, inv.page_eq_none (by rw [pc]; rfl)⟩
  | fooStore buf =>
    have pc : s.pc = .exitPut := not_not.mp bad
    exact .inl ⟨trivial, inv.page_eq_none (by rw [pc]; rfl)⟩
  | _ => exact absurd trivial bad

/-- In every interleaving of `my_sysfs_init`, the accesses to `foo` and `my_sysfs_exit` the lifetime
    is kept exactly when every step is orderly. -/
theorem lifetime_iff {es s} (go : run step (.boot n) es = some s) :
    Lifetime (.boot n) es ↔ Admits Orderly step (.boot n) es := by
  have base : Holds (.boot n) := ⟨rfl, rfl, rfl⟩
  constructor
  · rintro ⟨finds, leaves⟩
    rcases admits_or_first Orderly go with ad | ⟨pre, e, post, s1, s2, rfl, ad, r1, bad, st⟩
    · exact ad
    · have inv := ad.invariant Holds.step base r1
      have upto : pre ++ [e] <+: pre ++ e :: post := ⟨post, by simp⟩
      rcases inv.breaks bad st with ⟨acc, freed⟩ | ⟨ended, held⟩
      · exact absurd freed (finds pre e s1 upto acc r1)
      · exact absurd (leaves _ s2 upto (run_snoc.mpr ⟨s1, r1, st⟩) ended).1 held
  · intro ad
    refine ⟨?_, ?_⟩
    · rintro pre e s1 ⟨post, rfl⟩ acc r1
      obtain ⟨s2, r2, -⟩ := run_split go
      obtain ⟨s1', r1', st⟩ := run_snoc.mp r2
      cases r1.symm.trans r1'
      rw [List.append_assoc] at ad
      have inv := ad.of_append.invariant Holds.step base r1
      exact inv.access (ad.rest r1).1 acc st
    · rintro pre s1 ⟨post, rfl⟩ r1 ended
      exact (ad.of_append.invariant Holds.step base r1).gone ended

/-- A load, a store, and an unload. -/
theorem lifetime_of_unload :
    Lifetime (.boot 4096) [.kmalloc (some (.filled 4096 0)), .kobjectCreateAndAdd true,
      .sysfsCreateGroup 0, .fooStore [104, 105], .exitKfree, .exitKobjectPut] := by
  refine (lifetime_iff rfl).mpr ⟨trivial, fun s1 st1 => ?_⟩
  cases st1
  refine ⟨rfl, fun s2 st2 => ?_⟩
  cases st2
  refine ⟨trivial, fun s3 st3 => ?_⟩
  cases st3
  refine ⟨fun e => ?_, fun s4 _ => ⟨trivial, fun s5 _ => ⟨trivial, fun s6 _ => trivial⟩⟩⟩
  cases e

/-- An access between `kfree` and `kobject_put` finds the page freed; and when
    `kobject_create_and_add` fails, or `sysfs_create_group` does, `my_sysfs_init` returns an error
    and the page stays allocated. -/
theorem lifetime_violated :
    (∃ s, run step (.boot 4096) [.kmalloc (some (.filled 4096 0)), .kobjectCreateAndAdd true,
        .sysfsCreateGroup 0, .exitKfree] = some s ∧ s.page = none ∧ step s .fooShow = some s) ∧
      (∃ s, run step (.boot 4096) [.kmalloc (some (.filled 4096 0)), .kobjectCreateAndAdd false] =
        some s ∧ s.pc = .failed eNoMem ∧ s.page ≠ none) ∧
      ∃ s, run step (.boot 4096) [.kmalloc (some (.filled 4096 0)), .kobjectCreateAndAdd true,
        .sysfsCreateGroup eNoMem, .kobjectPut] = some s ∧ s.pc = .failed eNoMem ∧
        s.page ≠ none := by
  exact ⟨⟨_, rfl, rfl, rfl⟩, ⟨_, rfl, rfl, Option.some_ne_none _⟩,
    ⟨_, rfl, rfl, Option.some_ne_none _⟩⟩

end KernelModules.SysfsExample
