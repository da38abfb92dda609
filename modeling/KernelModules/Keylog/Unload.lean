import KernelModules.Keylog.Steps

/-!
# Unloading the keylogger

`keylog_driver_exit` of `keyboard_interrupt_misc_device.c` waits for one `complete` when
`intr_registered` is not 0, and then removes the device. `Safe` says that it has not got past this
wait while a handler is registered.

The wait is for one close, not for the last one, so it depends on how files are opened and closed.
`Orderly` is the condition on the steps: a close is the close of the only open file, fewer than
`2 ^ 32` files are open, and no file is opened between the wait and `misc_deregister`.

* `unload_safe`: orderly runs are safe, and the first step that is not orderly opens a way to a
  state that is not safe.
-/

namespace KernelModules.Keylog

/-- `keylog_driver_exit` has got past its wait only if no handler is registered. -/
def Safe (s : Sys) : Prop := s.exit = .deregister ∨ s.exit = .done → s.dev.actions = 0

/-- Every `request_irq` succeeds. -/
def Successful : Event → Prop
  | .keylogOpen irqOk => irqOk = true
  | _ => True

/-- How files may be opened and closed. -/
def Orderly (s : Sys) : Event → Prop
  | .keylogOpen _ => s.files + 1 < 2 ^ 32 ∧ s.exit ≠ .deregister
  | .keylogClose => s.files = 1
  | _ => True

/-- What holds after orderly steps: `intr_registered` counts the files, each of which has its
    handler, and neither the completion nor `keylog_driver_exit` is ahead of the last close. -/
structure UnloadInv (s : Sys) : Prop where
  handlers : s.dev.actions = s.files
  counter : s.dev.intrRegistered = BitVec.ofNat 32 s.files
  bound : s.files < 2 ^ 32
  completed : s.dev.completion ≠ 0 → s.files = 0
  past : s.exit = .deregister ∨ s.exit = .done → s.files = 0

/-- Nothing is open at first. -/
lemma UnloadInv.init : UnloadInv .init :=
  ⟨rfl, rfl, by decide, fun ne => absurd rfl ne, fun _ => rfl⟩

/-- Past the wait no file is open, so no handler is registered. -/
lemma UnloadInv.safe {s} (inv : UnloadInv s) : Safe s := fun p => inv.handlers.trans (inv.past p)

/-- The counter is 0 exactly when no file is open. -/
lemma UnloadInv.counter_eq_zero {s} (inv : UnloadInv s) :
    s.dev.intrRegistered = 0 ↔ s.files = 0 := by
  rw [inv.counter, ← BitVec.toNat_inj, BitVec.toNat_ofNat, Nat.mod_eq_of_lt inv.bound]
  rfl

/-- The steps that neither open nor close a file and do not belong to `keylog_driver_exit`. -/
lemma UnloadInv.frame {s s' : Sys} (inv : UnloadInv s) (files : s'.files = s.files)
    (exit : s'.exit = s.exit) (acts : s'.dev.actions = s.dev.actions)
    (counter : s'.dev.intrRegistered = s.dev.intrRegistered)
    (completion : s'.dev.completion = s.dev.completion) : UnloadInv s' := by
  obtain ⟨i1, i2, i3, i4, i5⟩ := inv
  constructor
  · rw [acts, files]
    exact i1
  · rw [counter, files]
    exact i2
  · rw [files]
    exact i3
  · rw [completion, files]
    exact i4
  · rw [exit, files]
    exact i5

/-- Orderly steps keep the invariant. -/
lemma UnloadInv.step {s s' : Sys} {e} (inv : UnloadInv s) (ok : Successful e ∧ Orderly s e)
    (st : step s e = some s') : UnloadInv s' := by
  cases e with
  | keylogOpen irqOk =>
    obtain ⟨rfl, bound, early⟩ := ok
    obtain ⟨late, rfl⟩ := step_keylogOpen st
    refine ⟨congrArg (· + 1) inv.handlers, ?_, bound, fun ne => absurd rfl ne, ?_⟩
    · change s.dev.intrRegistered + 1 = _
      rw [inv.counter, BitVec.ofNat_add]
      rfl
    · rintro (dereg | done)
      · exact absurd dereg early
      · exact absurd done late
  | keylogClose =>
    -- the only open file is closed, so that no file is open afterwards
    have one : s.files = 1 := ok.2
    obtain ⟨-, rfl⟩ := step_keylogClose st
    have none : s.files - 1 = 0 := by rw [one]
    refine ⟨congrArg (· - 1) inv.handlers, ?_, ?_, fun _ => none, fun _ => none⟩
    · change s.dev.intrRegistered - 1 = BitVec.ofNat 32 (s.files - 1)
      rw [inv.counter, one]
      rfl
    · exact Nat.lt_of_le_of_lt (Nat.sub_le ..) inv.bound
  | readEnter r len ans =>
    obtain ⟨p, d, alloc, rfl⟩ := step_readEnter st
    obtain ⟨h, rfl⟩ := kmalloc_frame alloc
    exact inv.frame rfl rfl rfl rfl rfl
  | exitTest =>
    obtain ⟨-, rfl⟩ := step_exitTest st
    refine ⟨inv.handlers, inv.counter, inv.bound, inv.completed, ?_⟩
    change (if s.dev.intrRegistered ≠ 0 then ExitPc.waiting else .deregister) = .deregister ∨
      (if s.dev.intrRegistered ≠ 0 then ExitPc.waiting else .deregister) = .done → s.files = 0
    split
    case isTrue =>
      rintro (p | p)
      · cases p
      · cases p
    case isFalse zero => exact fun _ => inv.counter_eq_zero.mp (not_not.mp zero)
  | exitWait =>
    obtain ⟨ready, rfl⟩ := step_exitWait st
    have none := inv.completed ready.2
    exact ⟨inv.handlers, inv.counter, inv.bound, fun _ => none, fun _ => none⟩
  | exitDeregister =>
    obtain ⟨dereg, rfl⟩ := step_exitDeregister st
    exact ⟨inv.handlers, inv.counter, inv.bound, inv.completed, fun _ => inv.past (.inl dereg)⟩
  | interrupt scs =>
    obtain ⟨files, exit, h, k, dev⟩ := step_running (.inr ⟨scs, rfl⟩) st
    exact inv.frame files exit (by rw [dev]) (by rw [dev]) (by rw [dev])
  | readSetKeys | readEvaluate | readSignal | readCopy | readFinish =>
    obtain ⟨files, exit, h, k, dev⟩ := step_running (.inl (by exact Option.some_ne_none _)) st
    exact inv.frame files exit (by rw [dev]) (by rw [dev]) (by rw [dev])

/-- A handler registered past the wait is what must not be. -/
lemma not_safe {s : Sys} (past : s.exit = .deregister) (ne : s.dev.actions ≠ 0) : ¬ Safe s :=
  fun safe => ne (safe (.inl past))

/-- A completion lets the waiting `keylog_driver_exit` pass, whoever else has the device open. -/
lemma exitWait_passes {s : Sys} (waiting : s.exit = .waiting) (ne : s.dev.completion ≠ 0)
    (acts : s.dev.actions ≠ 0) : ∃ s2, step s .exitWait = some s2 ∧ ¬ Safe s2 := by
  refine ⟨_, ?_, not_safe (s := { s with
    dev := { s.dev with completion := s.dev.completion - 1 }, exit := .deregister }) rfl acts⟩
  rw [step, if_pos ⟨waiting, ne⟩]

/-- So does a completion that is there when `keylog_driver_exit` is called, or `intr_registered`
    having wrapped to 0. -/
lemma exitTest_passes {s : Sys} (idle : s.exit = .idle)
    (ahead : s.dev.intrRegistered = 0 ∨ s.dev.completion ≠ 0) (acts : s.dev.actions ≠ 0) :
    ∃ es s2, (∀ e ∈ es, Successful e) ∧ run step s es = some s2 ∧ ¬ Safe s2 := by
  by_cases zero : s.dev.intrRegistered ≠ 0
  · obtain ⟨s2, st, bad⟩ := exitWait_passes (s := { s with exit := .waiting }) rfl
      (ahead.resolve_left zero) acts
    refine ⟨[.exitTest, .exitWait], s2, by simp [Successful], ?_, bad⟩
    rw [run_cons, step, if_pos idle, if_pos zero]
    exact run_singleton.trans st
  · refine ⟨[.exitTest], { s with exit := .deregister }, by simp [Successful], ?_,
      not_safe rfl acts⟩
    rw [run_singleton, step, if_pos idle, if_neg zero]

/-- From the first step that is not orderly, `keylog_driver_exit` can get past a registered handler.
    -/
lemma UnloadInv.escape {s s1 : Sys} {e} (inv : UnloadInv s) (ok : Successful e)
    (bad : ¬ Orderly s e) (st : Keylog.step s e = some s1) :
    ∃ es s2, (∀ e' ∈ es, Successful e') ∧ run Keylog.step s1 es = some s2 ∧ ¬ Safe s2 := by
  cases e with
  | keylogOpen irqOk =>
    cases ok
    obtain ⟨late, rfl⟩ := step_keylogOpen st
    -- away from `misc_deregister` this is the open that makes `intr_registered` wrap to 0
    have wrap : s.exit ≠ .deregister → s.files + 1 = 2 ^ 32 := by
      intro ne
      have bound := inv.bound
      have top : ¬ s.files + 1 < 2 ^ 32 := fun lt => bad ⟨lt, ne⟩
      omega
    cases pc : s.exit with
    | done => exact absurd pc late
    | deregister => exact ⟨[], _, List.forall_mem_nil _, rfl, not_safe rfl (Nat.succ_ne_zero _)⟩
    | idle =>
      refine exitTest_passes rfl (.inl ?_) (Nat.succ_ne_zero _)
      change s.dev.intrRegistered + 1 = 0
      rw [inv.counter, show (1 : BitVec 32) = BitVec.ofNat 32 1 from rfl, ← BitVec.ofNat_add,
        wrap (by rw [pc]; decide)]
      rfl
    | waiting =>
      -- the close of this very file completes, while all the others are still open
      have acts : s.dev.actions ≠ 0 := by
        have top := wrap (by rw [pc]; decide)
        rw [inv.handlers]
        omega
      obtain ⟨s2, st2, escaped⟩ := exitWait_passes (s := { s with
        dev := keylogClose (keylogOpen s.dev true), files := s.files, exit := .waiting })
        rfl (Nat.succ_ne_zero _) acts
      refine ⟨[.keylogClose, .exitWait], s2, by simp [Successful], ?_, escaped⟩
      rw [run_cons, Keylog.step, if_neg (Nat.succ_ne_zero _)]
      exact run_singleton.trans st2
  | keylogClose =>
    obtain ⟨open_, rfl⟩ := step_keylogClose st
    have acts : s.dev.actions - 1 ≠ 0 := by
      have ne : s.files ≠ 1 := bad
      rw [inv.handlers]
      omega
    cases pc : s.exit with
    | idle => exact exitTest_passes rfl (.inr (Nat.succ_ne_zero _)) acts
    | waiting =>
      obtain ⟨s2, st2, escaped⟩ := exitWait_passes (s := { s with
        dev := keylogClose s.dev, files := s.files - 1, exit := .waiting })
        rfl (Nat.succ_ne_zero _) acts
      exact ⟨[.exitWait], s2, by simp [Successful], run_singleton.trans st2, escaped⟩
    | deregister => exact absurd (inv.past (.inl pc)) open_
    | done => exact absurd (inv.past (.inr pc)) open_
  | _ => exact absurd trivial bad

/-- After orderly steps `keylog_driver_exit` has not got past its wait while a handler is
    registered, and every other step opens a way to a state in which it has. -/
theorem unload_safe {es s} (ok : Admits (fun s e => Successful e ∧ Orderly s e) step .init es)
    (go : run step .init es = some s) :
    Safe s ∧ ∀ e s1, Successful e → ¬ Orderly s e → step s e = some s1 →
      ∃ es' s2, (∀ e' ∈ es', Successful e') ∧ run step s1 es' = some s2 ∧ ¬ Safe s2 := by
  have inv : UnloadInv s := ok.invariant UnloadInv.step UnloadInv.init go
  exact ⟨inv.safe, fun e s1 success bad st => inv.escape success bad st⟩

/-- One file, closed while `keylog_driver_exit` waits. -/
theorem unload_safe_one_file :
    ∃ s, run step .init [.keylogOpen true, .exitTest, .keylogClose, .exitWait] = some s ∧
      s.exit = .deregister ∧ s.dev.actions = 0 := by
  have ok : Admits (fun s e => Successful e ∧ Orderly s e) step .init
      [.keylogOpen true, .exitTest, .keylogClose, .exitWait] := by
    refine ⟨⟨rfl, by decide, by decide⟩, fun s1 st1 => ?_⟩
    cases st1
    refine ⟨⟨trivial, trivial⟩, fun s2 st2 => ?_⟩
    cases st2
    refine ⟨⟨trivial, rfl⟩, fun s3 st3 => ⟨⟨trivial, trivial⟩, fun s4 st4 => trivial⟩⟩
  exact ⟨_, rfl, rfl, (unload_safe ok rfl).1 (.inl rfl)⟩

/-- Two files, one of them closed: `keylog_driver_exit` gets to `misc_deregister` with the handler
    of the other one registered. -/
theorem unload_not_safe :
    ∃ s, run step .init [.keylogOpen true, .keylogOpen true, .keylogClose, .exitTest, .exitWait] =
      some s ∧ s.exit = .deregister ∧ s.dev.actions = 1 := by
  exact ⟨_, rfl, rfl, rfl⟩

end KernelModules.Keylog
