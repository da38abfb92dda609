import KernelModules.Keylog.Unload

/-!
# The handlers of the keylogger

`keylog_open` of `keyboard_interrupt_misc_device.c` registers one more handler for every open file,
and all of them work on the same `kbuf` and `keys`. It counts an open also when `request_irq` has
failed.

* `one_store_iff`: an interrupt stores one scancode exactly when one file is open and there is a
  buffer.
* `handlers_counted_iff`: `intr_registered` counts the handlers along a run exactly when every
  `request_irq` succeeds and the counter does not overflow.
-/

namespace KernelModules.Keylog

/-! ## The stores of one interrupt -/

/-- The stores that the handler calls of an interrupt make. -/
def interruptStores (d : Dev) : List UInt8 → List Store
  | [] => []
  | sc :: scs => (handlerStore d sc).toList ++ interruptStores (testirqHandler d sc).1 scs

/-- One store for each scancode, unless there is no buffer. -/
lemma interruptStores_length {d : Dev} {scs} :
    (interruptStores d scs).length = if d.kbuf = .null then 0 else scs.length := by
  induction scs generalizing d with
  | nil => simp [interruptStores]
  | cons sc scs ih =>
    obtain ⟨h, k, e⟩ := testirqHandler_frame d sc
    rw [interruptStores, List.length_append, ih, e]
    by_cases null : d.kbuf = .null
    · simp [handlerStore, null]
    · simp [handlerStore, null, Nat.add_comm]

/-- As long as every `request_irq` succeeds, each open file has its handler. -/
lemma run_actions {es s} (ok : ∀ e ∈ es, Successful e) (go : run step .init es = some s) :
    s.dev.actions = s.files := by
  refine run_invariant (P := fun s => s.dev.actions = s.files) ?_ rfl ok go
  intro s e s' inv success st
  cases e with
  | keylogOpen irqOk =>
    cases success
    obtain ⟨-, rfl⟩ := step_keylogOpen st
    exact congrArg (· + 1) inv
  | keylogClose =>
    obtain ⟨-, rfl⟩ := step_keylogClose st
    exact congrArg (· - 1) inv
  | _ =>
    obtain ⟨files, acts, -⟩ := step_handlers st (fun ok e => by cases e) fun e => by cases e
    rw [files, acts]
    exact inv

/-- An interrupt stores one scancode and lowers `keys` by one exactly when one file is open and
    there is a buffer. -/
theorem one_store_iff {es s scs s'} (ok : ∀ e ∈ es, Successful e)
    (go : run step .init es = some s) (st : step s (.interrupt scs) = some s') :
    ((interruptStores s.dev scs).length = 1 ∧ s'.dev.keys = s.dev.keys - 1) ↔
      s.files = 1 ∧ s.dev.kbuf ≠ .null := by
  obtain ⟨len, dev, -⟩ := step_interrupt st
  rw [run_actions ok go] at len
  rw [interruptStores_length, dev, interrupt_keys, len]
  constructor
  · rintro ⟨one, -⟩
    split at one
    case isTrue => cases one
    case isFalse buf => exact ⟨one, buf⟩
  · rintro ⟨one, buf⟩
    rw [if_neg buf, if_neg buf, one]
    exact ⟨rfl, rfl⟩

/-- One file, and a read that wants two keys. -/
theorem one_store_of_one_file :
    ∃ s s', run step .init [.keylogOpen true, .readEnter 0 2 (some (5, [0, 0])), .readSetKeys 0] =
        some s ∧ step s (.interrupt [30]) = some s' ∧
      (interruptStores s.dev [30]).length = 1 ∧ s'.dev.keys = s.dev.keys - 1 := by
  have ok : ∀ e ∈ [Event.keylogOpen true, .readEnter 0 2 (some (5, [0, 0])), .readSetKeys 0],
      Successful e := by
    simp [Successful]
  exact ⟨_, _, rfl, rfl, (one_store_iff ok rfl rfl).mpr ⟨rfl, buf_ne_null⟩⟩

/-- Two files, and a read that wants three keys: one interrupt makes two stores and leaves one
    key. -/
theorem two_stores_of_two_files :
    ∃ s s', run step .init [.keylogOpen true, .keylogOpen true,
        .readEnter 0 3 (some (5, [0, 0, 0])), .readSetKeys 0] = some s ∧ s.dev.keys = 3 ∧
      step s (.interrupt [30, 30]) = some s' ∧
      interruptStores s.dev [30, 30] = [⟨.buf 5, 3, 30⟩, ⟨.buf 5, 2, 30⟩] ∧ s'.dev.keys = 1 := by
  exact ⟨_, _, rfl, rfl, rfl, rfl, rfl⟩

/-! ## The handler count -/

/-- What keeps the count right: `request_irq` succeeds, and fewer than `2 ^ 31` files are open. -/
def Registers (s : Sys) : Event → Prop
  | .keylogOpen irqOk => irqOk = true ∧ s.files + 1 < 2 ^ 31
  | _ => True

/-- The files, the handlers and the counter agree. -/
structure Counted (s : Sys) : Prop where
  handlers : s.dev.actions = s.files
  counter : s.dev.intrRegistered = BitVec.ofNat 32 s.files
  bound : s.files < 2 ^ 31

/-- A count below `2 ^ 31` is not negative as an `int`. -/
lemma toInt_ofNat_of_lt {n : Nat} (lt : n < 2 ^ 31) : (BitVec.ofNat 32 n).toInt = n := by
  have val : (BitVec.ofNat 32 n).toNat = n := by
    rw [BitVec.toNat_ofNat, Nat.mod_eq_of_lt (by omega)]
  rw [BitVec.toInt_eq_toNat_of_lt (by omega), val]

/-- `intr_registered` is the number of handlers. -/
lemma Counted.toInt_eq {s} (inv : Counted s) : s.dev.intrRegistered.toInt = s.dev.actions := by
  rw [inv.counter, toInt_ofNat_of_lt inv.bound, inv.handlers]

/-- One more file, one more in `intr_registered`. -/
lemma Counted.opened {s} (inv : Counted s) :
    s.dev.intrRegistered + 1 = BitVec.ofNat 32 (s.files + 1) := by
  rw [inv.counter, BitVec.ofNat_add]
  rfl

/-- Steps that register their handler keep the count. -/
lemma Counted.step {s e s'} (inv : Counted s) (ok : Registers s e) (st : step s e = some s') :
    Counted s' := by
  cases e with
  | keylogOpen irqOk =>
    obtain ⟨rfl, bound⟩ := ok
    obtain ⟨-, rfl⟩ := step_keylogOpen st
    exact ⟨congrArg (· + 1) inv.handlers, inv.opened, bound⟩
  | keylogClose =>
    obtain ⟨open_, rfl⟩ := step_keylogClose st
    obtain ⟨n, e⟩ := Nat.exists_eq_succ_of_ne_zero open_
    refine ⟨congrArg (· - 1) inv.handlers, ?_, Nat.lt_of_le_of_lt (Nat.sub_le ..) inv.bound⟩
    change s.dev.intrRegistered - 1 = BitVec.ofNat 32 (s.files - 1)
    rw [inv.counter, e, Nat.succ_sub_one, Nat.succ_eq_add_one, BitVec.ofNat_add]
    exact BitVec.add_sub_cancel ..
  | _ =>
    obtain ⟨files, acts, counter⟩ := step_handlers st (fun ok e => by cases e) fun e => by cases e
    refine ⟨?_, ?_, ?_⟩
    · rw [acts, files]
      exact inv.handlers
    · rw [counter, files]
      exact inv.counter
    · rw [files]
      exact inv.bound

/-- An open that does not register is counted all the same, or overflows the counter. -/
lemma Counted.miscounts {s e s'} (inv : Counted s) (bad : ¬ Registers s e)
    (st : Keylog.step s e = some s') : s'.dev.intrRegistered.toInt ≠ s'.dev.actions := by
  cases e with
  | keylogOpen irqOk =>
    obtain ⟨-, rfl⟩ := step_keylogOpen st
    change (s.dev.intrRegistered + 1).toInt ≠
      ((if irqOk then s.dev.actions + 1 else s.dev.actions : Nat) : Int)
    rw [inv.opened, inv.handlers]
    by_cases small : s.files + 1 < 2 ^ 31
    · rw [toInt_ofNat_of_lt small]
      cases irqOk with
      | true => exact absurd ⟨rfl, small⟩ bad
      | false =>
        rw [if_neg Bool.false_ne_true]
        omega
    · -- the counter becomes negative
      have bound := inv.bound
      have top : s.files + 1 = 2 ^ 31 := by omega
      rw [top]
      exact Int.ne_of_lt (Int.lt_of_lt_of_le (by decide) (Int.natCast_nonneg _))
  | _ => exact absurd trivial bad

/-- Along a run `intr_registered` equals the number of handlers, and no close calls `free_irq`
    without one, exactly when every open registers its handler and fewer than `2 ^ 31` files are
    open. -/
theorem handlers_counted_iff {es s} (go : run step .init es = some s) :
    ((∀ pre s', pre <+: es → run step .init pre = some s' →
        s'.dev.intrRegistered.toInt = s'.dev.actions) ∧
      ∀ pre s', pre ++ [.keylogClose] <+: es → run step .init pre = some s' →
        s'.dev.actions ≠ 0) ↔
    Admits Registers step .init es := by
  have base : Counted .init := ⟨rfl, rfl, by decide⟩
  constructor
  · rintro ⟨counts, -⟩
    rcases admits_or_first Registers go with ad | ⟨pre, e, post, s1, s2, rfl, ad, r1, bad, st⟩
    · exact ad
    · have inv := ad.invariant Counted.step base r1
      have r2 := run_snoc.mpr ⟨s1, r1, st⟩
      have same := counts (pre ++ [e]) s2 ⟨post, by simp⟩ r2
      exact absurd same (inv.miscounts bad st)
  · intro ad
    refine ⟨?_, ?_⟩
    · rintro pre s' ⟨post, rfl⟩ go'
      exact (ad.of_append.invariant Counted.step base go').toInt_eq
    · rintro pre s' ⟨post, rfl⟩ go'
      rw [List.append_assoc] at ad
      have inv := ad.of_append.invariant Counted.step base go'
      -- a close happens only while a file is open
      obtain ⟨s1, r1, -⟩ := run_split go
      obtain ⟨s2, r2, st⟩ := run_snoc.mp r1
      cases go'.symm.trans r2
      rw [inv.handlers]
      exact (step_keylogClose st).1

/-- Two opens and a close. -/
theorem handlers_counted_of_two_files :
    ∃ s, run step .init [.keylogOpen true, .keylogOpen true, .keylogClose] = some s ∧
      s.dev.intrRegistered.toInt = s.dev.actions := by
  have ad : Admits Registers step .init [.keylogOpen true, .keylogOpen true, .keylogClose] := by
    refine ⟨⟨rfl, by decide⟩, fun s1 st1 => ?_⟩
    cases st1
    exact ⟨⟨rfl, by decide⟩, fun s2 st2 => ⟨trivial, fun s3 st3 => trivial⟩⟩
  exact ⟨_, rfl, ((handlers_counted_iff rfl).mpr ad).1 _ _ (List.prefix_refl _) rfl⟩

/-- The only `request_irq` fails: the count is 1 without a handler, and the close calls `free_irq`
    without one. -/
theorem handlers_miscounted :
    ∃ s s', run step .init [.keylogOpen false] = some s ∧ s.dev.intrRegistered.toInt = 1 ∧
      s.dev.actions = 0 ∧ step s .keylogClose = some s' := by
  exact ⟨_, _, rfl, rfl, rfl, rfl⟩

end KernelModules.Keylog
