import KernelModules.Keylog.Steps

/-!
# The buffer pointer of an idle keylogger

`testirq_handler` of `keyboard_interrupt_misc_device.c` stores nothing while `kbuf` is `NULL`. No
path through `keylog_read` sets `kbuf` back: it keeps what the last `kmalloc` returned (`run_kbuf`),
also when the buffer has been freed. `idle_kbuf_null_iff` says when an idle device has no target all
the same.
-/

namespace KernelModules.Keylog

/-- The arguments of a read that is entered, with the answer of its `kmalloc`. -/
def Event.entered : Event → Option (BitVec 64 × Option (Loc × List UInt8))
  | .readEnter _ len ans => some (len, ans)
  | _ => none

/-- The read of a run that was entered last. -/
def lastRead (es : List Event) : Option (BitVec 64 × Option (Loc × List UInt8)) :=
  es.foldl (fun last e => e.entered <|> last) none

/-- No read was entered yet, or the `kmalloc` of the last one failed. -/
def Refused (es : List Event) : Prop :=
  ∀ len ans, lastRead es = some (len, ans) → len ≠ 0 ∧ ans = none

/-- `kmalloc` returns null when it fails for a length other than 0. -/
lemma kmalloc_null_iff {d d' : Dev} {len ans p} (alloc : d.kmalloc len ans = some (p, d')) :
    p = .null ↔ len ≠ 0 ∧ ans = none := by
  rcases kmalloc_cases alloc with ⟨zero, rfl, -⟩ | ⟨ne, rfl, rfl, -⟩ | ⟨-, l, junk, -, rfl, rfl, -⟩
  · refine ⟨fun e => ?_, fun failed => absurd zero failed.1⟩
    cases e
  · exact ⟨fun _ => ⟨ne, rfl⟩, fun _ => rfl⟩
  · exact ⟨fun e => absurd e buf_ne_null, fun failed => absurd failed.2 (Option.some_ne_none _)⟩

/-- Only entering a read changes `kbuf`. -/
lemma step_kbuf {s s' : Sys} {e} (st : step s e = some s') (none : e.entered = none) :
    s'.dev.kbuf = s.dev.kbuf := by
  cases e with
  | readEnter r len ans => cases none
  | interrupt scs =>
    obtain ⟨-, -, h, k, dev⟩ := step_running (.inr ⟨scs, rfl⟩) st
    rw [dev]
  | readSetKeys | readEvaluate | readSignal | readCopy | readFinish =>
    obtain ⟨-, -, h, k, dev⟩ := step_running (.inl (by exact Option.some_ne_none _)) st
    rw [dev]
  | keylogOpen | keylogClose | exitTest | exitWait | exitDeregister => exact (step_quiet rfl st).2.1

/-- Along every run `kbuf` is `NULL` exactly when the last `kmalloc` said so. -/
lemma run_kbuf {es s} (go : run step .init es = some s) : s.dev.kbuf = .null ↔ Refused es := by
  have base : Sys.init.dev.kbuf = .null ↔ Refused [] := by
    refine ⟨fun _ len ans e => ?_, fun _ => rfl⟩
    cases e
  refine run_induction (P := fun es s => s.dev.kbuf = .null ↔ Refused es) base
    (fun {es s e s'} _ inv st => ?_) go
  have last : lastRead (es ++ [e]) = (e.entered <|> lastRead es) := List.foldl_concat ..
  unfold Refused
  rw [last]
  cases entered : e.entered with
  | none =>
    rw [step_kbuf st entered]
    exact inv
  | some args =>
    cases e with
    | readEnter r len ans =>
      cases entered
      obtain ⟨p, d, alloc, rfl⟩ := step_readEnter st
      refine (kmalloc_null_iff alloc).trans ⟨?_, fun all => all len ans rfl⟩
      rintro refused len' ans' ⟨⟩
      exact refused
    | _ => cases entered

/-- A handler stores nothing exactly when `kbuf` is null. -/
lemma handlerStore_eq_none {d : Dev} {sc} : handlerStore d sc = none ↔ d.kbuf = .null := by
  unfold handlerStore
  split
  case isTrue null => exact ⟨fun _ => null, fun _ => rfl⟩
  case isFalse ne => exact ⟨fun e => absurd e (Option.some_ne_none _), fun null => absurd null ne⟩

/-- Along a run the device has no target whenever it is idle, exactly when, whenever it is idle, no
    read was entered yet or the `kmalloc` of the last one failed. -/
theorem idle_kbuf_null_iff (es : List Event) :
    (∀ pre s', pre <+: es → run step .init pre = some s' → s'.Idle →
      s'.dev.kbuf = .null ∧ ∀ sc, handlerStore s'.dev sc = none) ↔
    (∀ pre s', pre <+: es → run step .init pre = some s' → s'.Idle → Refused pre) := by
  constructor
  · intro safe pre s' le go' idle
    exact (run_kbuf go').mp (safe pre s' le go' idle).1
  · intro refused pre s' le go' idle
    have null := (run_kbuf go').mpr (refused pre s' le go' idle)
    exact ⟨null, fun sc => handlerStore_eq_none.mpr null⟩

/-- One byte is read: the idle device keeps pointing at the buffer it has freed, and the next
    handler call stores there. -/
theorem idle_kbuf_dangling :
    ∃ s, run step .init [.keylogOpen true, .readEnter 0 1 (some (5, [0])), .readSetKeys 0,
        .readEvaluate 0, .interrupt [30], .readEvaluate 0, .readCopy 0 true, .readFinish 0] =
          some s ∧
      s.Idle ∧ s.dev.heap.get 5 = none ∧ handlerStore s.dev 31 = some ⟨.buf 5, 0, 31⟩ := by
  refine ⟨_, rfl, fun r => ?_, rfl, rfl⟩
  cases r with
  | zero => rfl
  | succ r => rfl

end KernelModules.Keylog
