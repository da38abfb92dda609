import KernelModules.Keylog.Delivery

/-!
# The test program of the keylogger

Model of `keyboard_interrupt_misc_device_test.c`, run after run on one driver: `main` opens the
device, reads 10 bytes, writes what it has got to its standard output and closes the device. The
keys arrive while the read is in progress: one at most between the `kmalloc` and `keys = len` of
`keylog_read`, and ten afterwards, any number of them before the read looks at `keys` for the first
time.

The first of the ten scancodes is stored at index 10. `kmalloc` takes the buffer from its objects of
16 bytes, so that the store goes to the rest of the same object.
-/

namespace KernelModules.Keylog

/-- One run of the test program: the buffer that `kmalloc` returns with what it contains, the
    scancode that comes before `keys` is set, those that come afterwards, and how many of them come
    before the first test. -/
structure Session where
  buf : Loc
  junk : List UInt8
  early : Option UInt8
  codes : List UInt8
  awake : Nat

namespace Session

/-- The buffer has 10 bytes, and 10 keys are pressed. -/
structure Ok (x : Session) : Prop where
  junk : x.junk.length = 10
  codes : x.codes.length = 10
  awake : x.awake ≤ 10

/-- One interrupt for each scancode. -/
def irqs (codes : List UInt8) : List Event := codes.map fun code => .interrupt [code]

/-- The events of the wait in `keylog_read`. The read goes to sleep, unless all keys have come when
    it looks. -/
def wait (x : Session) : List Event :=
  if x.awake = 10 then irqs x.codes ++ [.readEvaluate 0]
  else irqs (x.codes.take x.awake) ++ .readEvaluate 0 :: irqs (x.codes.drop x.awake) ++
    [.readEvaluate 0]

/-- `main` up to the `copy_to_user` of its `read`. -/
def received (x : Session) : List Event :=
  [.keylogOpen true, .readEnter 0 10 (some (x.buf, x.junk))] ++ irqs x.early.toList ++
    [.readSetKeys 0] ++ x.wait ++ [.readCopy 0 true]

/-- `main` as a whole (C `main`). -/
def main (x : Session) : List Event := x.received ++ [.readFinish 0, .keylogClose]

/-- What `main` writes to its standard output: one byte that is not one of the ten scancodes, and
    all of them but the first one in reverse order. -/
def output (x : Session) : List UInt8 := (x.early.toList ++ x.junk).take 1 ++ x.codes.tail.reverse

end Session

/-- The driver when no file is open. -/
def resting (d : Dev) : Sys := ⟨d, 0, fun _ => none, .idle⟩

/-- The driver while the test program is in its call of `keylog_read`. -/
def reading (d : Dev) (c : Reader) : Sys :=
  ⟨d, 1, Function.update (fun _ => none) 0 (some c), .idle⟩

/-- The test program has left nothing behind: no buffer and no handler, and `keys` is 0. -/
structure Quiet (d : Dev) : Prop where
  keys : d.keys = 0
  heap : ∀ l, d.heap.get l = none
  actions : d.actions = 0
  intrRegistered : d.intrRegistered = 0

/-- The call after a wake-up. -/
def Reader.woken (c : Reader) : Reader := if c.pc = .asleep then { c with pc := .evaluate } else c

section
variable {d : Dev} {c : Reader} {codes : List UInt8}

/-- The read of the test program. -/
lemma reading_self : (reading d c).readers 0 = some c := by
  simp [reading]

/-- There is no other read. -/
lemma reading_other {r} (other : r ≠ 0) : (reading d c).readers r = none := by
  simp [reading, other]

/-- Its next place. -/
lemma reading_setReader {c'} : (reading d c).setReader 0 (some c') = reading d c' := by
  unfold reading Sys.setReader
  rw [Function.update_idem]

/-- A wake-up of all readers wakes this one. -/
lemma reading_wakeUp : (reading d c).wakeUp = reading d c.woken := by
  have readers : (reading d c).wakeUp.readers = (reading d c.woken).readers := by
    funext r
    show ((reading d c).readers r).map Reader.woken = _
    by_cases e : r = 0
    · rw [e, reading_self, reading_self, Option.map_some]
    · rw [reading_other e, reading_other e, Option.map_none]
  exact congrArg (fun f => (⟨d, 1, f, .idle⟩ : Sys)) readers

/-- A statement of the read that does not end it. -/
lemma step_own {e d' c'} (own : e.reader = some 0) (st : readStep d c e = some (d', some c')) :
    step (reading d c) e = some (reading d' c') := by
  have next : ({ reading d c with dev := d' } : Sys).setReader 0 (some c') = reading d' c' :=
    reading_setReader
  cases e with
  | keylogOpen | keylogClose | readEnter | interrupt | exitTest | exitWait | exitDeregister =>
    cases own
  | readSetKeys | readEvaluate | readSignal | readCopy | readFinish =>
    cases own
    rw [← next]
    simp [step, Event.reader, reading_self, show (reading d c).dev = d from rfl, st]

/-! ## Keys -/

/-- One key with one handler: the handler runs, and may wake the read. -/
lemma step_irq {code} (acts : d.actions = 1) :
    step (reading d c) (.interrupt [code]) =
      some (reading (testirqHandler d code).1
        (if (testirqHandler d code).2.2 then c.woken else c)) := by
  have go : step (reading d c) (.interrupt [code]) =
      some (if (testirqHandler d code).2.2 || false
        then (reading (testirqHandler d code).1 c).wakeUp
        else reading (testirqHandler d code).1 c) := if_pos acts.symm
  rw [go, Bool.or_false, reading_wakeUp]
  split <;> rfl

/-- The handler stays registered. -/
lemma testirqHandler_actions {code} : (testirqHandler d code).1.actions = d.actions := by
  obtain ⟨h, k, e⟩ := testirqHandler_frame d code
  rw [e]

/-- Keys that are pressed while the read is not asleep. -/
lemma run_irqs_awake (acts : d.actions = 1) (awake : c.pc ≠ .asleep) :
    run step (reading d c) (Session.irqs codes) = some (reading (interrupt d codes).1 c) := by
  have same : c.woken = c := if_neg awake
  induction codes generalizing d with
  | nil => rfl
  | cons code codes ih =>
    rw [Session.irqs, List.map_cons, run_cons, step_irq acts, same, ite_self, Option.bind_some]
    exact ih (testirqHandler_actions.trans acts)

/-- Keys that are pressed while the read is asleep: the last one that is wanted wakes it. -/
lemma run_irqs_asleep (acts : d.actions = 1) (sleeps : c.pc = .asleep) (buf : d.kbuf ≠ .null)
    (keys : d.keys.toNat = codes.length) (pos : codes ≠ []) :
    run step (reading d c) (Session.irqs codes) =
      some (reading (interrupt d codes).1 { c with pc := .evaluate }) := by
  induction codes generalizing d with
  | nil => exact absurd rfl pos
  | cons code codes ih =>
    have less : (d.keys - 1).toNat = codes.length := by
      rw [BitVec.toNat_sub_of_le (BitVec.le_def.mpr (by rw [keys]; exact Nat.succ_pos _)), keys]
      rfl
    have wakes : (testirqHandler d code).2.2 = decide (d.keys - 1 = 0) := by
      rw [testirqHandler_store buf]
    have left : (testirqHandler d code).1.keys = d.keys - 1 := by
      rw [testirqHandler_store buf]
    have kbuf : (testirqHandler d code).1.kbuf = d.kbuf := by
      show (interrupt d [code]).1.kbuf = d.kbuf
      exact interrupt_kbuf
    rw [Session.irqs, List.map_cons, run_cons, step_irq acts, wakes, Option.bind_some]
    cases codes with
    | nil =>
      rw [decide_eq_true (BitVec.eq_of_toNat_eq less), if_pos rfl, Reader.woken, if_pos sleeps]
      rfl
    | cons code' codes =>
      have more : d.keys - 1 ≠ 0 := by
        intro zero
        rw [zero] at less
        cases less
      rw [decide_eq_false more, if_neg Bool.false_ne_true]
      exact ih (testirqHandler_actions.trans acts) (kbuf ▸ buf) (left ▸ less)
        (List.cons_ne_nil code' codes)

/-! ## One run of the program -/

/-- The test `keys == 0` of the read. -/
lemma step_evaluate (pc : c.pc = .evaluate) :
    step (reading d c) (.readEvaluate 0) =
      some (reading d { c with pc := if d.keys = 0 then .copy else .asleep }) :=
  step_own rfl (if_pos pc)

/-- The wait: when the last key has come, the read goes on. -/
lemma run_wait {x : Session} (ok : x.Ok) (acts : d.actions = 1) (buf : d.kbuf ≠ .null)
    (keys : d.keys = 10) (pc : c.pc = .evaluate) :
    run step (reading d c) x.wait =
      some (reading (interrupt d x.codes).1 { c with pc := .copy }) := by
  have awake : c.pc ≠ .asleep := by
    rw [pc]
    decide
  have zero : (interrupt d x.codes).1.keys = 0 := by
    rw [interrupt_keys, if_neg buf, keys, ok.codes]
    rfl
  unfold Session.wait
  split
  case isTrue =>
    rw [run_append, run_irqs_awake acts awake, Option.bind_some, run_singleton, step_evaluate pc,
      zero, if_pos rfl]
  case isFalse ne =>
    have split_ : x.codes.take x.awake ++ x.codes.drop x.awake = x.codes := List.take_append_drop ..
    have taken : (x.codes.take x.awake).length = x.awake := by
      rw [List.length_take, ok.codes, Nat.min_eq_left ok.awake]
    have dropped : (x.codes.drop x.awake).length = 10 - x.awake := by
      rw [List.length_drop, ok.codes]
    have lt : x.awake < 10 := Nat.lt_of_le_of_ne ok.awake ne
    let d1 := (interrupt d (x.codes.take x.awake)).1
    have keys1 : d1.keys.toNat = 10 - x.awake := by
      rw [interrupt_keys, if_neg buf, keys, taken]
      rw [BitVec.toNat_sub_of_le (BitVec.le_def.mpr (by simp; omega))]
      simp
      omega
    have more : d1.keys ≠ 0 := by
      intro e
      rw [e] at keys1
      simp at keys1
      omega
    have acts1 : d1.actions = 1 := by
      obtain ⟨h, k, e⟩ := interrupt_frame d (x.codes.take x.awake)
      exact (congrArg Dev.actions e).trans acts
    have rest : x.codes.drop x.awake ≠ [] := by
      rw [ne_eq, List.drop_eq_nil_iff, ok.codes]
      omega
    have whole : (interrupt d1 (x.codes.drop x.awake)).1 = (interrupt d x.codes).1 := by
      rw [← interrupt_append, split_]
    have buf1 : d1.kbuf ≠ .null := by
      rw [interrupt_kbuf]
      exact buf
    have woken :=
      run_irqs_asleep (c := { c with pc := .asleep }) acts1 rfl buf1 (keys1.trans dropped.symm) rest
    rw [run_append, run_append, run_irqs_awake acts awake, Option.bind_some, run_cons,
      step_evaluate pc, if_neg more, Option.bind_some, woken, whole, Option.bind_some,
      run_singleton, step_evaluate rfl, zero, if_pos rfl]

/-- `keylog_open`, and the `kmalloc` of the read. -/
lemma run_enter {x : Session} (ok : x.Ok) (free : d.heap.get x.buf = none) :
    run step (resting d) [.keylogOpen true, .readEnter 0 10 (some (x.buf, x.junk))] =
      some (reading
        { keylogOpen d true with heap := d.heap.alloc x.buf x.junk free, kbuf := .buf x.buf }
        ⟨10, .buf x.buf, .setKeys⟩) := by
  have free' : (keylogOpen d true).heap.get x.buf = none := free
  have alloc : (keylogOpen d true).kmalloc 10 (some (x.buf, x.junk)) =
      some (.buf x.buf, { keylogOpen d true with heap := d.heap.alloc x.buf x.junk free }) := by
    unfold Dev.kmalloc
    rw [if_neg (by decide)]
    simp only [dif_pos free', ok.junk]
    rfl
  have opened : step (resting d) (.keylogOpen true) =
      some ⟨keylogOpen d true, 1, fun _ => none, .idle⟩ := rfl
  rw [run_cons, opened, Option.bind_some, run_singleton, step, if_pos ⟨Nat.one_ne_zero, rfl⟩]
  show ((keylogOpen d true).kmalloc 10 (some (x.buf, x.junk))).map _ = _
  rw [alloc]
  rfl

/-- The end of the read, and `keylog_close`. -/
lemma run_leave {p bytes} (pc : c.pc = .finish p bytes) :
    run step (reading d c) [.readFinish 0, .keylogClose] =
      some (resting (keylogClose (d.kfree d.kbuf))) := by
  have none_left : Function.update (reading d c).readers 0 none = fun _ => none := by
    rw [reading, Function.update_idem, Function.update_eq_self_iff]
  have fin :
      step (reading d c) (.readFinish 0) = some ⟨d.kfree d.kbuf, 1, fun _ => none, .idle⟩ := by
    rw [← none_left]
    simp [step, Event.reader, reading_self, readStep, pc, Sys.setReader]
    exact ⟨rfl, rfl, rfl⟩
  rw [run_cons, fin]
  rfl

/-- The buffer when `keys` is set: its first byte is the scancode that came before, if one did. -/
lemma take_early {x : Session} (ok : x.Ok) :
    (fillDown x.junk (0 : BitVec 32) x.early.toList).take 1 =
      (x.early.toList ++ x.junk).take 1 := by
  cases x.early with
  | none => rfl
  | some code =>
    cases e : x.junk with
    | nil =>
      have size := ok.junk
      rw [e] at size
      cases size
    | cons b bs => rfl

/-- The driver while the read waits for `keys` to become 0: the buffer holds `data`, and it is the
    only one. -/
structure Armed (x : Session) (keys : BitVec 32) (data : List UInt8) (d : Dev) : Prop where
  keys : d.keys = keys
  kbuf : d.kbuf = .buf x.buf
  get : d.heap.get x.buf = some data
  others : ∀ l, l ≠ x.buf → d.heap.get l = none
  actions : d.actions = 1
  intrRegistered : d.intrRegistered = 1

/-- Keys fill the buffer from the end, and count `keys` down. -/
lemma Armed.interrupt {x : Session} {keys data} (codes) (armed : Armed x keys data d) :
    Armed x (keys - BitVec.ofNat 32 codes.length) (fillDown data keys codes)
      (Keylog.interrupt d codes).1 := by
  obtain ⟨h, k, frame⟩ := interrupt_frame d codes
  refine ⟨?_, interrupt_kbuf.trans armed.kbuf, ?_,
    fun l ne => interrupt_live.mpr (armed.others l ne), ?_, ?_⟩
  · rw [interrupt_keys, if_neg (armed.kbuf ▸ buf_ne_null), armed.keys]
  · rw [← armed.keys]
    exact interrupt_get armed.kbuf armed.get
  · exact (congrArg Dev.actions frame).trans armed.actions
  · exact (congrArg Dev.intrRegistered frame).trans armed.intrRegistered

/-- The program up to `keys = len`. -/
lemma run_begun {x : Session} (ok : x.Ok) (quiet : Quiet d) :
    ∃ d', run step (resting d) ([.keylogOpen true, .readEnter 0 10 (some (x.buf, x.junk))] ++
          Session.irqs x.early.toList ++ [.readSetKeys 0]) =
        some (reading d' ⟨10, .buf x.buf, .evaluate⟩) ∧
      Armed x 10 (fillDown x.junk (0 : BitVec 32) x.early.toList) d' := by
  have free := quiet.heap x.buf
  let d1 : Dev :=
    { keylogOpen d true with heap := d.heap.alloc x.buf x.junk free, kbuf := .buf x.buf }
  have armed : Armed x 0 x.junk d1 := by
    refine ⟨quiet.keys, rfl, Heap.get_alloc_self (f := free), fun l ne => ?_, ?_, ?_⟩
    · exact (Heap.get_alloc_of_ne (f := free) ne).trans (quiet.heap l)
    · exact congrArg (· + 1) quiet.actions
    · exact congrArg (· + 1) quiet.intrRegistered
  have after := armed.interrupt x.early.toList
  have set :
      step (reading (interrupt d1 x.early.toList).1 ⟨10, .buf x.buf, .setKeys⟩) (.readSetKeys 0) =
        some (reading { (interrupt d1 x.early.toList).1 with keys := 10 }
          ⟨10, .buf x.buf, .evaluate⟩) :=
    step_own rfl rfl
  refine ⟨{ (interrupt d1 x.early.toList).1 with keys := 10 }, ?_,
    ⟨rfl, after.kbuf, after.get, after.others, after.actions, after.intrRegistered⟩⟩
  have awake : (⟨10, .buf x.buf, .setKeys⟩ : Reader).pc ≠ .asleep := by
    intro e
    cases e
  rw [run_append, run_append, run_enter ok free, Option.bind_some,
    run_irqs_awake armed.actions awake, Option.bind_some, run_singleton, set]

/-- The program up to the `copy_to_user` of its read. -/
lemma run_received {x : Session} (ok : x.Ok) (quiet : Quiet d) :
    ∃ d', run step (resting d) x.received =
        some (reading d' ⟨10, .buf x.buf, .finish (.buf x.buf) (some x.output)⟩) ∧
      Armed x 0 x.output d' := by
  obtain ⟨d1, begun, armed⟩ := run_begun ok quiet
  have filled : fillDown (fillDown x.junk (0 : BitVec 32) x.early.toList) (10 : BitVec 32) x.codes =
      x.output := by
    rw [fillDown_all (by rw [length_fillDown, ok.junk, ok.codes]) (by rw [ok.codes]; rfl)
      (by rw [ok.codes]; decide), take_early ok]
    rfl
  have size : x.output.length = 10 := by
    rw [← filled, length_fillDown, length_fillDown, ok.junk]
  have after : Armed x 0 x.output (interrupt d1 x.codes).1 := by
    have all := armed.interrupt x.codes
    rw [filled, ok.codes] at all
    exact all
  have load : (interrupt d1 x.codes).1.load (.buf x.buf) 10 = some x.output := by
    simp [Dev.load, after.get, size, List.take_of_length_le]
  have waited :=
    run_wait (c := ⟨10, .buf x.buf, .evaluate⟩) ok armed.actions (armed.kbuf ▸ buf_ne_null)
      armed.keys rfl
  have copied : step (reading (interrupt d1 x.codes).1 ⟨10, .buf x.buf, .copy⟩) (.readCopy 0 true) =
      some (reading (interrupt d1 x.codes).1 ⟨10, .buf x.buf,
        .finish (interrupt d1 x.codes).1.kbuf
          ((interrupt d1 x.codes).1.load (interrupt d1 x.codes).1.kbuf 10)⟩) :=
    step_own rfl rfl
  refine ⟨(interrupt d1 x.codes).1, ?_, after⟩
  rw [Session.received, run_append, run_append, begun, Option.bind_some, waited, Option.bind_some,
    run_singleton, copied, after.kbuf, load]

/-- The program as a whole: it leaves nothing behind. -/
lemma run_main {x : Session} (ok : x.Ok) (quiet : Quiet d) :
    ∃ d', run step (resting d) x.main = some (resting d') ∧ Quiet d' := by
  obtain ⟨d1, received, armed⟩ := run_received ok quiet
  refine ⟨keylogClose (d1.kfree d1.kbuf), ?_, ?_⟩
  · rw [Session.main, run_append, received]
    exact run_leave (c := ⟨10, .buf x.buf, .finish (.buf x.buf) (some x.output)⟩) rfl
  rw [armed.kbuf]
  refine ⟨armed.keys, fun l => ?_, congrArg (· - 1) armed.actions,
    congrArg (· - 1) armed.intrRegistered⟩
  by_cases e : l = x.buf
  · rw [e]
    exact Heap.get_free_self
  · exact (Heap.get_free_of_ne e).trans (armed.others l e)

end

/-- The driver has nothing to begin with. -/
lemma quiet_init : Quiet .init := ⟨rfl, fun _ => rfl, rfl, rfl⟩

/-- Runs of the test program leave nothing behind. -/
lemma run_mains {xs : List Session} (ok : ∀ x ∈ xs, x.Ok) :
    ∃ d, run step .init (xs.flatMap Session.main) = some (resting d) ∧ Quiet d := by
  induction xs using List.reverseRecOn with
  | nil => exact ⟨.init, rfl, quiet_init⟩
  | append_singleton xs x ih =>
    obtain ⟨d, go, quiet⟩ := ih fun y mem => ok y (List.mem_append_left _ mem)
    obtain ⟨d', go', quiet'⟩ := run_main (ok x List.mem_concat_self) quiet
    refine ⟨d', ?_, quiet'⟩
    rw [List.flatMap_append, run_append, go, Option.bind_some, List.flatMap_cons, List.flatMap_nil,
      List.append_nil]
    exact go'

/-- The test program can be run any number of times. Every run comes to an end and leaves nothing
    behind; and it writes 10 bytes: the first of them is what was in the buffer, or the scancode
    that came before `keys` was set, and the others are the scancodes after the first one in reverse
    order. -/
theorem test_program_writes {xs : List Session} (ok : ∀ x ∈ xs, x.Ok) :
    (∃ d, run step .init (xs.flatMap Session.main) = some (resting d) ∧ Quiet d) ∧
      ∀ before x after, xs = before ++ x :: after →
        ∃ d, run step .init (before.flatMap Session.main ++ x.received) =
          some (reading d ⟨10, .buf x.buf, .finish (.buf x.buf) (some x.output)⟩) := by
  refine ⟨run_mains ok, ?_⟩
  rintro before x after rfl
  obtain ⟨d, go, quiet⟩ := run_mains fun y mem => ok y (List.mem_append_left _ mem)
  obtain ⟨d', received, -⟩ :=
    run_received (ok x (List.mem_append_right before List.mem_cons_self)) quiet
  refine ⟨d', ?_⟩
  rw [run_append, go]
  exact received

/-- Two runs; in the second one a key is pressed too early, and the read sleeps after the third
    key. -/
theorem test_program_writes_twice :
    ∃ d, run step .init
        (Session.main ⟨5, List.replicate 10 255, none, [1, 2, 3, 4, 5, 6, 7, 8, 9, 10], 10⟩ ++
          Session.received
            ⟨5, List.replicate 10 254, some 42, [11, 12, 13, 14, 15, 16, 17, 18, 19, 20], 3⟩) =
      some (reading d
        ⟨10, .buf 5, .finish (.buf 5) (some [42, 20, 19, 18, 17, 16, 15, 14, 13, 12])⟩) := by
  have ok :
      ∀ x ∈ [(⟨5, List.replicate 10 255, none, [1, 2, 3, 4, 5, 6, 7, 8, 9, 10], 10⟩ : Session),
      ⟨5, List.replicate 10 254, some 42, [11, 12, 13, 14, 15, 16, 17, 18, 19, 20], 3⟩], x.Ok := by
    intro x mem
    simp only [List.mem_cons, List.not_mem_nil, or_false] at mem
    rcases mem with rfl | rfl
    all_goals exact ⟨rfl, rfl, by decide⟩
  exact (test_program_writes ok).2 [_] _ [] rfl

end KernelModules.Keylog
