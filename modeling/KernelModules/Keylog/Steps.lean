import KernelModules.Keylog.Source

/-!
# What each step of the keylogger changes

Inversion and frame lemmas for the functions and the events of `Keylog/Source.lean`. Every handler
call lowers `keys` by one when there is a buffer, below 0 as well (`interrupt_keys`), and stores at
the old value (`interrupt_get`). Interrupts and the reads in progress leave everything but the
buffers and `keys` alone (`step_running`).
-/

namespace KernelModules.Keylog

/-- A buffer is not the null pointer. -/
lemma buf_ne_null {l} : Ptr.buf l ≠ .null := by
  intro e
  cases e

namespace Sys
variable {s : Sys} {r r' : Nat} {c : Option Reader}

/-- The call that was set. -/
@[simp] lemma setReader_self : (s.setReader r c).readers r = c := Function.update_self ..

/-- Setting one call leaves the others alone. -/
lemma setReader_of_ne (ne : r' ≠ r) : (s.setReader r c).readers r' = s.readers r' :=
  Function.update_of_ne ne ..

end Sys

/-! ## Interrupts -/

/-- A store changes nothing but the heap. -/
lemma Dev.store_frame (d : Dev) (st) : ∃ h, d.store st = { d with heap := h } := by
  unfold Dev.store
  split
  · split
    · exact ⟨_, rfl⟩
    · exact ⟨d.heap, rfl⟩
  · exact ⟨d.heap, rfl⟩

/-- Without a buffer `testirq_handler` does nothing. -/
lemma testirqHandler_null {d : Dev} {sc} (null : d.kbuf = .null) :
    testirqHandler d sc = (d, .handled, false) := by
  simp [testirqHandler, testirqReadIntrCauseRegister, handlerStore, null]

/-- With a buffer it stores the scancode at `kbuf[keys]`, counts `keys` down and wakes the readers
    at 0. -/
lemma testirqHandler_store {d : Dev} {sc} (ne : d.kbuf ≠ .null) :
    testirqHandler d sc =
      ({ d.store ⟨d.kbuf, d.keys.toInt, sc⟩ with keys := d.keys - 1 }, .handled,
        decide (d.keys - 1 = 0)) := by
  simp [testirqHandler, testirqReadIntrCauseRegister, handlerStore, ne]

/-- The handler changes nothing but the heap and `keys`. -/
lemma testirqHandler_frame (d : Dev) (sc) :
    ∃ h k, (testirqHandler d sc).1 = { d with heap := h, keys := k } := by
  by_cases null : d.kbuf = .null
  · rw [testirqHandler_null null]
    exact ⟨d.heap, d.keys, rfl⟩
  · rw [testirqHandler_store null]
    obtain ⟨h, e⟩ := d.store_frame ⟨d.kbuf, d.keys.toInt, sc⟩
    rw [e]
    exact ⟨h, d.keys - 1, rfl⟩

/-- No handler, no effect. -/
@[simp] lemma interrupt_nil {d} : interrupt d [] = (d, false) := rfl

/-- The handlers of an interrupt run one after the other. -/
@[simp] lemma interrupt_cons {d sc scs} :
    (interrupt d (sc :: scs)).1 = (interrupt (testirqHandler d sc).1 scs).1 := rfl

/-- The handlers in two parts. -/
lemma interrupt_append {d xs ys} :
    (interrupt d (xs ++ ys)).1 = (interrupt (interrupt d xs).1 ys).1 := by
  induction xs generalizing d with
  | nil => rfl
  | cons sc xs ih =>
    rw [List.cons_append, interrupt_cons, interrupt_cons]
    exact ih

/-- An interrupt changes the buffers and `keys` only. -/
lemma interrupt_frame (d : Dev) (scs) :
    ∃ h k, (interrupt d scs).1 = { d with heap := h, keys := k } := by
  induction scs generalizing d with
  | nil => exact ⟨d.heap, d.keys, rfl⟩
  | cons sc scs ih =>
    obtain ⟨h1, k1, e1⟩ := testirqHandler_frame d sc
    obtain ⟨h2, k2, e2⟩ := ih (testirqHandler d sc).1
    rw [interrupt_cons, e2, e1]
    exact ⟨h2, k2, rfl⟩

/-- `kfree` leaves `kbuf` pointing where it did. -/
lemma Dev.kfree_kbuf {d : Dev} {p} : (d.kfree p).kbuf = d.kbuf := by
  cases p with
  | null => rfl
  | zeroSize => rfl
  | buf l => rfl

/-- `kfree` does not change `keys`. -/
lemma Dev.kfree_keys {d : Dev} {p} : (d.kfree p).keys = d.keys := by
  cases p with
  | null => rfl
  | zeroSize => rfl
  | buf l => rfl

/-- A store changes what a buffer holds, not which buffers there are. -/
lemma Dev.store_live {d : Dev} {st l} : (d.store st).heap.get l = none ↔ d.heap.get l = none := by
  unfold Dev.store
  split
  · split
    · exact Heap.get_set_eq_none
    · exact Iff.rfl
  · exact Iff.rfl

/-- Handlers neither allocate nor free. -/
lemma interrupt_live {d : Dev} {scs l} :
    (interrupt d scs).1.heap.get l = none ↔ d.heap.get l = none := by
  induction scs generalizing d with
  | nil => exact Iff.rfl
  | cons sc scs ih =>
    rw [interrupt_cons, ih]
    by_cases null : d.kbuf = .null
    · rw [testirqHandler_null null]
    · rw [testirqHandler_store null]
      exact Dev.store_live

/-- Handlers do not change `kbuf`. -/
lemma interrupt_kbuf {d : Dev} {scs} : (interrupt d scs).1.kbuf = d.kbuf := by
  obtain ⟨h, k, e⟩ := interrupt_frame d scs
  rw [e]

/-- Every handler call lowers `keys`, when there is a buffer. -/
lemma interrupt_keys {d : Dev} {scs} :
    (interrupt d scs).1.keys =
      d.keys - if d.kbuf = .null then 0 else BitVec.ofNat 32 scs.length := by
  induction scs generalizing d with
  | nil => simp
  | cons sc scs ih =>
    rw [interrupt_cons, ih]
    by_cases null : d.kbuf = .null
    · rw [testirqHandler_null null, if_pos null, if_pos null]
    · obtain ⟨h, e⟩ := d.store_frame ⟨d.kbuf, d.keys.toInt, sc⟩
      rw [testirqHandler_store null, e, if_neg null, if_neg null, List.length_cons, Nat.add_comm,
        BitVec.ofNat_add, BitVec.sub_sub]
      rfl

/-- The handler calls fill the buffer from the index `keys` downwards. -/
lemma interrupt_get {d : Dev} {scs l data} (buf : d.kbuf = .buf l)
    (get : d.heap.get l = some data) :
    (interrupt d scs).1.heap.get l = some (fillDown data d.keys scs) := by
  induction scs generalizing d data with
  | nil => exact get
  | cons sc scs ih =>
    have e : (testirqHandler d sc).1 =
        { d with heap := d.heap.set l (poke data d.keys.toInt sc), keys := d.keys - 1 } := by
      rw [testirqHandler_store (by rw [buf]; exact buf_ne_null)]
      simp only [Dev.store, buf, get]
    rw [interrupt_cons, e]
    exact ih buf (Heap.get_set_self get)

/-! ## Events -/

/-- The answers of `kmalloc`: `ZERO_SIZE_PTR` for no bytes, `NULL`, or a new buffer. -/
lemma kmalloc_cases {d d' : Dev} {len ans p} (alloc : d.kmalloc len ans = some (p, d')) :
    (len = 0 ∧ p = .zeroSize ∧ d' = d) ∨ (len ≠ 0 ∧ ans = none ∧ p = .null ∧ d' = d) ∨
      len ≠ 0 ∧ ∃ l junk, ∃ free : d.heap.get l = none, ans = some (l, junk) ∧ p = .buf l ∧
        junk.length = len.toNat ∧ d' = { d with heap := d.heap.alloc l junk free } := by
  unfold Dev.kmalloc at alloc
  split at alloc
  case isTrue zero =>
    cases alloc
    exact .inl ⟨zero, rfl, rfl⟩
  case isFalse ne =>
    cases ans with
    | none =>
      cases alloc
      exact .inr (.inl ⟨ne, rfl, rfl, rfl⟩)
    | some a =>
      obtain ⟨l, junk⟩ := a
      obtain ⟨free, e⟩ := Option.dite_none_right_eq_some.mp alloc
      obtain ⟨size, e'⟩ := Option.ite_none_right_eq_some.mp e
      cases e'
      exact .inr (.inr ⟨ne, l, junk, free, rfl, rfl, size, rfl⟩)

/-- A `kmalloc` that succeeds returns a new buffer of the size asked for. -/
lemma kmalloc_some {d d' : Dev} {len : BitVec 64} {l junk p} (pos : 0 < len.toNat)
    (alloc : d.kmalloc len (some (l, junk)) = some (p, d')) :
    p = .buf l ∧ d'.heap.get l = some junk ∧ junk.length = len.toNat := by
  rcases kmalloc_cases alloc with ⟨rfl, -⟩ | ⟨-, e, -⟩ | ⟨-, l', junk', free, e, rfl, size, rfl⟩
  · exact absurd pos (Nat.lt_irrefl 0)
  · cases e
  · cases e
    exact ⟨rfl, Heap.get_alloc_self (f := free), size⟩

/-- A `kmalloc` that fails returns the null pointer. -/
lemma kmalloc_none {d d' : Dev} {len : BitVec 64} {p} (pos : 0 < len.toNat)
    (alloc : d.kmalloc len none = some (p, d')) : p = .null := by
  rcases kmalloc_cases alloc with ⟨rfl, -⟩ | ⟨-, -, null, -⟩ | ⟨-, l, junk, free, e, -⟩
  · exact absurd pos (Nat.lt_irrefl 0)
  · exact null
  · cases e

/-- `kmalloc` changes nothing but the heap. -/
lemma kmalloc_frame {d d' : Dev} {len ans p} (alloc : d.kmalloc len ans = some (p, d')) :
    ∃ h, d' = { d with heap := h } := by
  rcases kmalloc_cases alloc with ⟨-, -, e⟩ | ⟨-, -, -, e⟩ | ⟨-, l, junk, free, -, -, -, e⟩
  · exact ⟨d.heap, e⟩
  · exact ⟨d.heap, e⟩
  · exact ⟨_, e⟩

section
variable {s s' : Sys}

/-- What an open does. -/
lemma step_keylogOpen {irqOk} (st : step s (.keylogOpen irqOk) = some s') :
    s.exit ≠ .done ∧ s' = { s with dev := keylogOpen s.dev irqOk, files := s.files + 1 } := by
  obtain ⟨open_, e⟩ := Option.ite_none_left_eq_some.mp st
  exact ⟨open_, (Option.some.inj e).symm⟩

/-- What a close does. -/
lemma step_keylogClose (st : step s .keylogClose = some s') :
    s.files ≠ 0 ∧ s' = { s with dev := keylogClose s.dev, files := s.files - 1 } := by
  obtain ⟨open_, e⟩ := Option.ite_none_left_eq_some.mp st
  exact ⟨open_, (Option.some.inj e).symm⟩

/-- What the test of `intr_registered` in `keylog_driver_exit` does. -/
lemma step_exitTest (st : step s .exitTest = some s') :
    s.exit = .idle ∧
      s' = { s with exit := if s.dev.intrRegistered ≠ 0 then .waiting else .deregister } := by
  obtain ⟨idle, e⟩ := Option.ite_none_right_eq_some.mp st
  exact ⟨idle, (Option.some.inj e).symm⟩

/-- When the wait in `keylog_driver_exit` ends, and what that does. -/
lemma step_exitWait (st : step s .exitWait = some s') :
    (s.exit = .waiting ∧ s.dev.completion ≠ 0) ∧
      s' = { s with
        dev := { s.dev with completion := s.dev.completion - 1 }, exit := .deregister } := by
  obtain ⟨ready, e⟩ := Option.ite_none_right_eq_some.mp st
  exact ⟨ready, (Option.some.inj e).symm⟩

/-- What `misc_deregister` in `keylog_driver_exit` does. -/
lemma step_exitDeregister (st : step s .exitDeregister = some s') :
    s.exit = .deregister ∧ s' = { s with exit := .done } := by
  obtain ⟨dereg, e⟩ := Option.ite_none_right_eq_some.mp st
  exact ⟨dereg, (Option.some.inj e).symm⟩

end

/-- An interrupt runs the handlers, and may wake the readers. -/
lemma step_interrupt_eq {s s' : Sys} {scs} (st : step s (.interrupt scs) = some s') :
    scs.length = s.dev.actions ∧
      (s' = { s with dev := (interrupt s.dev scs).1 } ∨
        s' = { s with dev := (interrupt s.dev scs).1 }.wakeUp) := by
  obtain ⟨len, e⟩ := Option.ite_none_right_eq_some.mp st
  refine ⟨len, ?_⟩
  have e' := Option.some.inj e
  split at e'
  case isTrue => exact .inr e'.symm
  case isFalse => exact .inl e'.symm

/-- What an interrupt does: every registered handler runs, and a call may be woken. -/
lemma step_interrupt {s s' : Sys} {scs} (st : step s (.interrupt scs) = some s') :
    scs.length = s.dev.actions ∧ s'.dev = (interrupt s.dev scs).1 ∧
      ∀ r c, s.readers r = some c → ∃ pc, s'.readers r = some { c with pc } ∧
        (c.pc ≠ .asleep → pc = c.pc) := by
  obtain ⟨len, rfl | rfl⟩ := step_interrupt_eq st
  · exact ⟨len, rfl, fun r c read => ⟨c.pc, read, fun _ => rfl⟩⟩
  · refine ⟨len, rfl, fun r c read => ?_⟩
    by_cases sleeps : c.pc = .asleep
    · exact ⟨.evaluate, by simp [Sys.wakeUp, read, sleeps], fun ne => absurd sleeps ne⟩
    · exact ⟨c.pc, by simp [Sys.wakeUp, read, sleeps], fun _ => rfl⟩

/-- A call that is in progress after an interrupt was so before, and asleep if it has been woken. -/
lemma reads_of_interrupt {s s' : Sys} {scs r c'} (st : step s (.interrupt scs) = some s')
    (read : s'.readers r = some c') :
    ∃ c, s.readers r = some c ∧
      (c' = c ∨ c.pc = .asleep ∧ c' = { c with pc := .evaluate }) := by
  obtain ⟨-, rfl | rfl⟩ := step_interrupt_eq st
  · exact ⟨c', read, .inl rfl⟩
  · obtain ⟨c, read0, rfl⟩ := Option.map_eq_some_iff.mp read
    refine ⟨c, read0, ?_⟩
    split
    case isTrue sleeps => exact .inr ⟨sleeps, rfl⟩
    case isFalse => exact .inl rfl

/-- The step of a thread's own call of `keylog_read`. -/
lemma step_reader {s s' : Sys} {e r c} (own : e.reader = some r) (read : s.readers r = some c)
    (st : step s e = some s') :
    ∃ d c', readStep s.dev c e = some (d, c') ∧ s' = { s with dev := d }.setReader r c' := by
  have st' : (readStep s.dev c e).bind (fun x => some ({ s with dev := x.1 }.setReader r x.2)) =
      some s' := by
    cases e with
    | keylogOpen | keylogClose | readEnter | interrupt | exitTest | exitWait | exitDeregister =>
      cases own
    | readSetKeys | readEvaluate | readSignal | readCopy | readFinish =>
      cases own
      simpa [step, Event.reader, read] using st
  obtain ⟨⟨d, c'⟩, rs, e'⟩ := Option.bind_eq_some_iff.mp st'
  cases e'
  exact ⟨d, c', rs, rfl⟩

/-- A statement of a read needs a read in progress. -/
lemma reads_of_step {s s' : Sys} {e r} (own : e.reader = some r) (st : step s e = some s') :
    ∃ c, s.readers r = some c := by
  cases e with
  | keylogOpen | keylogClose | readEnter | interrupt | exitTest | exitWait | exitDeregister =>
    cases own
  | readSetKeys | readEvaluate | readSignal | readCopy | readFinish =>
    cases own
    cases read : s.readers r with
    | none => simp [step, Event.reader, read] at st
    | some c => exact ⟨c, rfl⟩

/-- A thread enters a read only when it is not in one. -/
lemma idle_of_readEnter {s s' : Sys} {r len ans} (st : step s (.readEnter r len ans) = some s') :
    s.readers r = none := by
  obtain ⟨free, -⟩ := Option.ite_none_right_eq_some.mp st
  exact free.2

/-- What entering a read does: its buffer becomes the target of `kbuf`. -/
lemma step_readEnter {s s' : Sys} {r len ans} (st : step s (.readEnter r len ans) = some s') :
    ∃ p d, s.dev.kmalloc len ans = some (p, d) ∧
      s' = { s with dev := { d with kbuf := p } }.setReader r (some ⟨len, p, .setKeys⟩) := by
  simp only [step] at st
  split at st
  case isFalse => cases st
  case isTrue =>
    obtain ⟨⟨p, d⟩, alloc, rfl⟩ := Option.map_eq_some_iff.mp st
    exact ⟨p, d, alloc, rfl⟩

section
variable {s s' : Sys} {r : Nat}

/-- A step of a read that is taken at one place of it. -/
lemma step_guarded {e place} {next : Reader → Dev × Option Reader} (own : e.reader = some r)
    (guard : ∀ c, readStep s.dev c e = if c.pc = place then some (next c) else none)
    (st : step s e = some s') :
    ∃ c, s.readers r = some c ∧ c.pc = place ∧
      s' = { s with dev := (next c).1 }.setReader r (next c).2 := by
  obtain ⟨c, read⟩ := reads_of_step own st
  obtain ⟨d, c', rs, rfl⟩ := step_reader own read st
  rw [guard] at rs
  obtain ⟨pc, e⟩ := Option.ite_none_right_eq_some.mp rs
  refine ⟨c, read, pc, ?_⟩
  rw [Option.some.inj e]

/-- What `keys = len` does: the length is cut to 32 bits. -/
lemma step_readSetKeys (st : step s (.readSetKeys r) = some s') :
    ∃ c, s.readers r = some c ∧ c.pc = .setKeys ∧
      s' = { s with dev := { s.dev with keys := c.len.setWidth 32 } }.setReader r
        (some { c with pc := .evaluate }) := by
  exact step_guarded rfl (fun _ => rfl) st

/-- What the test `keys == 0` does: the read goes on, or it goes to sleep. -/
lemma step_readEvaluate (st : step s (.readEvaluate r) = some s') :
    ∃ c, s.readers r = some c ∧ c.pc = .evaluate ∧
      s' = s.setReader r (some { c with pc := if s.dev.keys = 0 then .copy else .asleep }) := by
  exact step_guarded rfl (fun _ => rfl) st

/-- What a signal does to a read that sleeps. -/
lemma step_readSignal (st : step s (.readSignal r) = some s') :
    ∃ c, s.readers r = some c ∧ c.pc = .asleep ∧
      s' = s.setReader r (if s.dev.keys = 0 then some { c with pc := .copy } else none) := by
  exact step_guarded rfl (fun _ => rfl) st

/-- What `copy_to_user` does: it copies from where `kbuf` points now. -/
lemma step_readCopy {ok} (st : step s (.readCopy r ok) = some s') :
    ∃ c, s.readers r = some c ∧ c.pc = .copy ∧
      s' = s.setReader r (if ok then
        some { c with pc := .finish s.dev.kbuf (s.dev.load s.dev.kbuf c.len.toNat) }
          else none) := by
  exact step_guarded rfl (fun _ => rfl) st

/-- What the end of a read does: it frees what `kbuf` points to now. -/
lemma step_readFinish (st : step s (.readFinish r) = some s') :
    ∃ c src bytes, s.readers r = some c ∧ c.pc = .finish src bytes ∧
      s' = { s with dev := s.dev.kfree s.dev.kbuf }.setReader r none := by
  obtain ⟨c, read⟩ := reads_of_step rfl st
  obtain ⟨d, c', rs, rfl⟩ := step_reader rfl read st
  cases pc : c.pc with
  | finish src bytes =>
    simp only [readStep, pc] at rs
    cases rs
    exact ⟨c, src, bytes, read, pc, rfl⟩
  | _ =>
    simp only [readStep, pc] at rs
    cases rs

end

/-- A statement of a read changes nothing but the heap and `keys`. -/
lemma readStep_frame {d d' : Dev} {c c' e} (rs : readStep d c e = some (d', c')) :
    ∃ h k, d' = { d with heap := h, keys := k } := by
  cases e with
  | readSetKeys | readEvaluate | readSignal | readCopy =>
    simp only [readStep] at rs
    split at rs
    case isFalse => cases rs
    case isTrue =>
      cases rs
      exact ⟨_, _, rfl⟩
  | readFinish =>
    simp only [readStep] at rs
    split at rs
    · cases rs
      unfold Dev.kfree
      split
      · exact ⟨_, _, rfl⟩
      · exact ⟨_, _, rfl⟩
    · cases rs
  | _ => cases rs

/-- The interrupts and the steps of the calls of `keylog_read` in progress: the files, the handlers
    and `keylog_driver_exit` stay as they are, and so does `kbuf`. -/
lemma step_running {s s' : Sys} {e} (running : e.reader ≠ none ∨ ∃ scs, e = .interrupt scs)
    (st : step s e = some s') :
    s'.files = s.files ∧ s'.exit = s.exit ∧
      ∃ h k, s'.dev = { s.dev with heap := h, keys := k } := by
  rcases running with ne | ⟨scs, rfl⟩
  · obtain ⟨r, own⟩ := Option.ne_none_iff_exists'.mp ne
    obtain ⟨c, read⟩ := reads_of_step own st
    obtain ⟨d, c', rs, rfl⟩ := step_reader own read st
    exact ⟨rfl, rfl, readStep_frame rs⟩
  · obtain ⟨h, k, eq⟩ := interrupt_frame s.dev scs
    obtain ⟨-, rfl | rfl⟩ := step_interrupt_eq st
    · exact ⟨rfl, rfl, h, k, eq⟩
    · exact ⟨rfl, rfl, h, k, eq⟩

/-- The events that have nothing to do with reads. -/
def Event.isQuiet : Event → Bool
  | .keylogOpen _ => true
  | .keylogClose => true
  | .exitTest => true
  | .exitWait => true
  | .exitDeregister => true
  | _ => false

/-- Opens, closes and the exit leave the reads, `kbuf`, `keys` and the heap alone. -/
lemma step_quiet {s s' : Sys} {e : Event} (quiet : e.isQuiet = true) (st : step s e = some s') :
    s'.readers = s.readers ∧ s'.dev.kbuf = s.dev.kbuf ∧ s'.dev.keys = s.dev.keys ∧
      s'.dev.heap = s.dev.heap := by
  cases e with
  | keylogOpen =>
    obtain ⟨-, rfl⟩ := step_keylogOpen st
    exact ⟨rfl, rfl, rfl, rfl⟩
  | keylogClose =>
    obtain ⟨-, rfl⟩ := step_keylogClose st
    exact ⟨rfl, rfl, rfl, rfl⟩
  | exitTest =>
    obtain ⟨-, rfl⟩ := step_exitTest st
    exact ⟨rfl, rfl, rfl, rfl⟩
  | exitWait =>
    obtain ⟨-, rfl⟩ := step_exitWait st
    exact ⟨rfl, rfl, rfl, rfl⟩
  | exitDeregister =>
    obtain ⟨-, rfl⟩ := step_exitDeregister st
    exact ⟨rfl, rfl, rfl, rfl⟩
  | _ => cases quiet

/-- Only the opens and the closes change the files, the handlers and `intr_registered`. -/
lemma step_handlers {s s' : Sys} {e} (st : step s e = some s') (open_ : ∀ ok, e ≠ .keylogOpen ok)
    (close : e ≠ .keylogClose) :
    s'.files = s.files ∧ s'.dev.actions = s.dev.actions ∧
      s'.dev.intrRegistered = s.dev.intrRegistered := by
  cases e with
  | keylogOpen irqOk => exact absurd rfl (open_ irqOk)
  | keylogClose => exact absurd rfl close
  | readEnter r len ans =>
    obtain ⟨p, d, alloc, rfl⟩ := step_readEnter st
    obtain ⟨h, rfl⟩ := kmalloc_frame alloc
    exact ⟨rfl, rfl, rfl⟩
  | readSetKeys | readEvaluate | readSignal | readCopy | readFinish =>
    obtain ⟨files, -, h, k, dev⟩ := step_running (.inl (by exact Option.some_ne_none _)) st
    rw [dev]
    exact ⟨files, rfl, rfl⟩
  | interrupt scs =>
    obtain ⟨files, -, h, k, dev⟩ := step_running (.inr ⟨scs, rfl⟩) st
    rw [dev]
    exact ⟨files, rfl, rfl⟩
  | exitTest =>
    obtain ⟨-, rfl⟩ := step_exitTest st
    exact ⟨rfl, rfl, rfl⟩
  | exitWait =>
    obtain ⟨-, rfl⟩ := step_exitWait st
    exact ⟨rfl, rfl, rfl⟩
  | exitDeregister =>
    obtain ⟨-, rfl⟩ := step_exitDeregister st
    exact ⟨rfl, rfl, rfl⟩

end KernelModules.Keylog
