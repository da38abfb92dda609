import KernelModules.Base.Bytes
import KernelModules.Base.Heap
import KernelModules.Base.Run

/-!
# The keylogger device

Model of `keyboard_interrupt_misc_device.c`: the globals of the driver, the functions that work on
them, and the system of open files, readers, interrupts and one run of `keylog_driver_exit` in which
they are called.

The functions that block or that an interrupt can cut in two are steps of the system, with a program
counter for each call in progress: `keylog_read` (`ReadPc`) and `keylog_driver_exit` (`ExitPc`).
`keylog_open`, `keylog_close` and the handler are one step each. A hardware interrupt runs every
registered action once.

What the kernel answers is part of the event: whether `request_irq` succeeds, what `kmalloc`
returns, whether a signal arrives, whether `copy_to_user` succeeds, and which scancode a handler
reads from the data port. `kmalloc(0)` returns `ZERO_SIZE_PTR`, which is not `NULL`.

A store through `kbuf` that lies outside the buffer, or goes to a buffer that has been freed,
changes memory that is not part of the model; `handlerStore` tells which store a handler call makes.

C → Lean naming: `testirq_read_intr_cause_register` → `testirqReadIntrCauseRegister`,
`testirq_handler` → `testirqHandler`, `keylog_open` / `keylog_close` → `keylogOpen` / `keylogClose`,
`keylog_read` → the events `readEnter` to `readFinish`, `keylog_driver_exit` → the events `exitTest`
to `exitDeregister`.
-/

namespace KernelModules.Keylog

/-- A pointer to character data. -/
inductive Ptr where
  | null
  | zeroSize          -- ZERO_SIZE_PTR
  | buf (l : Loc)
  deriving Repr, DecidableEq

/-- The globals of the driver with the buffers that `kmalloc` has handed out. -/
structure Dev where
  kbuf : Ptr
  keys : BitVec 32
  heap : Heap (List UInt8)
  intrRegistered : BitVec 32
  actions : Nat         -- the handlers `request_irq` has registered and `free_irq` has not removed
  completion : Nat      -- the count of `kbd_complete`

/-- The globals when the module has been loaded. -/
def Dev.init : Dev := ⟨.null, 0, .empty, 0, 0, 0⟩

/-- The cause of an interrupt (C `enum intr_cause`). -/
inductive IntrCause where
  | noEvent
  | incomingData
  | outOfBand
  deriving Repr, DecidableEq

/-- What a handler answers (C `irqreturn_t`). -/
inductive IrqReturn where
  | none
  | handled
  deriving Repr, DecidableEq

/-- A store of one byte. -/
structure Store where
  ptr : Ptr
  index : Int
  byte : UInt8
  deriving Repr, DecidableEq

namespace Dev

/-- The effect of a store on the live buffers. -/
def store (d : Dev) (st : Store) : Dev :=
  match st.ptr with
  | .buf l =>
    match d.heap.get l with
    | some data => { d with heap := d.heap.set l (poke data st.index st.byte) }
    | none => d
  | _ => d

/-- Reads `len` bytes from a pointer; `none` when they are not all in one live buffer. -/
def load (d : Dev) (p : Ptr) (len : Nat) : Option (List UInt8) :=
  if len = 0 then some [] else
    match p with
    | .buf l =>
      (d.heap.get l).bind fun data => if len ≤ data.length then some (data.take len) else none
    | _ => none

/-- The answer of `kmalloc` for `len` bytes: the pointer, and the globals with the new buffer. -/
def kmalloc (d : Dev) (len : BitVec 64) (ans : Option (Loc × List UInt8)) : Option (Ptr × Dev) :=
  if len = 0 then some (.zeroSize, d) else
    match ans with
    | none => some (.null, d)
    | some (l, junk) =>
      if free : d.heap.get l = none then
        if junk.length = len.toNat then some (.buf l, { d with heap := d.heap.alloc l junk free })
        else none
      else none

/-- Frees a buffer; `NULL` and `ZERO_SIZE_PTR` are ignored. -/
def kfree (d : Dev) : Ptr → Dev
  | .buf l => { d with heap := d.heap.free l }
  | _ => d

end Dev

/-- The cause register (C `testirq_read_intr_cause_register`). -/
def testirqReadIntrCauseRegister : IntrCause := .incomingData

/-- The store `testirq_handler` makes for a scancode: `if (kbuf) kbuf[keys--] = (char)scancode`. -/
def handlerStore (d : Dev) (scancode : UInt8) : Option Store :=
  if d.kbuf = .null then none else some ⟨d.kbuf, d.keys.toInt, scancode⟩

/-- The interrupt handler (C `testirq_handler`). The last component says whether it calls
    `wake_up_interruptible`. -/
def testirqHandler (d : Dev) (scancode : UInt8) : Dev × IrqReturn × Bool :=
  match testirqReadIntrCauseRegister with
  | .noEvent => (d, .none, false)
  | .incomingData =>
    match handlerStore d scancode with
    | some st =>
      let d' := { d.store st with keys := d.keys - 1 }
      (d', .handled, d'.keys = 0)
    | none => (d, .handled, false)
  | .outOfBand => (d, .handled, false)

/-- An interrupt: the registered actions run one after the other, each with the scancode it
    reads. -/
def interrupt (d : Dev) : List UInt8 → Dev × Bool
  | [] => (d, false)
  | sc :: scs =>
    let (d1, _, wake1) := testirqHandler d sc
    let (d2, wake2) := interrupt d1 scs
    (d2, wake1 || wake2)

/-- Opens the device (C `keylog_open`); a failing `request_irq` is only logged. -/
def keylogOpen (d : Dev) (irqOk : Bool) : Dev :=
  { d with
    actions := if irqOk then d.actions + 1 else d.actions
    intrRegistered := d.intrRegistered + 1
    completion := 0 }

/-- Closes the device (C `keylog_close`); `free_irq` removes one action, if there is one. -/
def keylogClose (d : Dev) : Dev :=
  { d with
    actions := d.actions - 1
    intrRegistered := d.intrRegistered - 1
    completion := d.completion + 1 }

/-- How far a call of `keylog_read` is. -/
inductive ReadPc where
  | setKeys                                            -- before `keys = len`
  | evaluate                                           -- before a test of `keys == 0`
  | asleep                                             -- on the wait queue `key_wait`
  | copy                                               -- before `copy_to_user`
  | finish (src : Ptr) (bytes : Option (List UInt8))   -- the user has `bytes`, read from `src`
  deriving Repr, DecidableEq

/-- A call of `keylog_read`: its length, what its own `kmalloc` returned, and how far it is. -/
structure Reader where
  len : BitVec 64
  own : Ptr
  pc : ReadPc
  deriving Repr, DecidableEq

/-- How far `keylog_driver_exit` is. -/
inductive ExitPc where
  | idle          -- not called, or before the test of `intr_registered`
  | waiting       -- in `wait_for_completion`
  | deregister    -- before `misc_deregister`
  | done
  deriving Repr, DecidableEq

/-- The driver with its open files, the calls of `keylog_read` in progress (each under the number of
    its thread) and the run of `keylog_driver_exit`. -/
structure Sys where
  dev : Dev
  files : Nat
  readers : Nat → Option Reader
  exit : ExitPc

/-- The system when the module has been loaded. -/
def Sys.init : Sys := ⟨.init, 0, fun _ => none, .idle⟩

namespace Sys

/-- Sets the state of one thread's call of `keylog_read`. -/
def setReader (s : Sys) (r : Nat) (c : Option Reader) : Sys :=
  { s with readers := Function.update s.readers r c }

/-- Wakes the readers that sleep on `key_wait` (C `wake_up_interruptible`). -/
def wakeUp (s : Sys) : Sys :=
  { s with readers := fun r => (s.readers r).map fun c =>
      if c.pc = .asleep then { c with pc := .evaluate } else c }

/-- No call of `keylog_read` is in progress. -/
def Idle (s : Sys) : Prop := ∀ r, s.readers r = none

end Sys

/-- What can happen. -/
inductive Event where
  | keylogOpen (irqOk : Bool)
  | keylogClose
  -- kbuf = kmalloc(len)
  | readEnter (r : Nat) (len : BitVec 64) (ans : Option (Loc × List UInt8))
  | readSetKeys (r : Nat)                   -- keys = len
  | readEvaluate (r : Nat)                  -- keys == 0 ?
  | readSignal (r : Nat)                    -- a signal while asleep
  | readCopy (r : Nat) (ok : Bool)          -- copy_to_user
  | readFinish (r : Nat)                    -- kfree(kbuf); return len
  | interrupt (scancodes : List UInt8)
  | exitTest                                -- if (intr_registered)
  | exitWait                                -- wait_for_completion
  | exitDeregister                          -- misc_deregister

/-- A step of a call of `keylog_read` that is in progress: the globals after it, and the call,
    unless it has returned. -/
def readStep (d : Dev) (c : Reader) : Event → Option (Dev × Option Reader)
  | .readSetKeys _ =>
    if c.pc = .setKeys then
      some ({ d with keys := c.len.setWidth 32 }, some { c with pc := .evaluate })
    else none
  | .readEvaluate _ =>
    if c.pc = .evaluate then
      some (d, some { c with pc := if d.keys = 0 then .copy else .asleep })
    else none
  | .readSignal _ =>
    -- the wait tests `keys == 0` once more before it gives up with `-ERESTARTSYS`
    if c.pc = .asleep then
      some (d, if d.keys = 0 then some { c with pc := .copy } else none)
    else none
  | .readCopy _ ok =>
    if c.pc = .copy then
      some (d,
        if ok then some { c with pc := .finish d.kbuf (d.load d.kbuf c.len.toNat) } else none)
    else none
  | .readFinish _ =>
    match c.pc with
    | .finish _ _ => some (d.kfree d.kbuf, none)
    | _ => none
  | _ => none

/-- The thread a step of `keylog_read` belongs to. -/
def Event.reader : Event → Option Nat
  | .readSetKeys r => some r
  | .readEvaluate r => some r
  | .readSignal r => some r
  | .readCopy r _ => some r
  | .readFinish r => some r
  | _ => none

/-- One step of the system. -/
def step (s : Sys) : Event → Option Sys
  | .keylogOpen irqOk =>
    -- the file operations have no owner: a file can be opened until `misc_deregister`
    if s.exit = .done then none
    else some { s with dev := keylogOpen s.dev irqOk, files := s.files + 1 }
  | .keylogClose =>
    if s.files = 0 then none
    else some { s with dev := keylogClose s.dev, files := s.files - 1 }
  | .readEnter r len ans =>
    if s.files ≠ 0 ∧ s.readers r = none then
      (s.dev.kmalloc len ans).map fun (p, d) =>
        { s with dev := { d with kbuf := p } }.setReader r (some ⟨len, p, .setKeys⟩)
    else none
  | .interrupt scs =>
    if scs.length = s.dev.actions then
      let (d, wake) := interrupt s.dev scs
      let s' := { s with dev := d }
      some (if wake then s'.wakeUp else s')
    else none
  | .exitTest =>
    if s.exit = .idle then
      some { s with exit := if s.dev.intrRegistered ≠ 0 then .waiting else .deregister }
    else none
  | .exitWait =>
    if s.exit = .waiting ∧ s.dev.completion ≠ 0 then
      some { s with dev := { s.dev with completion := s.dev.completion - 1 }, exit := .deregister }
    else none
  | .exitDeregister => if s.exit = .deregister then some { s with exit := .done } else none
  | e => do
    let r ← e.reader
    let c ← s.readers r
    let (d, c') ← readStep s.dev c e
    some ({ s with dev := d }.setReader r c')

end KernelModules.Keylog
