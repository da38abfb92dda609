import KernelModules.Keylog.Steps
import Mathlib.Data.Nat.ModEq
import Mathlib.Tactic.Ring

/-!
# What a read of the keylogger delivers

The counter `keys` of `keyboard_interrupt_misc_device.c` is both the number of scancodes still
wanted and the index of the next store. From the moment a read has set it, every handler call lowers
it by one, below 0 as well, and stores at the old value: the first scancode goes to index `len`,
behind the end of the buffer, and none to index 0.

* `delivered_in_order_iff`: when the user gets the scancodes in arrival order after all.
* `wake_condition_stable_iff`: when `keys == 0` survives until the reader looks at it.
-/

namespace KernelModules.Keylog

/-! ## A read that waits -/

/-- The events while one read waits: interrupts, and the reader's tests of `keys == 0`. -/
def Waits (r : Nat) : Event → Prop
  | .interrupt _ => True
  | .readEvaluate r' => r' = r
  | _ => False

/-- The scancodes that the handler calls of an event receive. -/
def Event.codes : Event → List UInt8
  | .interrupt scs => scs
  | _ => []

/-- The scancodes received in a run. -/
def received (ts : List Event) : List UInt8 := ts.flatMap Event.codes

/-- Whether an event is an interrupt. -/
def Event.isInterrupt : Event → Bool
  | .interrupt _ => true
  | _ => false

/-- The number of interrupts in a run. -/
def interrupts (ts : List Event) : Nat := ts.countP Event.isInterrupt

/-- While a read waits, only the handlers change the device. -/
lemma step_waits {s s' : Sys} {r c e} (w : Waits r e) (read : s.readers r = some c)
    (st : step s e = some s') :
    s'.dev = (interrupt s.dev e.codes).1 ∧ (∃ pc, s'.readers r = some { c with pc }) ∧
      e.codes.length = if e.isInterrupt then s.dev.actions else 0 := by
  cases e with
  | interrupt scs =>
    obtain ⟨len, dev, readers⟩ := step_interrupt st
    obtain ⟨pc, read', -⟩ := readers r c read
    exact ⟨dev, ⟨pc, read'⟩, len⟩
  | readEvaluate r' =>
    cases w
    obtain ⟨c', read', -, rfl⟩ := step_readEvaluate st
    cases read.symm.trans read'
    exact ⟨rfl, ⟨_, Sys.setReader_self⟩, rfl⟩
  | _ => exact w.elim

/-- A whole run while a read waits: the handler calls are made one after the other, and the read
    stays in progress. -/
lemma run_waits {s s' : Sys} {r c ts} (w : ∀ e ∈ ts, Waits r e) (read : s.readers r = some c)
    (go : run step s ts = some s') :
    s'.dev = (interrupt s.dev (received ts)).1 ∧ (∃ pc, s'.readers r = some { c with pc }) ∧
      (received ts).length = interrupts ts * s.dev.actions := by
  induction ts generalizing s c with
  | nil =>
    cases go
    exact ⟨rfl, ⟨c.pc, read⟩, by simp [received, interrupts]⟩
  | cons e ts ih =>
    obtain ⟨s1, st, go1⟩ := Option.bind_eq_some_iff.mp go
    obtain ⟨dev1, ⟨pc1, read1⟩, len1⟩ := step_waits (w e List.mem_cons_self) read st
    obtain ⟨dev2, ⟨pc2, read2⟩, len2⟩ :=
      ih (fun e' mem => w e' (List.mem_cons_of_mem e mem)) read1 go1
    have acts : s1.dev.actions = s.dev.actions := by
      obtain ⟨h, k, eq⟩ := interrupt_frame s.dev e.codes
      rw [dev1, eq]
    refine ⟨?_, ⟨pc2, read2⟩, ?_⟩
    · rw [dev2, dev1, ← interrupt_append]
      rfl
    · rw [acts] at len2
      rw [show received (e :: ts) = e.codes ++ received ts from rfl, List.length_append, len1, len2,
        interrupts, interrupts, List.countP_cons]
      split <;> ring

/-- A read up to and including `keys = len`: `kbuf` is what its `kmalloc` returned. -/
lemma run_begin {s s1 : Sys} {r len ans pre} (irqs : ∀ e ∈ pre, e.isInterrupt)
    (enter : run step s (.readEnter r len ans :: pre ++ [.readSetKeys r]) = some s1) :
    ∃ p d, s.dev.kmalloc len ans = some (p, d) ∧
      s1.dev = { (interrupt { d with kbuf := p } (received pre)).1 with keys := len.setWidth 32 } ∧
      s1.readers r = some ⟨len, p, .evaluate⟩ := by
  obtain ⟨s0, st, go⟩ := Option.bind_eq_some_iff.mp enter
  obtain ⟨p, d, alloc, rfl⟩ := step_readEnter st
  obtain ⟨sp, gop, gos⟩ := run_split go
  have w : ∀ e ∈ pre, Waits r e := by
    intro e mem
    cases e with
    | interrupt => exact trivial
    | _ => exact absurd (irqs _ mem) Bool.false_ne_true
  obtain ⟨dev, ⟨pc, read⟩, -⟩ := run_waits w Sys.setReader_self gop
  rw [run_singleton] at gos
  obtain ⟨c', read', -, rfl⟩ := step_readSetKeys gos
  cases read.symm.trans read'
  refine ⟨p, d, alloc, ?_, Sys.setReader_self⟩
  simp only [Sys.setReader, dev]

/-- The read that finds `keys` 0 copies from `kbuf`. -/
lemma run_copy {s s' : Sys} {r c} (read : s.readers r = some c)
    (go : run step s [.readEvaluate r, .readCopy r true] = some s') :
    s'.readers r =
      some { c with pc := .finish s.dev.kbuf (s.dev.load s.dev.kbuf c.len.toNat) } := by
  obtain ⟨s1, st1, go1⟩ := Option.bind_eq_some_iff.mp go
  rw [run_singleton] at go1
  obtain ⟨c1, read1, -, rfl⟩ := step_readEvaluate st1
  cases read.symm.trans read1
  obtain ⟨c2, read2, -, rfl⟩ := step_readCopy go1
  cases Sys.setReader_self.symm.trans read2
  exact Sys.setReader_self

/-! ## Delivery order -/

/-- What a resumed read hands out: the buffer as it was when `keys` was set, filled downwards with
    the scancodes since then. -/
lemma run_delivers {s s1 s2 : Sys} {r len l junk pre mid data} (pos : 0 < len.toNat)
    (irqs : ∀ e ∈ pre, e.isInterrupt)
    (enter : run step s (.readEnter r len (some (l, junk)) :: pre ++ [.readSetKeys r]) = some s1)
    (held : s1.dev.heap.get l = some data) (waits : ∀ e ∈ mid, Waits r e)
    (rest : run step s1 (mid ++ [.readEvaluate r, .readCopy r true]) = some s2) :
    data.length = len.toNat ∧ s2.readers r = some ⟨len, .buf l,
      .finish (.buf l) (some (fillDown data (len.setWidth 32) (received mid)))⟩ := by
  obtain ⟨p, d, alloc, dev1, read1⟩ := run_begin irqs enter
  obtain ⟨rfl, get, size⟩ := kmalloc_some pos alloc
  have keys1 : s1.dev.keys = len.setWidth 32 := by rw [dev1]
  have kbuf1 : s1.dev.kbuf = .buf l := by
    rw [dev1]
    exact interrupt_kbuf
  have len1 : data.length = len.toNat := by
    have get1 : s1.dev.heap.get l = some (fillDown junk d.keys (received pre)) := by
      rw [dev1]
      exact interrupt_get rfl get
    rw [held] at get1
    cases get1
    rw [length_fillDown, size]
  obtain ⟨sm, gom, goc⟩ := run_split rest
  obtain ⟨devm, ⟨pc, readm⟩, -⟩ := run_waits waits read1 gom
  have kbufm : sm.dev.kbuf = .buf l := by
    rw [devm, interrupt_kbuf, kbuf1]
  have getm : sm.dev.heap.get l = some (fillDown data (len.setWidth 32) (received mid)) := by
    rw [devm, ← keys1]
    exact interrupt_get kbuf1 held
  refine ⟨len1, ?_⟩
  rw [run_copy readm goc, kbufm]
  simp [Dev.load, getm, len1, Nat.pos_iff_ne_zero.mp pos, List.take_of_length_le]

/-- A read of `len ≥ 1` bytes with a buffer, resumed by the handler call that sets `keys` to 0,
    hands out the scancodes in arrival order exactly when each of them happens to equal what the
    buffer holds at its index: the scancodes since `keys` was set in reverse order at the indices
    from 1 on, and what was there before anywhere else. Here `pre` are the interrupts before `keys`
    is set, `data` is the buffer at that moment, and `mid` are the events until the read is
    resumed. -/
theorem delivered_in_order_iff {s s1 s2 : Sys} {r len l junk pre mid data} (pos : 0 < len.toNat)
    (irqs : ∀ e ∈ pre, e.isInterrupt)
    (enter : run step s (.readEnter r len (some (l, junk)) :: pre ++ [.readSetKeys r]) = some s1)
    (held : s1.dev.heap.get l = some data) (waits : ∀ e ∈ mid, Waits r e)
    (count : (received mid).length = len.toNat % 2 ^ 32)
    (rest : run step s1 (mid ++ [.readEvaluate r, .readCopy r true]) = some s2) :
    ∃ bytes, s2.readers r = some ⟨len, .buf l, .finish (.buf l) (some bytes)⟩ ∧
      (bytes = (received pre ++ received mid).take len.toNat ↔
        ∀ i < len.toNat, (received pre ++ received mid)[i]? =
          if 0 < i ∧ i ≤ len.toNat % 2 ^ 32 ∧ i < 2 ^ 31 then
            (received mid)[len.toNat % 2 ^ 32 - i]?
          else data[i]?) := by
  obtain ⟨size, copied⟩ := run_delivers pos irqs enter held waits rest
  refine ⟨fillDown data (len.setWidth 32) (received mid), copied, ?_⟩
  have at_i : ∀ i < len.toNat, (fillDown data (len.setWidth 32) (received mid))[i]? =
      if 0 < i ∧ i ≤ len.toNat % 2 ^ 32 ∧ i < 2 ^ 31 then
        (received mid)[len.toNat % 2 ^ 32 - i]? else data[i]? := by
    intro i lt
    have top : (len.setWidth 32).toNat = len.toNat % 2 ^ 32 := BitVec.toNat_setWidth ..
    rw [getElem?_fillDown (by rw [size]; exact lt) (by rw [count, top]), top, count]
    exact if_congr (by omega) rfl rfl
  constructor
  · intro eq i lt
    rw [← at_i i lt, eq, List.getElem?_take_of_lt lt]
  · intro all
    refine List.ext_getElem?' fun i lt => ?_
    rw [length_fillDown, size, List.length_take, Nat.max_eq_left (Nat.min_le_left ..)] at lt
    rw [at_i i lt, ← all i lt, List.getElem?_take_of_lt lt]

/-- The device with one open file. -/
def oneFile : Sys := { Sys.init with dev := keylogOpen .init true, files := 1 }

/-- A buffer that holds the first scancode by chance is delivered in order. -/
theorem delivered_by_chance :
    ∃ s1 s2 bytes,
      run step oneFile [.readEnter 0 2 (some (5, [30, 0])), .readSetKeys 0] = some s1 ∧
      run step s1 [.readEvaluate 0, .interrupt [30], .interrupt [31], .readEvaluate 0,
        .readCopy 0 true] = some s2 ∧
      s2.readers 0 = some ⟨2, .buf 5, .finish (.buf 5) (some bytes)⟩ ∧ bytes = [30, 31] := by
  have waits : ∀ e ∈ [Event.readEvaluate 0, .interrupt [30], .interrupt [31]], Waits 0 e := by
    simp [Waits]
  have enter := (rfl : run step oneFile
    (.readEnter 0 2 (some (5, [30, 0])) :: [] ++ [.readSetKeys 0]) = some _)
  obtain ⟨bytes, copied, eq⟩ := delivered_in_order_iff (by decide) (List.forall_mem_nil _) enter
    rfl waits rfl rfl
  exact ⟨_, _, bytes, rfl, rfl, copied, eq.mpr (by decide)⟩

/-- Two scancodes, 30 and 31: the user gets a byte of the fresh buffer and 31. -/
theorem delivered_out_of_order :
    ∃ s,
      run step oneFile [.readEnter 0 2 (some (5, [0, 0])), .readSetKeys 0, .readEvaluate 0,
        .interrupt [30], .interrupt [31], .readEvaluate 0, .readCopy 0 true] = some s ∧
      s.readers 0 = some ⟨2, .buf 5, .finish (.buf 5) (some [0, 31])⟩ := by
  exact ⟨_, rfl, rfl⟩

/-! ## The wake condition -/

/-- `upto` leads to the `n`-th interrupt of the run `ts`, and `after` follows it before the reader
    `r` tests `keys == 0` again. -/
structure Window (r n : Nat) (ts upto after : List Event) : Prop where
  last : ∃ ts1 scs, upto = ts1 ++ [.interrupt scs] ∧ interrupts ts1 + 1 = n
  inside : upto ++ after <+: ts
  unseen : .readEvaluate r ∉ after

/-- How far one interrupt lowers `keys`: each of the registered handlers by one, if there is a
    buffer. -/
def drop (s : Sys) (ans : Option (Loc × List UInt8)) : Nat :=
  match ans with
  | none => 0
  | some _ => s.dev.actions

/-- The interrupts of two parts. -/
lemma interrupts_append {ts us} : interrupts (ts ++ us) = interrupts ts + interrupts us :=
  List.countP_append

namespace Window
variable {r n : Nat} {ts upto after : List Event}

/-- `n` interrupts have come. -/
lemma count (w : Window r n ts upto after) : interrupts upto = n := by
  obtain ⟨ts1, scs, rfl, e⟩ := w.last
  rw [interrupts_append, ← e]
  rfl

/-- What follows are interrupts, as the reader has not tested yet. -/
lemma count_after (w : Window r n ts upto after) (waits : ∀ e ∈ ts, Waits r e) :
    interrupts after = after.length := by
  rw [interrupts, List.countP_eq_length]
  intro e mem
  have we := waits e (w.inside.subset (List.mem_append_right _ mem))
  cases e with
  | interrupt => rfl
  | readEvaluate r' =>
    cases we
    exact absurd mem w.unseen
  | _ => exact we.elim

/-- A part of what follows will do. -/
lemma shrink {k : Nat} (w : Window r n ts upto after) : Window r n ts upto (after.take k) :=
  ⟨w.last, ((List.prefix_append_right_inj _).mpr (List.take_prefix _ _)).trans w.inside,
    fun mem => w.unseen (List.mem_of_mem_take mem)⟩

end Window

/-- `keys` in a window, as a number modulo `2 ^ 32`. -/
lemma keys_window {s s1 s2 : Sys} {r len ans pre ts upto after} (pos : 0 < len.toNat)
    (irqs : ∀ e ∈ pre, e.isInterrupt)
    (enter : run step s (.readEnter r len ans :: pre ++ [.readSetKeys r]) = some s1)
    (waits : ∀ e ∈ ts, Waits r e) (w : Window r len.toNat ts upto after)
    (go : run step s1 (upto ++ after) = some s2) :
    s2.dev.keys = 0 ↔ drop s ans * (len.toNat + after.length) ≡ len.toNat [MOD 2 ^ 32] := by
  obtain ⟨p, d, alloc, dev1, read1⟩ := run_begin irqs enter
  obtain ⟨dev2, -, count⟩ := run_waits (fun e mem => waits e (w.inside.subset mem)) read1 go
  have keys1 : s1.dev.keys = len.setWidth 32 := by rw [dev1]
  have kbuf1 : s1.dev.kbuf = p := by
    rw [dev1]
    exact interrupt_kbuf
  rw [interrupts_append, w.count, w.count_after waits] at count
  have acts1 : s1.dev.actions = s.dev.actions := by
    obtain ⟨h, k, e⟩ := interrupt_frame { d with kbuf := p } (received pre)
    obtain ⟨h', e'⟩ := kmalloc_frame alloc
    rw [dev1, e, e']
  have keys2 : s2.dev.keys =
      len.setWidth 32 - BitVec.ofNat 32 (drop s ans * (len.toNat + after.length)) := by
    rw [dev2, interrupt_keys, keys1, kbuf1, count, acts1, Nat.mul_comm]
    cases ans with
    | none =>
      rw [if_pos (kmalloc_none pos alloc), drop, Nat.zero_mul]
      rfl
    | some a =>
      rw [if_neg, drop]
      rw [(kmalloc_some pos alloc).1]
      exact buf_ne_null
  rw [keys2, show (0 : BitVec 32) = 0#32 from rfl, BitVec.sub_eq_iff_eq_add, BitVec.zero_add,
    eq_comm, ← BitVec.toNat_inj, BitVec.toNat_setWidth, BitVec.toNat_ofNat]
  rfl

/-- While one read of `len ≥ 1` bytes waits, `keys == 0` holds from the `len`-th interrupt until the
    reader tests it exactly when `len` interrupts lower `keys` by `len` (modulo `2 ^ 32`, which they
    do with one handler and a buffer) and no further interrupt falls into the window (unless
    interrupts do not change `keys` at all). -/
theorem wake_condition_stable_iff {s s1 s2 : Sys} {r len ans pre ts} (pos : 0 < len.toNat)
    (irqs : ∀ e ∈ pre, e.isInterrupt)
    (enter : run step s (.readEnter r len ans :: pre ++ [.readSetKeys r]) = some s1)
    (waits : ∀ e ∈ ts, Waits r e) (go : run step s1 ts = some s2) :
    (∀ upto after s', Window r len.toNat ts upto after → run step s1 (upto ++ after) = some s' →
      s'.dev.keys = 0) ↔
    (∀ upto after, Window r len.toNat ts upto after →
      drop s ans * len.toNat ≡ len.toNat [MOD 2 ^ 32] ∧
      (after ≠ [] → drop s ans ≡ 0 [MOD 2 ^ 32] ∧ len.toNat ≡ 0 [MOD 2 ^ 32])) := by
  constructor
  · intro stable upto after w
    -- the window cut down to its first `k` events
    have cut : ∀ k, drop s ans * (len.toNat + (after.take k).length) ≡ len.toNat [MOD 2 ^ 32] := by
      intro k
      have w' := w.shrink (k := k)
      obtain ⟨us, rfl⟩ := w'.inside
      obtain ⟨s', go', -⟩ := run_split go
      exact (keys_window pos irqs enter waits w' go').mp (stable _ _ _ w' go')
    have first : drop s ans * len.toNat ≡ len.toNat [MOD 2 ^ 32] := cut 0
    refine ⟨first, fun ne => ?_⟩
    obtain ⟨e, us, rfl⟩ := List.exists_cons_of_ne_nil ne
    have second : drop s ans * len.toNat + drop s ans ≡ len.toNat [MOD 2 ^ 32] := by
      rw [← Nat.mul_succ]
      exact cut 1
    have zero : drop s ans ≡ 0 [MOD 2 ^ 32] :=
      Nat.ModEq.add_left_cancel' _ (second.trans first.symm)
    refine ⟨zero, first.symm.trans ?_⟩
    have := zero.mul_right len.toNat
    rwa [Nat.zero_mul] at this
  · intro cond upto after s' w go'
    obtain ⟨first, further⟩ := cond upto after w
    refine (keys_window pos irqs enter waits w go').mpr ?_
    cases after with
    | nil => exact first
    | cons e us =>
      obtain ⟨zero, len0⟩ := further (List.cons_ne_nil e us)
      have := zero.mul_right (len.toNat + (e :: us).length)
      rw [Nat.zero_mul] at this
      exact this.trans len0.symm

/-- One scancode, and the reader tests before the next one: `keys == 0` holds when it does. -/
theorem wake_condition_stable_once :
    ∃ s1 s2,
      run step oneFile [.readEnter 0 1 (some (5, [0])), .readSetKeys 0] = some s1 ∧
      run step s1 [.readEvaluate 0, .interrupt [30], .readEvaluate 0] = some s2 ∧
      ∀ upto after s', Window 0 1 [.readEvaluate 0, .interrupt [30], .readEvaluate 0] upto after →
        run step s1 (upto ++ after) = some s' → s'.dev.keys = 0 := by
  have waits : ∀ e ∈ [Event.readEvaluate 0, .interrupt [30], .readEvaluate 0], Waits 0 e := by
    simp [Waits]
  have enter := (rfl : run step oneFile
    (.readEnter 0 1 (some (5, [0])) :: [] ++ [.readSetKeys 0]) = some _)
  refine ⟨_, _, enter, rfl,
    (wake_condition_stable_iff (by decide) (List.forall_mem_nil _) enter waits
    rfl).mpr fun upto after w => ⟨rfl, fun ne => ?_⟩⟩
  -- the run has one interrupt, and `upto` ends with it
  obtain ⟨us, e⟩ := w.inside
  have total := congrArg interrupts e
  rw [interrupts_append, interrupts_append, w.count, w.count_after waits] at total
  have one : interrupts [.readEvaluate 0, .interrupt [30], .readEvaluate 0] = 1 := rfl
  have pos := List.length_pos_iff.mpr ne
  rw [one] at total
  change 1 + _ + _ = 1 at total
  omega

/-- A key press and its release arrive before the reader runs: `keys` is -1 when it tests, and it
    sleeps again. -/
theorem wake_condition_lost :
    ∃ s s',
      run step oneFile [.readEnter 0 1 (some (5, [0])), .readSetKeys 0, .readEvaluate 0,
        .interrupt [30], .interrupt [158]] = some s ∧
      s.dev.keys = -1 ∧ step s (.readEvaluate 0) = some s' ∧
      s'.readers 0 = some ⟨1, .buf 5, .asleep⟩ := by
  exact ⟨_, _, rfl, rfl, rfl, rfl⟩

end KernelModules.Keylog
