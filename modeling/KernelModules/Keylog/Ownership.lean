import KernelModules.Keylog.Idle

/-!
# Who owns the buffers of the keylogger

Every `keylog_read` of `keyboard_interrupt_misc_device.c` allocates a buffer, but it copies from and
frees whatever the global `kbuf` points to when it gets there, and it frees nothing when a signal or
a fault ends it early.

`Audit` is the system with a record of all calls so far: how often the buffer of each was passed to
`kfree`, whether it copied from another one, and whether it has returned. The record only watches; a
pointer stands for the newest buffer that was allocated at its address.

* `owned_of_alone`: reads that do not overlap and are not ended early own their buffers; and a read
  with a buffer that another read has overtaken leaves its buffer behind when it returns.
-/

namespace KernelModules.Keylog

/-- A call of `keylog_read` and what has become of its buffer. -/
structure Call where
  thread : Nat
  own : Ptr          -- what its `kmalloc` returned
  frees : Nat        -- how often this buffer was passed to `kfree`
  crossed : Bool     -- whether it gave its user bytes of anything but this buffer
  returned : Bool
  deriving Repr, DecidableEq

/-- Changes the newest of the calls that meet a condition. -/
def amend (p : Call → Bool) (f : Call → Call) : List Call → List Call
  | [] => []
  | c :: cs => if p c then f c :: cs else c :: amend p f cs

/-- Whether a pointer leads to the buffer of the call that thread `r` is in. -/
def leadsToOwn (cs : List Call) (r : Nat) (p : Ptr) : Bool :=
  match p with
  | .buf l => cs.findIdx (·.own = .buf l) = cs.findIdx (·.thread = r)
  | _ => false

/-- What a step from `s` to `s'` adds to the record of the calls. -/
def record (s s' : Sys) (cs : List Call) : Event → List Call
  | .readEnter r _ _ => ⟨r, s'.dev.kbuf, 0, false, false⟩ :: cs
  | .readSignal r =>
    if s'.readers r = none then amend (·.thread = r) (fun c => { c with returned := true }) cs
    else cs
  | .readCopy r false => amend (·.thread = r) (fun c => { c with returned := true }) cs
  | .readCopy r true =>
    -- a read of no bytes copies from nowhere
    if (s.readers r).any (·.len ≠ 0) && !leadsToOwn cs r s.dev.kbuf then
      amend (·.thread = r) (fun c => { c with crossed := true }) cs
    else cs
  | .readFinish r =>
    let freed := match s.dev.kbuf with
      | .buf l => amend (·.own = .buf l) (fun c => { c with frees := c.frees + 1 }) cs
      | _ => cs
    amend (·.thread = r) (fun c => { c with returned := true }) freed
  | _ => cs

/-- The system and the calls so far, the newest first. -/
structure Audit where
  sys : Sys
  calls : List Call

namespace Audit

/-- The system when the module has been loaded. -/
def init : Audit := ⟨.init, []⟩

/-- One step of the system, recorded. -/
def step (a : Audit) (e : Event) : Option Audit :=
  (Keylog.step a.sys e).map fun s' => ⟨s', record a.sys s' a.calls e⟩

/-- Every buffer was passed to `kfree` at most once, and once when its read returned; and every read
    copied from the buffer it allocated. -/
def Owned (a : Audit) : Prop :=
  ∀ c ∈ a.calls, c.crossed = false ∧
    ∀ l, c.own = .buf l → c.frees ≤ 1 ∧ (c.returned = true → c.frees = 1)

end Audit

/-- Reads one at a time that are not ended early: a read is entered only when no other one is in
    progress; without a buffer its length is not a multiple of `2 ^ 32`, unless it is 0; and neither
    a signal nor a fault ends a read that has a buffer. -/
def Alone (s : Sys) : Event → Prop
  | .readEnter _ len ans => s.Idle ∧ (ans = none → len = 0 ∨ len.setWidth 32 ≠ (0 : BitVec 32))
  | .readSignal r => ∀ c, s.readers r = some c → (∀ l, c.own ≠ .buf l) ∨ s.dev.keys = 0
  | .readCopy r false => ∀ c, s.readers r = some c → ∀ l, c.own ≠ .buf l
  | _ => True

/-! ## Reads one at a time -/

/-- Why a read with this pointer will not copy from elsewhere: it has a buffer, or no bytes to copy,
    or `keys` is not 0 and no handler lowers it. -/
def Settled (keys : BitVec 32) (c : Reader) : Ptr → Prop
  | .buf _ => True
  | .zeroSize => c.len = 0
  | .null => c.len.setWidth 32 ≠ (0 : BitVec 32) ∧
      (c.pc = .setKeys ∨ (c.pc = .evaluate ∨ c.pc = .asleep) ∧ keys ≠ 0)

/-- The call `c` of thread `r` is the only one in progress, and `kbuf` is its own pointer. -/
structure Only (a : Audit) (r : Nat) (c : Reader) : Prop where
  newest : ∃ rest, a.calls = ⟨r, c.own, 0, false, false⟩ :: rest
  kbuf : a.sys.dev.kbuf = c.own
  others : ∀ r', r' ≠ r → a.sys.readers r' = none
  live : ∀ l, c.own = .buf l → a.sys.dev.heap.get l ≠ none
  settled : Settled a.sys.dev.keys c c.own

/-- What holds after steps that meet `Alone`. -/
structure AloneInv (a : Audit) : Prop where
  owned : a.Owned
  only : ∀ r c, a.sys.readers r = some c → Only a r c

/-- An audited step is a step of the driver and its record. -/
lemma Audit.step_eq {a a' : Audit} {e} (st : a.step e = some a') :
    Keylog.step a.sys e = some a'.sys ∧ a'.calls = record a.sys a'.sys a.calls e := by
  obtain ⟨s', st', rfl⟩ := Option.map_eq_some_iff.mp st
  exact ⟨st', rfl⟩

/-- A step that leaves the record, `kbuf`, `keys` and the buffers alone, and the reads up to their
    program counters. -/
lemma AloneInv.frame {a a' : Audit} (inv : AloneInv a) (calls : a'.calls = a.calls)
    (kbuf : a'.sys.dev.kbuf = a.sys.dev.kbuf)
    (live : ∀ l, a.sys.dev.heap.get l ≠ none → a'.sys.dev.heap.get l ≠ none)
    (readers : ∀ r c', a'.sys.readers r = some c' → ∃ c, a.sys.readers r = some c ∧
      c'.own = c.own ∧ (Settled a.sys.dev.keys c c.own → Settled a'.sys.dev.keys c' c.own)) :
    AloneInv a' := by
  refine ⟨?_, ?_⟩
  · intro c mem
    rw [calls] at mem
    exact inv.owned c mem
  · intro r c' read
    obtain ⟨c, read0, own, settled⟩ := readers r c' read
    have only := inv.only r c read0
    refine ⟨?_, ?_, ?_, ?_, ?_⟩
    · rw [calls, own]
      exact only.newest
    · rw [kbuf, own]
      exact only.kbuf
    · intro r' ne
      rw [Option.eq_none_iff_forall_ne_some]
      intro c2 read2
      obtain ⟨c3, read3, -⟩ := readers r' c2 read2
      rw [only.others r' ne] at read3
      cases read3
    · rw [own]
      exact fun l e => live l (only.live l e)
    · rw [own]
      exact settled only.settled

/-- A step of the only read in progress that the record does not show. -/
lemma AloneInv.move {a a' : Audit} {r c c' d} (inv : AloneInv a) (read : a.sys.readers r = some c)
    (sys : a'.sys = { a.sys with dev := d }.setReader r (some c')) (calls : a'.calls = a.calls)
    (own : c'.own = c.own) (kbuf : d.kbuf = a.sys.dev.kbuf) (heap : d.heap = a.sys.dev.heap)
    (settled : Settled a.sys.dev.keys c c.own → Settled d.keys c' c.own) : AloneInv a' := by
  apply inv.frame calls
  · rw [sys]
    exact kbuf
  · intro l live
    rw [sys]
    change d.heap.get l ≠ none
    rw [heap]
    exact live
  · intro r2 c2 read2
    rw [sys] at read2 ⊢
    by_cases e : r2 = r
    · subst e
      rw [Sys.setReader_self] at read2
      cases read2
      exact ⟨c, read, own, settled⟩
    · rw [Sys.setReader_of_ne e] at read2
      cases ((inv.only r c read).others r2 e).symm.trans read2

/-- The only read in progress returns. -/
lemma AloneInv.returns {a a' : Audit} {r c d} (inv : AloneInv a) (read : a.sys.readers r = some c)
    (sys : a'.sys = { a.sys with dev := d }.setReader r none) (owned : a'.Owned) : AloneInv a' := by
  refine ⟨owned, fun r2 c2 read2 => ?_⟩
  rw [sys] at read2
  by_cases e : r2 = r
  · subst e
    rw [Sys.setReader_self] at read2
    cases read2
  · rw [Sys.setReader_of_ne e] at read2
    cases ((inv.only r c read).others r2 e).symm.trans read2

/-- The record with its newest call amended. -/
lemma Audit.Owned.amend {a a' : Audit} {c rest} (c' : Call) (owned : a.Owned)
    (calls : a.calls = c :: rest) (calls' : a'.calls = c' :: rest) (crossed : c'.crossed = false)
    (once : ∀ l, c'.own = .buf l → c'.frees ≤ 1 ∧ (c'.returned = true → c'.frees = 1)) :
    a'.Owned := by
  intro x mem
  rw [calls'] at mem
  cases mem with
  | head => exact ⟨crossed, once⟩
  | tail _ mem => exact owned x (by rw [calls]; exact List.mem_cons_of_mem c mem)

/-- The only read in progress returns, and it has no buffer. -/
lemma AloneInv.returns_bare {a a' : Audit} {r c d} (inv : AloneInv a)
    (read : a.sys.readers r = some c) (sys : a'.sys = { a.sys with dev := d }.setReader r none)
    (calls : a'.calls = amend (·.thread = r) (fun c => { c with returned := true }) a.calls)
    (bare : ∀ l, c.own ≠ .buf l) : AloneInv a' := by
  obtain ⟨rest, newest⟩ := (inv.only r c read).newest
  apply inv.returns read sys
  apply inv.owned.amend ⟨r, c.own, 0, false, true⟩ newest
  · rw [calls, newest]
    simp [Keylog.amend]
  · rfl
  · exact fun l own => absurd own (bare l)

/-- A read that is entered when no other one is in progress owns its buffer. -/
lemma AloneInv.enter {a a' : Audit} {r len ans} (inv : AloneInv a)
    (ok : Alone a.sys (.readEnter r len ans)) (st : a.step (.readEnter r len ans) = some a') :
    AloneInv a' := by
  obtain ⟨st', calls⟩ := a.step_eq st
  obtain ⟨p, d, alloc, sys⟩ := step_readEnter st'
  obtain ⟨idle, refused⟩ := ok
  have kbuf : a'.sys.dev.kbuf = p := by rw [sys]; rfl
  change a'.calls = ⟨r, a'.sys.dev.kbuf, 0, false, false⟩ :: a.calls at calls
  rw [kbuf] at calls
  refine ⟨?_, fun r2 c2 read2 => ?_⟩
  · intro x mem
    rw [calls] at mem
    cases mem with
    | head => exact ⟨rfl, fun l _ => ⟨Nat.zero_le 1, nofun⟩⟩
    | tail _ mem => exact inv.owned x mem
  · have e : r2 = r ∧ c2 = ⟨len, p, .setKeys⟩ := by
      rw [sys] at read2
      by_cases e : r2 = r
      · subst e
        rw [Sys.setReader_self] at read2
        exact ⟨rfl, (Option.some.inj read2).symm⟩
      · rw [Sys.setReader_of_ne e] at read2
        cases (idle r2).symm.trans read2
    obtain ⟨rfl, rfl⟩ := e
    refine ⟨⟨_, calls⟩, kbuf, ?_, ?_, ?_⟩
    · intro r3 ne
      rw [sys, Sys.setReader_of_ne ne]
      exact idle r3
    · intro l own
      rw [sys]
      rcases kmalloc_cases alloc with
        ⟨-, rfl, -⟩ | ⟨-, -, rfl, -⟩ | ⟨-, k, junk, free, -, rfl, -, rfl⟩
      · cases own
      · cases own
      · cases own
        change (a.sys.dev.heap.alloc l junk free).get l ≠ none
        rw [Heap.get_alloc_self]
        exact Option.some_ne_none junk
    · rcases kmalloc_cases alloc with
        ⟨zero, rfl, -⟩ | ⟨ne, rfl, rfl, -⟩ | ⟨-, k, junk, free, -, rfl, -⟩
      · exact zero
      · exact ⟨(refused rfl).resolve_left ne, .inl rfl⟩
      · trivial

namespace Settled
variable {keys keys' : BitVec 32} {c c' : Reader} {p : Ptr}

/-- Only the case without a buffer depends on `keys` and on how far the read is. -/
lemma mono (settled : Settled keys c p) (len : c'.len = c.len)
    (null : p = .null → Settled keys c .null → Settled keys' c' .null) : Settled keys' c' p := by
  cases p with
  | null => exact null rfl settled
  | zeroSize => exact len.trans settled
  | buf l => trivial

/-- A read without a buffer does not get to the copy. -/
lemma not_copy (settled : Settled keys c .null) : c.pc ≠ .copy := by
  intro pc
  obtain ⟨-, e | ⟨e | e, -⟩⟩ := settled
  · cases pc.symm.trans e
  · cases pc.symm.trans e
  · cases pc.symm.trans e

/-- A read that tests `keys == 0`, also when a signal has woken it. -/
lemma tested {pc} (settled : Settled keys c p) (waits : c.pc = .evaluate ∨ c.pc = .asleep)
    (next : keys ≠ 0 → pc = .asleep) : Settled keys { c with pc } p := by
  refine settled.mono rfl ?_
  rintro - ⟨len, e | ⟨-, ne⟩⟩
  · rw [e] at waits
    rcases waits with e | e
    · cases e
    · cases e
  · exact ⟨len, .inr ⟨.inr (next ne), ne⟩⟩

/-- An interrupt lowers no `keys` that a read without a buffer waits for. -/
lemma interrupt {d : Dev} (scs : List UInt8) (kbuf : d.kbuf = p) (settled : Settled d.keys c p) :
    Settled (interrupt d scs).1.keys c p := by
  refine settled.mono rfl ?_
  intro null
  rw [interrupt_keys, if_pos (kbuf.trans null)]
  exact fun settled => by simpa using settled

end Settled

/-- Interrupts change neither the calls nor what is allocated. -/
lemma AloneInv.interrupt {a a' : Audit} {scs} (inv : AloneInv a)
    (st : a.step (.interrupt scs) = some a') : AloneInv a' := by
  obtain ⟨st', calls⟩ := a.step_eq st
  obtain ⟨-, dev, -⟩ := step_interrupt st'
  apply inv.frame calls
  · rw [dev]
    exact interrupt_kbuf
  · intro l live
    rw [dev]
    exact mt interrupt_live.mp live
  · intro r c' read'
    rw [dev]
    obtain ⟨c, read, e⟩ := reads_of_interrupt st' read'
    have kbuf := (inv.only r c read).kbuf
    refine ⟨c, read, ?_, fun settled => ?_⟩
    · rcases e with rfl | ⟨-, rfl⟩
      · rfl
      · rfl
    · have settled' := settled.interrupt scs kbuf
      rcases e with rfl | ⟨sleeps, rfl⟩
      · exact settled'
      · -- a read that is woken tests `keys == 0` again
        refine settled'.mono rfl ?_
        rintro - ⟨len, pc | ⟨-, ne⟩⟩
        · cases sleeps.symm.trans pc
        · exact ⟨len, .inr ⟨.inl rfl, ne⟩⟩

/-- `keys = len` changes no buffer. -/
lemma AloneInv.setKeys {a a' : Audit} {r} (inv : AloneInv a)
    (st : a.step (.readSetKeys r) = some a') : AloneInv a' := by
  obtain ⟨st', calls⟩ := a.step_eq st
  obtain ⟨c, read, -, sys⟩ := step_readSetKeys st'
  apply inv.move read sys calls rfl rfl rfl
  intro settled
  refine settled.mono rfl ?_
  rintro - ⟨len, -⟩
  exact ⟨len, .inr ⟨.inl rfl, len⟩⟩

/-- The test `keys == 0` changes no buffer. -/
lemma AloneInv.evaluate {a a' : Audit} {r} (inv : AloneInv a)
    (st : a.step (.readEvaluate r) = some a') : AloneInv a' := by
  obtain ⟨st', calls⟩ := a.step_eq st
  obtain ⟨c, read, pc, sys⟩ := step_readEvaluate st'
  apply inv.move read sys calls rfl rfl rfl
  intro settled
  exact settled.tested (.inl pc) fun ne => if_neg ne

/-- A signal ends only a read without a buffer. -/
lemma AloneInv.signal {a a' : Audit} {r} (inv : AloneInv a) (ok : Alone a.sys (.readSignal r))
    (st : a.step (.readSignal r) = some a') : AloneInv a' := by
  obtain ⟨st', calls⟩ := a.step_eq st
  obtain ⟨c, read, pc, sys⟩ := step_readSignal st'
  by_cases zero : a.sys.dev.keys = 0
  · rw [if_pos zero] at sys
    have still : a'.sys.readers r ≠ none := by
      rw [sys, Sys.setReader_self]
      exact Option.some_ne_none _
    apply inv.move read sys (calls.trans (if_neg still)) rfl rfl rfl
    intro settled
    exact settled.tested (.inr pc) fun ne => absurd zero ne
  · rw [if_neg zero] at sys
    have gone : a'.sys.readers r = none := by rw [sys, Sys.setReader_self]
    exact inv.returns_bare read sys (calls.trans (if_pos gone)) ((ok c read).resolve_right zero)

/-- A fault ends only a read without a buffer. -/
lemma AloneInv.copy {a a' : Audit} {r ok} (inv : AloneInv a) (alone : Alone a.sys (.readCopy r ok))
    (st : a.step (.readCopy r ok) = some a') : AloneInv a' := by
  obtain ⟨st', calls⟩ := a.step_eq st
  obtain ⟨c, read, pc, sys⟩ := step_readCopy st'
  cases ok with
  | true =>
    have only := inv.only r c read
    obtain ⟨rest, newest⟩ := only.newest
    have settled := only.settled
    have own : c.len = 0 ∨ leadsToOwn a.calls r a.sys.dev.kbuf = true := by
      rw [only.kbuf, newest]
      cases own : c.own with
      | null =>
        rw [own] at settled
        exact absurd pc settled.not_copy
      | zeroSize =>
        rw [own] at settled
        exact .inl settled
      | buf l => exact .inr (by simp [leadsToOwn, List.findIdx_cons])
    have same : a'.calls = a.calls := by
      rw [calls, record, read]
      rcases own with zero | leads
      · simp [zero]
      · simp [leads]
    apply inv.move read sys same rfl rfl rfl
    intro settled
    refine settled.mono rfl ?_
    exact fun _ settled => absurd pc settled.not_copy
  | false => exact inv.returns_bare read sys calls (alone c read)

/-- The end of a read frees its own buffer, as `kbuf` still points to it. -/
lemma AloneInv.finish {a a' : Audit} {r} (inv : AloneInv a)
    (st : a.step (.readFinish r) = some a') : AloneInv a' := by
  obtain ⟨st', calls⟩ := a.step_eq st
  obtain ⟨c, src, bytes, read, -, sys⟩ := step_readFinish st'
  have only := inv.only r c read
  have kbuf := only.kbuf
  cases own : c.own with
  | buf l =>
    obtain ⟨rest, newest⟩ := only.newest
    apply inv.returns read sys
    apply inv.owned.amend ⟨r, .buf l, 1, false, true⟩ newest
    · rw [calls, newest]
      simp [record, kbuf, own, Keylog.amend]
    · rfl
    · exact fun _ _ => ⟨Nat.le_refl 1, fun _ => rfl⟩
  | _ =>
    -- `kfree` of a pointer that is no buffer does nothing
    apply inv.returns_bare read sys
    · rw [calls, record, kbuf, own]
    · intro l e
      cases own.symm.trans e

/-- Steps that have nothing to do with reads keep the invariant. -/
lemma AloneInv.quiet {a a' : Audit} (inv : AloneInv a) (calls : a'.calls = a.calls)
    (readers : a'.sys.readers = a.sys.readers)
    (dev : a'.sys.dev.kbuf = a.sys.dev.kbuf ∧ a'.sys.dev.keys = a.sys.dev.keys ∧
      a'.sys.dev.heap = a.sys.dev.heap) : AloneInv a' := by
  obtain ⟨kbuf, keys, heap⟩ := dev
  apply inv.frame calls kbuf
  · intro l live
    rw [heap]
    exact live
  · intro r c read
    rw [readers] at read
    rw [keys]
    exact ⟨c, read, rfl, fun settled => settled⟩

/-- Every step of reads one at a time keeps the invariant. -/
lemma AloneInv.step {a a' : Audit} {e} (inv : AloneInv a) (ok : Alone a.sys e)
    (st : a.step e = some a') : AloneInv a' := by
  obtain ⟨st', calls⟩ := a.step_eq st
  cases e with
  | readEnter r len ans => exact inv.enter ok st
  | readSetKeys r => exact inv.setKeys st
  | readEvaluate r => exact inv.evaluate st
  | readSignal r => exact inv.signal ok st
  | readCopy r copied => exact inv.copy ok st
  | readFinish r => exact inv.finish st
  | interrupt scs => exact inv.interrupt st
  | keylogOpen | keylogClose | exitTest | exitWait | exitDeregister =>
    obtain ⟨readers, dev⟩ := step_quiet rfl st'
    exact inv.quiet calls readers dev

/-! ## Reads that are overtaken -/

/-- A read that is entered gets a buffer of its own. -/
lemma readEnter_live {s s' : Sys} {r len ans l} (st : step s (.readEnter r len ans) = some s')
    (live : s.dev.heap.get l ≠ none) : s'.dev.heap.get l ≠ none ∧ s'.dev.kbuf ≠ .buf l := by
  obtain ⟨p, d, alloc, rfl⟩ := step_readEnter st
  rcases kmalloc_cases alloc with
    ⟨-, rfl, rfl⟩ | ⟨-, -, rfl, rfl⟩ | ⟨-, k, junk, free, -, rfl, -, rfl⟩
  · exact ⟨live, fun e => by cases e⟩
  · exact ⟨live, fun e => by cases e⟩
  · have ne : l ≠ k := by
      rintro rfl
      exact live free
    refine ⟨?_, fun e => ?_⟩
    · change (s.dev.heap.alloc k junk free).get l ≠ none
      rw [Heap.get_alloc_of_ne ne]
      exact live
    · cases e
      exact ne rfl

/-- A buffer that `kbuf` does not point to stays allocated, and `kbuf` does not come back to it. -/
lemma step_live {s s' : Sys} {e l} (st : step s e = some s') (live : s.dev.heap.get l ≠ none)
    (kbuf : s.dev.kbuf ≠ .buf l) : s'.dev.heap.get l ≠ none ∧ s'.dev.kbuf ≠ .buf l := by
  cases e with
  | readEnter r len ans => exact readEnter_live st live
  | interrupt scs =>
    obtain ⟨-, dev, -⟩ := step_interrupt st
    rw [dev, interrupt_kbuf]
    exact ⟨mt interrupt_live.mp live, kbuf⟩
  | readSetKeys r =>
    obtain ⟨c, -, -, rfl⟩ := step_readSetKeys st
    exact ⟨live, kbuf⟩
  | readEvaluate r =>
    obtain ⟨c, -, -, rfl⟩ := step_readEvaluate st
    exact ⟨live, kbuf⟩
  | readSignal r =>
    obtain ⟨c, -, -, rfl⟩ := step_readSignal st
    exact ⟨live, kbuf⟩
  | readCopy r ok =>
    obtain ⟨c, -, -, rfl⟩ := step_readCopy st
    exact ⟨live, kbuf⟩
  | readFinish r =>
    obtain ⟨c, src, bytes, -, -, rfl⟩ := step_readFinish st
    refine ⟨?_, ?_⟩
    · change (s.dev.kfree s.dev.kbuf).heap.get l ≠ none
      cases p : s.dev.kbuf with
      | null => exact live
      | zeroSize => exact live
      | buf k =>
        have ne : l ≠ k := by
          rintro rfl
          exact kbuf p
        change (s.dev.heap.free k).get l ≠ none
        rw [Heap.get_free_of_ne ne]
        exact live
    · change (s.dev.kfree s.dev.kbuf).kbuf ≠ .buf l
      rw [Dev.kfree_kbuf]
      exact kbuf
  | keylogOpen | keylogClose | exitTest | exitWait | exitDeregister =>
    obtain ⟨-, kbuf', -, heap⟩ := step_quiet rfl st
    rw [kbuf', heap]
    exact ⟨live, kbuf⟩

/-- Amending the record changes the newest call that meets the condition, and no other. -/
lemma amend_split {p : Call → Bool} {f : Call → Call} (pre : List Call) (c : Call)
    (post : List Call) (thread : ∀ c, (f c).thread = c.thread) :
    ∃ pre' c' post', amend p f (pre ++ c :: post) = pre' ++ c' :: post' ∧
      pre'.map Call.thread = pre.map Call.thread ∧ (c' = c ∨ p c = true ∧ c' = f c) := by
  induction pre with
  | nil =>
    by_cases hit : p c = true
    · exact ⟨[], f c, post, by simp [amend, hit], rfl, .inr ⟨hit, rfl⟩⟩
    · exact ⟨[], c, amend p f post, by simp [amend, hit], rfl, .inl rfl⟩
  | cons d pre ih =>
    by_cases hit : p d = true
    · exact ⟨f d :: pre, c, post, by simp [amend, hit], by simp [thread], .inl rfl⟩
    · obtain ⟨pre', c', post', e, threads, same⟩ := ih
      exact ⟨d :: pre', c', post', by simp [amend, hit, e], by simp [threads], same⟩

/-- The newest call that meets the condition is the one that is changed. -/
lemma amend_newest {p : Call → Bool} {f : Call → Call} {pre c post} (miss : ∀ d ∈ pre, p d = false)
    (hit : p c = true) : amend p f (pre ++ c :: post) = pre ++ f c :: post := by
  induction pre with
  | nil => simp [amend, hit]
  | cons d pre ih =>
    obtain ⟨here, rest⟩ := List.forall_mem_cons.mp miss
    simp [amend, here, ih rest]

/-- A call stays in progress until it returns by one of its own steps. -/
lemma returns_of_step {s s' : Sys} {e r} (st : step s e = some s') (was : s.readers r ≠ none)
    (gone : s'.readers r = none) :
    e = .readSignal r ∨ e = .readCopy r false ∨ e = .readFinish r := by
  have other : ∀ {s1 : Sys} {k c}, s' = s1.setReader k c → s1.readers = s.readers → k = r := by
    rintro s1 k c rfl same
    by_contra ne
    rw [Sys.setReader_of_ne (Ne.symm ne), same] at gone
    exact was gone
  have stays : ∀ {s1 : Sys} {k c}, s' = s1.setReader k (some c) → s1.readers = s.readers →
      False := by
    intro s1 k c sys same
    cases other sys same
    rw [sys, Sys.setReader_self] at gone
    cases gone
  cases e with
  | readEnter k len ans =>
    obtain ⟨p, d, -, sys⟩ := step_readEnter st
    exact (stays sys rfl).elim
  | readSetKeys k =>
    obtain ⟨c, -, -, sys⟩ := step_readSetKeys st
    exact (stays sys rfl).elim
  | readEvaluate k =>
    obtain ⟨c, -, -, sys⟩ := step_readEvaluate st
    exact (stays sys rfl).elim
  | readSignal k =>
    obtain ⟨c, -, -, sys⟩ := step_readSignal st
    cases other sys rfl
    exact .inl rfl
  | readCopy k ok =>
    obtain ⟨c, -, -, sys⟩ := step_readCopy st
    cases ok with
    | true => exact (stays sys rfl).elim
    | false =>
      cases other sys rfl
      exact .inr (.inl rfl)
  | readFinish k =>
    obtain ⟨c, src, bytes, -, -, sys⟩ := step_readFinish st
    cases other sys rfl
    exact .inr (.inr rfl)
  | interrupt scs =>
    obtain ⟨c, read⟩ := Option.ne_none_iff_exists'.mp was
    obtain ⟨-, -, readers⟩ := step_interrupt st
    obtain ⟨pc, read', -⟩ := readers r c read
    cases gone.symm.trans read'
  | keylogOpen | keylogClose | exitTest | exitWait | exitDeregister =>
    rw [(step_quiet rfl st).1] at gone
    exact absurd gone was

/-- The calls `cs` still hold the call `c`, its buffer neither freed nor exchanged, behind calls of
    the same threads as before. -/
def Keeps (pre : List Call) (c : Call) (cs : List Call) : Prop :=
  ∃ pre' c' post', cs = pre' ++ c' :: post' ∧ pre'.map Call.thread = pre.map Call.thread ∧
    c'.thread = c.thread ∧ c'.own = c.own ∧ c'.frees = c.frees ∧
    (c.returned = true → c'.returned = true)

/-- A change that leaves the buffer of a call alone keeps the call. -/
lemma Keeps.amend {pre c cs} {p : Call → Bool} {f : Call → Call} (keeps : Keeps pre c cs)
    (thread : ∀ d, (f d).thread = d.thread)
    (mild : ∀ d, p d = true → d.own = c.own → (f d).own = d.own ∧ (f d).frees = d.frees ∧
      (d.returned = true → (f d).returned = true)) : Keeps pre c (amend p f cs) := by
  obtain ⟨pre1, c1, post1, rfl, threads1, thread1, own1, frees1, returned1⟩ := keeps
  obtain ⟨pre2, c2, post2, e, threads2, same | ⟨hit, same⟩⟩ :=
    amend_split (p := p) pre1 c1 post1 thread
  · rw [same] at e
    exact ⟨pre2, c1, post2, e, threads2.trans threads1, thread1, own1, frees1, returned1⟩
  · rw [same] at e
    obtain ⟨own2, frees2, returned2⟩ := mild c1 hit own1
    exact ⟨pre2, f c1, post2, e, threads2.trans threads1, (thread c1).trans thread1,
      own2.trans own1, frees2.trans frees1, fun ret => returned2 (returned1 ret)⟩

/-- Only a `kfree` of its own buffer changes what the record says of a call's buffer. -/
lemma Keeps.record {s s' : Sys} {e : Event} {pre c cs} (keeps : Keeps pre c cs)
    (kbuf : s.dev.kbuf ≠ c.own) (entered : e.entered = none) :
    Keeps pre c (record s s' cs e) := by
  have returns : ∀ {r cs}, Keeps pre c cs →
      Keeps pre c (Keylog.amend (·.thread = r) (fun d => { d with returned := true }) cs) :=
    fun keeps => keeps.amend (fun _ => rfl) fun _ _ _ => ⟨rfl, rfl, fun _ => rfl⟩
  cases e with
  | readEnter r len ans => cases entered
  | readSignal r =>
    rw [Keylog.record]
    split
    case isTrue => exact returns keeps
    case isFalse => exact keeps
  | readCopy r ok =>
    cases ok with
    | false => exact returns keeps
    | true =>
      rw [Keylog.record]
      split
      case isTrue => exact keeps.amend (fun _ => rfl) fun _ _ _ => ⟨rfl, rfl, fun ret => ret⟩
      case isFalse => exact keeps
  | readFinish r =>
    refine returns ?_
    cases p : s.dev.kbuf with
    | null => exact keeps
    | zeroSize => exact keeps
    | buf k =>
      refine keeps.amend (fun _ => rfl) fun d hit own => ?_
      have own' : d.own = .buf k := by simpa using hit
      exact absurd (p.trans (own'.symm.trans own)) kbuf
  | keylogOpen | keylogClose | readSetKeys | readEvaluate | interrupt | exitTest | exitWait
    | exitDeregister => exact keeps

/-- A call of thread `r` whose buffer at `l` is not the target of `kbuf` any more: it has not been
    freed, and the call is in progress or has returned without it. -/
structure Overtaken (a : Audit) (r : Nat) (l : Loc) : Prop where
  left : ∃ pre c post, a.calls = pre ++ c :: post ∧ c.own = .buf l ∧ c.frees = 0 ∧
    (c.returned = true ∨ c.thread = r ∧ r ∉ pre.map Call.thread ∧ a.sys.readers r ≠ none)
  live : a.sys.dev.heap.get l ≠ none
  kbuf : a.sys.dev.kbuf ≠ .buf l

/-- The step by which a call returns without the buffer at `l`. -/
lemma record_returns {s s' : Sys} {e : Event} {pre c post r l} (own : c.own = .buf l)
    (kbuf : s.dev.kbuf ≠ .buf l) (thread : c.thread = r) (newest : r ∉ pre.map Call.thread)
    (gone : s'.readers r = none)
    (ends : e = .readSignal r ∨ e = .readCopy r false ∨ e = .readFinish r) :
    ∃ pre' c' post', record s s' (pre ++ c :: post) e = pre' ++ c' :: post' ∧ c'.own = .buf l ∧
      c'.frees = c.frees ∧ c'.returned = true := by
  have miss : ∀ {pre' : List Call}, pre'.map Call.thread = pre.map Call.thread →
      ∀ d ∈ pre', decide (d.thread = r) = false := by
    intro pre' threads d mem
    rw [decide_eq_false_iff_not]
    rintro rfl
    exact newest (threads ▸ List.mem_map_of_mem mem)
  have hit : decide (c.thread = r) = true := decide_eq_true thread
  rcases ends with rfl | rfl | rfl
  · rw [record, if_pos gone, amend_newest (miss rfl) hit]
    exact ⟨_, _, _, rfl, own, rfl, rfl⟩
  · rw [record, amend_newest (miss rfl) hit]
    exact ⟨_, _, _, rfl, own, rfl, rfl⟩
  · rw [record]
    cases p : s.dev.kbuf with
    | null =>
      rw [amend_newest (miss rfl) hit]
      exact ⟨_, _, _, rfl, own, rfl, rfl⟩
    | zeroSize =>
      rw [amend_newest (miss rfl) hit]
      exact ⟨_, _, _, rfl, own, rfl, rfl⟩
    | buf k =>
      -- the buffer that is freed belongs to another call
      obtain ⟨pre1, c1, post1, e, threads, rfl | ⟨same, -⟩⟩ := amend_split
        (p := fun d => decide (d.own = .buf k)) (f := fun d => { d with frees := d.frees + 1 })
        pre c post fun _ => rfl
      · simp only [e]
        rw [amend_newest (miss threads) hit]
        exact ⟨_, _, _, rfl, own, rfl, rfl⟩
      · rw [decide_eq_true_iff] at same
        exact absurd (p.trans (same.symm.trans own)) kbuf

/-- A call that has lost `kbuf` never gets it back: the steps of others do not free its buffer. -/
lemma Overtaken.step {a a' : Audit} {e r l} (inv : Overtaken a r l) (st : a.step e = some a') :
    Overtaken a' r l := by
  obtain ⟨st', calls⟩ := a.step_eq st
  obtain ⟨live, kbuf⟩ := step_live st' inv.live inv.kbuf
  refine ⟨?_, live, kbuf⟩
  obtain ⟨pre, c, post, calls0, own, frees, status⟩ := inv.left
  rw [calls, calls0]
  have kbuf0 : a.sys.dev.kbuf ≠ c.own := by
    rw [own]
    exact inv.kbuf
  by_cases entered : e.entered = none
  · have keeps : Keeps pre c (record a.sys a'.sys (pre ++ c :: post) e) :=
      Keeps.record ⟨pre, c, post, rfl, rfl, rfl, rfl, rfl, fun ret => ret⟩ kbuf0 entered
    obtain ⟨pre', c', post', e', threads, thread', own', frees', returned⟩ := keeps
    rcases status with ret | ⟨thread, newest, was⟩
    · exact ⟨pre', c', post', e', own'.trans own, frees'.trans frees, .inl (returned ret)⟩
    · by_cases gone : a'.sys.readers r = none
      · obtain ⟨pre2, c2, post2, e2, own2, frees2, ret2⟩ :=
          record_returns own inv.kbuf thread newest
          gone (returns_of_step st' was gone)
        exact ⟨pre2, c2, post2, e2, own2, frees2.trans frees, .inl ret2⟩
      · refine ⟨pre', c', post', e', own'.trans own, frees'.trans frees, .inr ⟨?_, ?_, gone⟩⟩
        · exact thread'.trans thread
        · rw [threads]
          exact newest
  · cases e with
    | readEnter k len ans =>
      refine ⟨⟨k, a'.sys.dev.kbuf, 0, false, false⟩ :: pre, c, post, rfl, own, frees, ?_⟩
      rcases status with ret | ⟨thread, newest, was⟩
      · exact .inl ret
      · -- another thread: this one is in a read
        have ne : r ≠ k := by
          rintro rfl
          exact was (idle_of_readEnter st')
        refine .inr ⟨thread, ?_, fun gone => ?_⟩
        · exact List.not_mem_cons_of_ne_of_not_mem ne newest
        · rcases returns_of_step st' was gone with e | e | e
          · cases e
          · cases e
          · cases e
    | _ => exact absurd rfl entered

/-- Once it returns, its buffer is not freed. -/
lemma Overtaken.misowned {a : Audit} {r l} (inv : Overtaken a r l) (gone : a.sys.readers r = none) :
    ¬ a.Owned := by
  obtain ⟨pre, c, post, calls, own, frees, ret | ⟨-, -, was⟩⟩ := inv.left
  · intro owned
    have mem : c ∈ a.calls := by
      rw [calls]
      exact List.mem_append_right _ List.mem_cons_self
    have once := ((owned c mem).2 l own).2 ret
    rw [frees] at once
    cases once
  · exact absurd gone was

/-- Entering a read overtakes the read in progress. -/
lemma AloneInv.overtake {a a' : Audit} {r c l k len ans} (inv : AloneInv a)
    (read : a.sys.readers r = some c) (own : c.own = .buf l)
    (st : a.step (.readEnter k len ans) = some a') : Overtaken a' r l := by
  obtain ⟨st', calls⟩ := a.step_eq st
  have only := inv.only r c read
  obtain ⟨rest, newest⟩ := only.newest
  obtain ⟨live, kbuf⟩ := readEnter_live st' (only.live l own)
  have was : a.sys.readers r ≠ none := by
    rw [read]
    exact Option.some_ne_none c
  refine ⟨⟨[⟨k, a'.sys.dev.kbuf, 0, false, false⟩], ⟨r, c.own, 0, false, false⟩, rest, ?_, own, rfl,
    .inr ⟨rfl, ?_, fun gone => ?_⟩⟩, live, kbuf⟩
  · rw [calls, newest]
    rfl
  · have ne : r ≠ k := by
      rintro rfl
      exact was (idle_of_readEnter st')
    exact List.not_mem_cons_of_ne_of_not_mem ne List.not_mem_nil
  · rcases returns_of_step st' was gone with e | e | e
    · cases e
    · cases e
    · cases e

/-- A read that has a buffer and is ended early leaves it behind. -/
lemma AloneInv.ended {a a' : Audit} {r c l e} (inv : AloneInv a) (read : a.sys.readers r = some c)
    (own : c.own = .buf l) (early : e = .readSignal r ∨ e = .readCopy r false)
    (st : a.step e = some a') (gone : a'.sys.readers r = none) : ¬ a'.Owned := by
  obtain ⟨st', calls⟩ := a.step_eq st
  obtain ⟨rest, newest⟩ := (inv.only r c read).newest
  have left : a'.calls = ⟨r, c.own, 0, false, true⟩ :: rest := by
    rw [calls, newest]
    rcases early with rfl | rfl
    · simp [record, gone, amend]
    · simp [record, amend]
  intro owned
  have once := (owned _ (by rw [left]; exact List.mem_cons_self)).2 l own
  cases once.2 rfl

/-- Reads one at a time that are not ended early own their buffers. A read with a buffer that is
    ended early does not; and one that another read overtakes does not either, once it has
    returned. -/
theorem owned_of_alone {es a} (ok : Admits (fun a e => Alone a.sys e) Audit.step .init es)
    (go : run Audit.step .init es = some a) :
    a.Owned ∧ ∀ r c l, a.sys.readers r = some c → c.own = .buf l →
      (∀ e a', e = .readSignal r ∨ e = .readCopy r false → a.step e = some a' →
        a'.sys.readers r = none → ¬ a'.Owned) ∧
      ∀ k len ans es' a', run Audit.step a (.readEnter k len ans :: es') = some a' →
        a'.sys.readers r = none → ¬ a'.Owned := by
  have base : AloneInv .init := by
    refine ⟨fun c mem => ?_, fun r c read => ?_⟩
    · cases mem
    · cases read
  have inv : AloneInv a := ok.invariant AloneInv.step base go
  refine ⟨inv.owned, fun r c l read own => ⟨fun e a' early st gone => ?_, ?_⟩⟩
  · exact inv.ended read own early st gone
  · intro k len ans es' a' go' gone
    obtain ⟨a1, st, go1⟩ := Option.bind_eq_some_iff.mp go'
    have left : Overtaken a' r l := run_invariant (P := fun a => Overtaken a r l)
      (q := fun _ => True) (fun inv _ st => inv.step st) (inv.overtake read own st)
      (fun _ _ => trivial) go1
    exact left.misowned gone

/-- Two reads, one after the other. -/
def oneByOne : List Event :=
  [.keylogOpen true, .readEnter 0 1 (some (5, [0])), .readSetKeys 0, .interrupt [30],
    .readEvaluate 0, .readCopy 0 true, .readFinish 0, .readEnter 1 1 (some (5, [0])),
    .readSetKeys 1]

/-- Two reads one after the other both own their buffer, here at one address. -/
theorem owned_oneByOne :
    ∃ a, run Audit.step .init oneByOne = some a ∧
      a.calls = [⟨1, .buf 5, 0, false, false⟩, ⟨0, .buf 5, 1, false, true⟩] ∧ a.Owned := by
  have idle : ∀ {s : Sys}, s.readers 0 = none → (∀ r, s.readers (r + 1) = none) → s.Idle := by
    intro s zero succ r
    cases r with
    | zero => exact zero
    | succ r => exact succ r
  have ok : Admits (fun a e => Alone a.sys e) Audit.step .init oneByOne := by
    refine ⟨trivial, fun a1 st1 => ?_⟩
    cases st1
    refine ⟨⟨idle rfl fun _ => rfl, fun e => by cases e⟩, fun a2 st2 => ?_⟩
    cases st2
    refine ⟨trivial, fun a3 st3 => ?_⟩
    cases st3
    refine ⟨trivial, fun a4 st4 => ?_⟩
    cases st4
    refine ⟨trivial, fun a5 st5 => ?_⟩
    cases st5
    refine ⟨trivial, fun a6 st6 => ?_⟩
    cases st6
    refine ⟨trivial, fun a7 st7 => ?_⟩
    cases st7
    exact ⟨⟨idle rfl fun _ => rfl, fun e => by cases e⟩,
      fun a8 st8 => ⟨trivial, fun a9 st9 => trivial⟩⟩
  exact ⟨_, rfl, rfl, (owned_of_alone ok rfl).1⟩

/-- A read that a signal ends leaks its buffer. And a read that overtakes another one: the first one
    copies from and frees the buffer of the second one, which then frees it again. -/
theorem not_owned :
    (∃ a, run Audit.step .init [.keylogOpen true, .readEnter 0 1 (some (5, [0])), .readSetKeys 0,
        .readEvaluate 0, .readSignal 0] = some a ∧ a.calls = [⟨0, .buf 5, 0, false, true⟩] ∧
      ¬ a.Owned) ∧
    ∃ a, run Audit.step .init [.keylogOpen true, .readEnter 0 1 (some (5, [0])), .readSetKeys 0,
        .readEnter 1 1 (some (6, [0])), .readSetKeys 1, .interrupt [30], .readEvaluate 0,
        .readCopy 0 true, .readFinish 0, .readEvaluate 1, .readCopy 1 true, .readFinish 1] =
          some a ∧
      a.calls = [⟨1, .buf 6, 2, false, true⟩, ⟨0, .buf 5, 0, true, true⟩] ∧ ¬ a.Owned := by
  refine ⟨⟨_, rfl, rfl, fun owned => ?_⟩, ⟨_, rfl, rfl, fun owned => ?_⟩⟩
  · have once := (owned ⟨0, .buf 5, 0, false, true⟩ List.mem_cons_self).2 5 rfl
    cases once.2 rfl
  · have once := (owned ⟨1, .buf 6, 2, false, true⟩ List.mem_cons_self).2 6 rfl
    cases once.2 rfl

end KernelModules.Keylog
