import KernelModules.Keylog.Delivery

/-!
# The indices of the handler's stores

From the moment a call of `keylog_read` has set `kbuf` and `keys`, the handler of
`keyboard_interrupt_misc_device.c` uses the value of `keys` before its decrement as an index. The
stores up to the handler call that makes `keys` zero go to the indices `len`, `len - 1`, ..., 1:
they are distinct, but the first one lies behind the end of the buffer and index 0 is never filled.

`fillsBuffer_iff` says so for every run in which nobody else sets `kbuf` or `keys`; the proof
describes the handler calls of the run by the values that `keys` takes (`countdown`).
-/

namespace KernelModules.Keylog

/-- What a handler call does to the buffer, and the value of `keys` after it. -/
structure HandlerCall where
  store : Option Store
  keys : BitVec 32
  deriving Repr, DecidableEq

/-- The handler calls of an interrupt. -/
def handlerCalls (d : Dev) : List UInt8 → List HandlerCall
  | [] => []
  | sc :: scs =>
    ⟨handlerStore d sc, (testirqHandler d sc).1.keys⟩ :: handlerCalls (testirqHandler d sc).1 scs

/-- The handler calls of a run. -/
def calls : Sys → List Event → List HandlerCall
  | _, [] => []
  | s, e :: es => handlerCalls s.dev e.codes ++ (step s e).elim [] fun s' => calls s' es

/-- The handler calls up to the one that makes `keys` zero. -/
def untilZero : List HandlerCall → List HandlerCall
  | [] => []
  | c :: cs => c :: if c.keys = 0 then [] else untilZero cs

/-- The indices that handler calls store at. -/
def indices (cs : List HandlerCall) : List Int := cs.filterMap fun c => c.store.map Store.index

/-- Nobody but the handlers changes `kbuf` or `keys`. -/
def Undisturbed : Event → Prop
  | .readEnter _ _ _ => False
  | .readSetKeys _ => False
  | _ => True

/-! ## Counting down -/

/-- The index and the value of `keys` after it, for `n` handler calls from `keys = k` on. -/
def countdown (k : BitVec 32) : Nat → List (Option Int × BitVec 32)
  | 0 => []
  | n + 1 => (some k.toInt, k - 1) :: countdown (k - 1) n

/-- Counting down in two parts. -/
lemma countdown_add {k m n} :
    countdown k (m + n) = countdown k m ++ countdown (k - BitVec.ofNat 32 m) n := by
  induction m generalizing k with
  | zero => simp [countdown]
  | succ m ih =>
    have rest : k - 1 - BitVec.ofNat 32 m = k - BitVec.ofNat 32 (m + 1) := by
      rw [Nat.add_comm m 1, BitVec.ofNat_add, BitVec.sub_sub]
      rfl
    rw [Nat.succ_add, countdown, countdown, ih, rest, List.cons_append]

/-- The part of a handler call that `countdown` describes. -/
def HandlerCall.counts (c : HandlerCall) : Option Int × BitVec 32 :=
  (c.store.map Store.index, c.keys)

/-- The handlers of one interrupt count down from `keys`. -/
lemma handlerCalls_counts {d : Dev} {scs} (buf : d.kbuf ≠ .null) :
    (handlerCalls d scs).map HandlerCall.counts = countdown d.keys scs.length := by
  induction scs generalizing d with
  | nil => rfl
  | cons sc scs ih =>
    obtain ⟨h, e⟩ := d.store_frame ⟨d.kbuf, d.keys.toInt, sc⟩
    have next : (testirqHandler d sc).1 = { d with heap := h, keys := d.keys - 1 } := by
      rw [testirqHandler_store buf, e]
    have head : handlerStore d sc = some ⟨d.kbuf, d.keys.toInt, sc⟩ := if_neg buf
    rw [handlerCalls, List.map_cons, next, head, List.length_cons, countdown]
    exact congrArg _ (ih buf)

/-- Every scancode counts `keys` down by one. -/
lemma step_undisturbed {s s' : Sys} {e} (und : Undisturbed e) (buf : s.dev.kbuf ≠ .null)
    (st : step s e = some s') :
    s'.dev.kbuf = s.dev.kbuf ∧ s'.dev.keys = s.dev.keys - BitVec.ofNat 32 e.codes.length := by
  have same : s.dev.keys - BitVec.ofNat 32 0 = s.dev.keys := BitVec.sub_zero _
  cases e with
  | readEnter => exact und.elim
  | readSetKeys => exact und.elim
  | interrupt scs =>
    obtain ⟨-, dev, -⟩ := step_interrupt st
    rw [dev, interrupt_keys, if_neg buf]
    exact ⟨interrupt_kbuf, rfl⟩
  | keylogOpen | keylogClose | exitTest | exitWait | exitDeregister =>
    obtain ⟨-, kbuf, keys, -⟩ := step_quiet rfl st
    exact ⟨kbuf, keys.trans same.symm⟩
  | readEvaluate =>
    obtain ⟨c, -, -, rfl⟩ := step_readEvaluate st
    exact ⟨rfl, same.symm⟩
  | readSignal =>
    obtain ⟨c, -, -, rfl⟩ := step_readSignal st
    exact ⟨rfl, same.symm⟩
  | readCopy =>
    obtain ⟨c, -, -, rfl⟩ := step_readCopy st
    exact ⟨rfl, same.symm⟩
  | readFinish =>
    obtain ⟨c, src, bytes, -, -, rfl⟩ := step_readFinish st
    refine ⟨Dev.kfree_kbuf, ?_⟩
    exact Dev.kfree_keys.trans same.symm

/-- So do the handlers of a whole run. -/
lemma calls_counts {s s' : Sys} {ts} (und : ∀ e ∈ ts, Undisturbed e) (buf : s.dev.kbuf ≠ .null)
    (go : run step s ts = some s') :
    (calls s ts).map HandlerCall.counts = countdown s.dev.keys (received ts).length := by
  induction ts generalizing s with
  | nil => rfl
  | cons e ts ih =>
    obtain ⟨s1, st, go1⟩ := Option.bind_eq_some_iff.mp go
    obtain ⟨kbuf, keys⟩ := step_undisturbed (und e List.mem_cons_self) buf st
    have rest := ih (fun e' mem => und e' (List.mem_cons_of_mem e mem)) (by rwa [kbuf]) go1
    have split : (received (e :: ts)).length = e.codes.length + (received ts).length :=
      List.length_append
    rw [calls, st, Option.elim_some, List.map_append, handlerCalls_counts buf, rest, keys, split,
      countdown_add]

/-- Without a scancode no handler is called. -/
lemma calls_of_received_nil {s : Sys} {ts} (none_ : received ts = []) : calls s ts = [] := by
  induction ts generalizing s with
  | nil => rfl
  | cons e ts ih =>
    obtain ⟨here, rest⟩ := List.append_eq_nil_iff.mp (show e.codes ++ received ts = [] from none_)
    rw [calls, here]
    cases step s e with
    | none => rfl
    | some s' => exact ih rest

/-- The calls up to the one that makes `keys` zero store at the initial value of `keys` and
    downwards to 1. -/
lemma indices_untilZero {cs : List HandlerCall} {k n}
    (shape : cs.map HandlerCall.counts = countdown k n)
    (pos : 0 < k.toNat) (small : k.toNat < 2 ^ 31) :
    indices (untilZero cs) =
      (List.range (min k.toNat n)).map fun j : Nat => (k.toNat : Int) - j := by
  induction n generalizing cs k with
  | zero =>
    rw [List.map_eq_nil_iff.mp shape, Nat.min_zero]
    rfl
  | succ n ih =>
    cases cs with
    | nil => cases shape
    | cons c cs =>
      obtain ⟨head, tail⟩ := List.cons.inj shape
      obtain ⟨index, keys⟩ := Prod.mk.inj head
      have value : k.toInt = k.toNat := BitVec.toInt_eq_toNat_of_lt (by omega)
      have pred : (k - 1).toNat = k.toNat - 1 := by
        rw [BitVec.toNat_sub_of_le (by rw [BitVec.le_def]; exact pos)]
        rfl
      have first : indices (untilZero (c :: cs)) =
          (k.toNat : Int) :: indices (if k - 1 = 0 then [] else untilZero cs) := by
        rw [← value, ← keys]
        exact List.filterMap_cons_some index
      rw [first]
      split
      case isTrue zero =>
        have one : k.toNat = 1 := by
          have := congrArg BitVec.toNat zero
          rw [pred] at this
          simp at this
          omega
        rw [one, Nat.min_eq_left (by omega)]
        rfl
      case isFalse more =>
        have pos' : 0 < (k - 1).toNat := by
          by_contra zero
          exact more (BitVec.eq_of_toNat_eq (Nat.eq_zero_of_not_pos zero))
        have bound : min k.toNat (n + 1) = min (k - 1).toNat n + 1 := by omega
        rw [ih tail pos' (by omega), bound, List.range_succ_eq_map, List.map_cons, List.map_map,
          pred]
        refine congrArg₂ List.cons (by simp) (List.map_congr_left fun j _ => ?_)
        simp only [Function.comp_apply]
        omega

/-! ## A pending read -/

/-- A read that has set `kbuf` and `keys`: its stores go to `len` and downwards until `keys` is
    zero. -/
lemma indices_pending {s0 s1 s2 : Sys} {r c l mid} (read : s0.readers r = some c)
    (got : c.own = .buf l) (kbuf : s0.dev.kbuf = c.own) (pos : 1 ≤ c.len.toNat)
    (small : c.len.toNat ≤ 2 ^ 31 - 1) (set : step s0 (.readSetKeys r) = some s1)
    (und : ∀ e ∈ mid, Undisturbed e) (go : run step s1 mid = some s2) :
    indices (untilZero (calls s1 mid)) =
      (List.range (min c.len.toNat (received mid).length)).map fun j : Nat =>
        (c.len.toNat : Int) - j := by
  obtain ⟨c', read', -, rfl⟩ := step_readSetKeys set
  cases read.symm.trans read'
  have width : (c.len.setWidth 32).toNat = c.len.toNat := by
    rw [BitVec.toNat_setWidth, Nat.mod_eq_of_lt (by omega)]
  have buf : s0.dev.kbuf ≠ .null := by
    rw [kbuf, got]
    exact buf_ne_null
  rw [← width] at pos small ⊢
  exact indices_untilZero (calls_counts und buf go) pos (by omega)

/-- What a pending read of `len` bytes asks of the handler calls: the stores until `keys` is zero go
    to distinct indices of the buffer, and have filled it when `keys` is zero. -/
structure FillsBuffer (len : Nat) (cs : List HandlerCall) : Prop where
  inside : ∀ i ∈ indices (untilZero cs), 0 ≤ i ∧ i < len
  distinct : (indices (untilZero cs)).Nodup
  all : (∃ c ∈ cs, c.keys = 0) → ∀ i : Int, 0 ≤ i → i < len → i ∈ indices (untilZero cs)

/-- While a read of `len` bytes is pending its buffer is filled as it should be exactly as long as
    no handler is called: the first store is at index `len`. -/
theorem fillsBuffer_iff {s0 s1 s2 : Sys} {r c l mid} (read : s0.readers r = some c)
    (got : c.own = .buf l) (kbuf : s0.dev.kbuf = c.own) (pos : 1 ≤ c.len.toNat)
    (small : c.len.toNat ≤ 2 ^ 31 - 1) (set : step s0 (.readSetKeys r) = some s1)
    (und : ∀ e ∈ mid, Undisturbed e) (go : run step s1 mid = some s2) :
    FillsBuffer c.len.toNat (calls s1 mid) ↔ received mid = [] := by
  have shape := indices_pending read got kbuf pos small set und go
  constructor
  · intro fills
    by_contra some_
    have ne := List.length_pos_iff.mpr some_
    have first : (c.len.toNat : Int) ∈ indices (untilZero (calls s1 mid)) := by
      rw [shape]
      exact List.mem_map.mpr ⟨0, List.mem_range.mpr (by omega), by simp⟩
    exact absurd (fills.inside _ first).2 (Int.lt_irrefl _)
  · intro none_
    have nothing : calls s1 mid = [] := calls_of_received_nil none_
    rw [nothing]
    refine ⟨fun i mem => (List.not_mem_nil mem).elim, List.nodup_nil, ?_⟩
    rintro ⟨c, mem, -⟩
    exact (List.not_mem_nil mem).elim

/-- A read of two bytes that nobody types for. -/
theorem fillsBuffer_before_keys :
    ∃ s0 s1, run step .init [.keylogOpen true, .readEnter 0 2 (some (5, [0, 0]))] = some s0 ∧
      step s0 (.readSetKeys 0) = some s1 ∧ FillsBuffer 2 (calls s1 [.readEvaluate 0]) := by
  have und : ∀ e ∈ [Event.readEvaluate 0], Undisturbed e := by simp [Undisturbed]
  have fills : ∀ s0 s1 s2,
      run step .init [.keylogOpen true, .readEnter 0 2 (some (5, [0, 0]))] = some s0 →
      step s0 (.readSetKeys 0) = some s1 → run step s1 [.readEvaluate 0] = some s2 →
      FillsBuffer 2 (calls s1 [.readEvaluate 0]) := by
    intro s0 s1 s2 enter set go
    cases enter
    exact (fillsBuffer_iff (c := ⟨2, .buf 5, .setKeys⟩) rfl rfl rfl (by decide) (by decide) set und
      go).mpr rfl
  exact ⟨_, _, rfl, rfl, fills _ _ _ rfl rfl rfl⟩

/-- A read of two bytes and two keys: the stores are at the indices 2 and 1. -/
theorem fillsBuffer_fails_of_two :
    ∃ s1, run step .init [.keylogOpen true, .readEnter 0 2 (some (5, [0, 0])), .readSetKeys 0] =
        some s1 ∧
      calls s1 [.interrupt [30], .interrupt [31]] =
        [⟨some ⟨.buf 5, 2, 30⟩, 1⟩, ⟨some ⟨.buf 5, 1, 31⟩, 0⟩] ∧
      ¬ FillsBuffer 2 (calls s1 [.interrupt [30], .interrupt [31]]) := by
  refine ⟨_, rfl, rfl, fun fills => ?_⟩
  exact absurd (fills.inside 2 List.mem_cons_self).2 (by decide)

end KernelModules.Keylog
