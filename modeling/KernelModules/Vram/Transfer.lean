import KernelModules.Base.ByteFile
import KernelModules.Vram.Source
import Mathlib.Algebra.Order.BigOperators.Group.List
import Mathlib.Algebra.Order.Group.Nat

/-!
# The VRAM device is a byte file

`my_read` and `my_write` of `hardware_map.c`, called on any number of open files, do what `ByteFile`
says: they move the range from the position to its end, clamped to the end of the window, and
advance the position by its size.
-/

namespace KernelModules.Vram

/-! ## The loops -/

/-- The loop counter, as long as it has not reached the sign bit. -/
lemma counter_eq {k : Nat} (lt : k < 2 ^ 31) :
    (BitVec.ofNat 32 k).toNat = k ∧ (BitVec.ofNat 32 k).toInt = k ∧
      ((BitVec.ofNat 32 k).signExtend 64).toNat = k ∧
      BitVec.ofNat 32 k + 1 = BitVec.ofNat 32 (k + 1) := by
  have nat : (BitVec.ofNat 32 k).toNat = k := by
    rw [BitVec.toNat_ofNat]
    omega
  have int : (BitVec.ofNat 32 k).toInt = k := by
    rw [BitVec.toInt_eq_toNat_of_lt (by rw [nat]; omega), nat]
  refine ⟨nat, int, ?_, ?_⟩
  · have msb : (BitVec.ofNat 32 k).msb = false := by
      rw [BitVec.msb_eq_false_iff_two_mul_lt, nat]
      omega
    rw [BitVec.signExtend_eq_setWidth_of_msb_false msb, BitVec.toNat_setWidth, nat]
    omega
  · rw [BitVec.ofNat_add]
    rfl

/-- Both handlers in numbers: the clamped length is that of the range in the window. -/
lemma clamp_eq {off len : BitVec 64} (adm : off.toNat + len.toNat < 2 ^ 63) :
    clamp off len = if vramSize ≤ off.toNat then none
      else some (BitVec.ofNat 64 (min len.toNat (vramSize - off.toNat))) := by
  have size : vramSize = 131072 := rfl
  have int : off.toInt = off.toNat := BitVec.toInt_eq_toNat_of_lt (by omega)
  have sum : (off + len).toNat = off.toNat + len.toNat := by
    rw [BitVec.toNat_add]
    omega
  rw [clamp, int, sum]
  by_cases past : vramSize ≤ off.toNat
  · rw [if_pos (by omega), if_pos past]
  · rw [if_neg (by omega), if_neg past]
    split
    case isTrue long =>
      rw [Nat.min_eq_right (by omega)]
      refine congrArg some (BitVec.eq_of_toNat_eq ?_)
      rw [BitVec.toNat_sub, BitVec.toNat_ofNat, BitVec.toNat_ofNat]
      omega
    case isFalse short =>
      rw [Nat.min_eq_left (by omega), BitVec.ofNat_toNat, BitVec.setWidth_eq]

section
variable {vram : Window} {off len : BitVec 64} {fuel k : Nat}

/-- One pass of the loop of `my_read` inside the window. -/
lemma readLoop_step (vram : Window) (ok : Nat → Bool) (fuel : Nat) (out : List UInt8)
    (inside : off.toNat + len.toNat ≤ vramSize) (lt : k < len.toNat) :
    ∃ byte, vram.toList[off.toNat + k]? = some byte ∧
      readLoop vram off len ok (fuel + 1) (BitVec.ofNat 32 k) out =
        if ok k then readLoop vram off len ok fuel (BitVec.ofNat 32 (k + 1)) (out ++ [byte])
        else some (out, false) := by
  have size : vramSize = 131072 := rfl
  obtain ⟨nat, int, ext, succ⟩ := counter_eq (k := k) (by omega)
  have offInt : off.toInt = off.toNat := BitVec.toInt_eq_toNat_of_lt (by omega)
  have bound : off.toNat + k < vram.toList.length := by
    rw [vram.size]
    omega
  refine ⟨vram.toList[off.toNat + k], List.getElem?_eq_getElem bound, ?_⟩
  have get : ioread8 vram (off.toInt + (BitVec.ofNat 32 k).toInt) =
      some vram.toList[off.toNat + k] := by
    rw [int, offInt, ioread8, if_pos (by omega), ← Int.natCast_add, Int.toNat_natCast,
      List.getElem?_eq_getElem bound]
  rw [readLoop, if_pos (by rw [ext]; exact lt), get, nat, succ]
  rfl

/-- The loop of `my_read` ends at `len`. -/
lemma readLoop_done {ok out} (ge : len.toNat ≤ k) (lt : k < 2 ^ 31) :
    readLoop vram off len ok (fuel + 1) (BitVec.ofNat 32 k) out = some (out, true) := by
  rw [readLoop, if_neg]
  rw [(counter_eq lt).2.2.1]
  omega

/-- Without a fault the loop of `my_read` copies the rest of the range. -/
lemma readLoop_eq {out} (inside : off.toNat + len.toNat ≤ vramSize) (le : k ≤ len.toNat)
    (enough : len.toNat < fuel + k) :
    readLoop vram off len (fun _ => true) fuel (BitVec.ofNat 32 k) out =
      some (out ++ slice vram.toList (off.toNat + k) (off.toNat + len.toNat), true) := by
  induction fuel generalizing k out with
  | zero => omega
  | succ fuel ih =>
    by_cases last : k = len.toNat
    · have size : vramSize = 131072 := rfl
      rw [readLoop_done (by omega) (by omega), last, slice, Nat.sub_self, List.take_zero,
        List.append_nil]
    · obtain ⟨byte, get, st⟩ :=
        readLoop_step vram (fun _ => true) fuel out (k := k) inside (by omega)
      rw [st, if_pos rfl, ih (by omega) (by omega), List.append_assoc]
      congr 3
      -- the byte read is the first one of the range that is left
      have drop :
          vram.toList.drop (off.toNat + k) = byte :: vram.toList.drop (off.toNat + k + 1) := by
        obtain ⟨lt, rfl⟩ := List.getElem?_eq_some_iff.mp get
        exact List.drop_eq_getElem_cons lt
      rw [slice, slice, drop, show off.toNat + len.toNat - (off.toNat + k) =
        off.toNat + len.toNat - (off.toNat + (k + 1)) + 1 by omega, List.take_succ_cons]
      rfl

/-- From 0 on it copies the range. -/
lemma readLoop_all (vram : Window) (inside : off.toNat + len.toNat ≤ vramSize) :
    readLoop vram off len (fun _ => true) (vramSize + 1) 0 [] =
      some (slice vram.toList off.toNat (off.toNat + len.toNat), true) :=
  readLoop_eq (k := 0) inside (Nat.zero_le _) (by omega)

/-- One pass of the loop of `my_write` inside the window. -/
lemma writeLoop_step (vram : Window) (user : Nat → Option UInt8) (fuel : Nat)
    (inside : off.toNat + len.toNat ≤ vramSize) (lt : k < len.toNat) :
    writeLoop user off len (fuel + 1) (BitVec.ofNat 32 k) vram =
      match user k with
      | none => some (vram, false)
      | some byte =>
        writeLoop user off len fuel (BitVec.ofNat 32 (k + 1))
          (vram.poke ((off.toNat + k : Nat) : Int) byte) := by
  have size : vramSize = 131072 := rfl
  obtain ⟨nat, int, ext, succ⟩ := counter_eq (k := k) (by omega)
  have offInt : off.toInt = off.toNat := BitVec.toInt_eq_toNat_of_lt (by omega)
  rw [writeLoop, if_pos (by rw [ext]; exact lt), nat, succ]
  cases user k with
  | none => rfl
  | some byte =>
    have put : iowrite8 vram byte (off.toInt + (BitVec.ofNat 32 k).toInt) =
        some (vram.poke ((off.toNat + k : Nat) : Int) byte) := by
      rw [int, offInt, iowrite8, ← Int.natCast_add, if_pos ⟨by omega, by omega⟩]
    simp only [put]
    rfl

/-- The loop of `my_write` ends at `len`. -/
lemma writeLoop_done {user} (ge : len.toNat ≤ k) (lt : k < 2 ^ 31) :
    writeLoop user off len (fuel + 1) (BitVec.ofNat 32 k) vram = some (vram, true) := by
  rw [writeLoop, if_neg]
  rw [(counter_eq lt).2.2.1]
  omega

/-- The loop of `my_write` without a fault: after `k` iterations the first `k` bytes are stored. -/
lemma writeLoop_eq {data : List UInt8} (vram : Window)
    (inside : off.toNat + len.toNat ≤ vramSize) (long : len.toNat ≤ data.length)
    (le : k ≤ len.toNat) (enough : len.toNat < fuel + k) :
    writeLoop (fun i => data[i]?) off len fuel (BitVec.ofNat 32 k)
        (vram.overlay off.toNat (data.take k)) =
      some (vram.overlay off.toNat (data.take len.toNat), true) := by
  induction fuel generalizing k with
  | zero => omega
  | succ fuel ih =>
    by_cases last : k = len.toNat
    · have size : vramSize = 131072 := rfl
      rw [writeLoop_done (by omega) (by omega), last]
    · have lt : k < data.length := by omega
      have next :
          (vram.overlay off.toNat (data.take k)).poke ((off.toNat + k : Nat) : Int) data[k] =
          vram.overlay off.toNat (data.take (k + 1)) := by
        have taken : (data.take k).length = k := by
          rw [List.length_take]
          omega
        rw [List.take_succ_eq_append_getElem lt, ← Buf.poke_overlay, taken]
      rw [writeLoop_step _ _ _ inside (by omega), List.getElem?_eq_getElem lt]
      simp only [next]
      exact ih (by omega) (by omega)

/-- Without a fault the loop of `my_write` stores the data at the position. -/
lemma writeLoop_all {data : List UInt8} (vram : Window) (inside : off.toNat + len.toNat ≤ vramSize)
    (long : len.toNat ≤ data.length) :
    writeLoop (fun i => data[i]?) off len (vramSize + 1) 0 vram =
      some (vram.overlay off.toNat (data.take len.toNat), true) := by
  have loop := writeLoop_eq (k := 0) vram inside long (Nat.zero_le _)
    (by omega : len.toNat < vramSize + 1 + 0)
  rw [List.take_zero, Buf.overlay_nil] at loop
  exact loop

end

/-! ## The handlers -/

section
variable {off len : BitVec 64}

/-- Where a transfer that begins inside the window ends. -/
lemma stop_eq {off len : Nat} (vram : Window) (inside : off < vramSize) :
    stop vram.toList off len = off + min len (vramSize - off) := by
  rw [stop, vram.size]
  omega

/-- A transfer that begins behind the window moves nothing. -/
lemma stop_past {off len : Nat} (vram : Window) (past : vramSize ≤ off) :
    stop vram.toList off len - off = 0 := by
  rw [stop, vram.size]
  omega

/-- The clamped length fits its type. -/
lemma clamped_toNat (len off : BitVec 64) :
    (BitVec.ofNat 64 (min len.toNat (vramSize - off.toNat))).toNat =
      min len.toNat (vramSize - off.toNat) := by
  have size : vramSize = 131072 := rfl
  rw [BitVec.toNat_ofNat]
  omega

/-- It is not negative either. -/
lemma clamped_toInt (len off : BitVec 64) :
    (BitVec.ofNat 64 (min len.toNat (vramSize - off.toNat))).toInt =
      (min len.toNat (vramSize - off.toNat) : Nat) := by
  have size : vramSize = 131072 := rfl
  rw [BitVec.toInt_eq_toNat_of_lt (by rw [clamped_toNat]; omega), clamped_toNat]

/-- What `my_read` returns without a fault, where the addition does not overflow. -/
lemma myRead_eq (vram : Window) (adm : off.toNat + len.toNat < 2 ^ 63) :
    ∃ off', myRead vram (fun _ => true) len off =
        some (slice vram.toList off.toNat (stop vram.toList off.toNat len.toNat), off',
          ((stop vram.toList off.toNat len.toNat - off.toNat : Nat) : Int)) ∧
      off'.toNat = advance vram.toList off.toNat len.toNat := by
  have size : vramSize = 131072 := rfl
  rw [myRead, clamp_eq adm, advance]
  by_cases past : vramSize ≤ off.toNat
  · rw [if_pos past, stop_past vram past]
    refine ⟨off, ?_, rfl⟩
    rw [slice, stop_past vram past, List.take_zero]
    rfl
  · have lens := clamped_toNat len off
    rw [if_neg past, stop_eq vram (by omega), Nat.add_sub_cancel_left]
    refine ⟨off + BitVec.ofNat 64 (min len.toNat (vramSize - off.toNat)), ?_, ?_⟩
    · have loop := readLoop_all vram (by omega : off.toNat +
        (BitVec.ofNat 64 (min len.toNat (vramSize - off.toNat))).toNat ≤ vramSize)
      simp only [loop, lens]
      rw [← clamped_toInt]
      rfl
    · rw [BitVec.toNat_add, lens]
      omega

/-- What `my_write` stores and returns without a fault, where the addition does not overflow. -/
lemma myWrite_eq {data : List UInt8} (vram : Window) (adm : off.toNat + data.length < 2 ^ 63) :
    ∃ off', myWrite vram (fun i => data[i]?) (BitVec.ofNat 64 data.length) off =
        some (vram.overlay off.toNat
            (data.take (stop vram.toList off.toNat data.length - off.toNat)), off',
          ((stop vram.toList off.toNat data.length - off.toNat : Nat) : Int)) ∧
      off'.toNat = advance vram.toList off.toNat data.length := by
  have size : vramSize = 131072 := rfl
  have whole : (BitVec.ofNat 64 data.length).toNat = data.length := by
    rw [BitVec.toNat_ofNat]
    omega
  rw [myWrite, clamp_eq (by rw [whole]; exact adm), advance, whole]
  by_cases past : vramSize ≤ off.toNat
  · rw [if_pos past, stop_past vram past]
    refine ⟨off, ?_, rfl⟩
    rw [List.take_zero, Buf.overlay_nil]
    rfl
  · have lens := clamped_toNat (BitVec.ofNat 64 data.length) off
    rw [whole] at lens
    rw [if_neg past, stop_eq vram (by omega), Nat.add_sub_cancel_left]
    refine ⟨off + BitVec.ofNat 64 (min data.length (vramSize - off.toNat)), ?_, ?_⟩
    · have loop := writeLoop_all vram (by omega : off.toNat +
        (BitVec.ofNat 64 (min data.length (vramSize - off.toNat))).toNat ≤ vramSize)
        (by omega : _ ≤ data.length)
      have ret := clamped_toInt (BitVec.ofNat 64 data.length) off
      rw [whole] at ret
      simp only [loop, lens]
      rw [← ret]
      rfl
    · rw [BitVec.toNat_add, lens]
      omega

end

/-! ## Any number of open files -/

/-- The window, and `f_pos` of each open file. -/
structure Sys where
  vram : Window
  offs : Nat → BitVec 64

/-- A call on an open file. -/
inductive Event where
  | read (f : Nat) (len : BitVec 64)
  | write (f : Nat) (data : List UInt8)
  | seek (f : Nat) (off : BitVec 64)

/-- One call without a fault. -/
def step (s : Sys) : Event → Option (Sys × ByteFile.Reply UInt8)
  | .read f len =>
    (myRead s.vram (fun _ => true) len (s.offs f)).map fun (out, off, ret) =>
      ({ s with offs := Function.update s.offs f off }, ⟨out, ret⟩)
  | .write f data =>
    (myWrite s.vram (fun i => data[i]?) (BitVec.ofNat 64 data.length) (s.offs f)).map
      fun (vram, off, ret) => (⟨vram, Function.update s.offs f off⟩, ⟨[], ret⟩)
  | .seek f off => some ({ s with offs := Function.update s.offs f off }, ⟨[], off.toNat⟩)

/-- What the VFS admits. -/
def Admissible (s : Sys) : Event → Prop
  | .read f len => 0 ≤ (s.offs f).toInt ∧ (s.offs f).toInt + len.toNat ≤ 2 ^ 63 - 1
  | .write f data => 0 ≤ (s.offs f).toInt ∧ (s.offs f).toInt + data.length ≤ 2 ^ 63 - 1
  | .seek _ _ => True

/-- The call as a call on a byte file. -/
def Event.call : Event → ByteFile.Call UInt8
  | .read f len => .read f len.toNat
  | .write f data => .write f data
  | .seek f off => .seek f off.toNat

/-- The device as a byte file. -/
def Sys.byteFile (s : Sys) : ByteFile UInt8 := ⟨s.vram.toList, fun f => (s.offs f).toNat⟩

/-- The byte file after a position has moved. -/
lemma byteFile_update {s : Sys} {vram : Window} {f off} :
    Sys.byteFile ⟨vram, Function.update s.offs f off⟩ =
      ⟨vram.toList, Function.update s.byteFile.offs f off.toNat⟩ := by
  refine congrArg (ByteFile.mk _) (funext fun g => ?_)
  exact Function.apply_update (fun _ => BitVec.toNat) s.offs f off g

/-- What admissible means for the unsigned position. -/
lemma lt_of_admissible {off : BitVec 64} {len : Nat} (nonneg : 0 ≤ off.toInt)
    (le : off.toInt + len ≤ 2 ^ 63 - 1) : off.toNat + len < 2 ^ 63 := by
  have int : off.toInt = off.toNat := by
    rw [BitVec.toInt_eq_toNat_cond] at nonneg ⊢
    have := off.isLt
    split at nonneg
    case isTrue small => rw [if_pos small]
    case isFalse => omega
  omega

/-- A system call that is admissible is one of the byte file. -/
lemma step_refines {s : Sys} {e} (adm : Admissible s e) :
    ∃ s' o, step s e = some (s', o) ∧ s.byteFile.call e.call = (s'.byteFile, o) := by
  cases e with
  | read f len =>
    obtain ⟨off', eq, adv⟩ := myRead_eq s.vram (lt_of_admissible adm.1 adm.2)
    refine ⟨_, _, by rw [step, eq]; rfl, ?_⟩
    rw [byteFile_update, adv]
    rfl
  | write f data =>
    obtain ⟨off', eq, adv⟩ := myWrite_eq s.vram (lt_of_admissible adm.1 adm.2)
    refine ⟨_, _, by rw [step, eq]; rfl, ?_⟩
    rw [byteFile_update, adv]
    rfl
  | seek f off =>
    refine ⟨_, _, rfl, ?_⟩
    rw [byteFile_update]
    rfl

/-- So is every run of admissible calls. -/
lemma trace_refines {s : Sys} {es} (adm : Admits Admissible (silent step) s es) :
    ∃ s' os, trace step s es = some (s', os) ∧
      trace ByteFile.step s.byteFile (es.map Event.call) = some (s'.byteFile, os) := by
  have sim : ∀ {s : Sys} {t : ByteFile UInt8} {e}, t = s.byteFile → Admissible s e →
      ∃ s' t' o, step s e = some (s', o) ∧ t.step e.call = some (t', o) ∧ t' = s'.byteFile := by
    rintro s t e rfl ok
    obtain ⟨s', o, st, refines⟩ := step_refines ok
    exact ⟨s', _, o, st, congrArg some refines, rfl⟩
  obtain ⟨s', t', os, go, go', rfl⟩ := trace_simulates (R := fun s t => t = s.byteFile) sim rfl adm
  exact ⟨s', os, go, trace_map.symm.trans go'⟩

/-- Positions this small are admissible. -/
lemma admissible_of_le {off : BitVec 64} {len : Nat} (le : off.toNat + len ≤ 2 ^ 63 - 1) :
    0 ≤ off.toInt ∧ off.toInt + len ≤ 2 ^ 63 - 1 := by
  rw [BitVec.toInt_eq_toNat_of_lt (by omega)]
  omega

/-- A transfer moves the position by at most its length. -/
lemma advance_le {mem : List UInt8} {off len : Nat} : advance mem off len ≤ off + len := by
  unfold advance stop
  omega

/-- Consecutive calls on one file are admissible when their total is: none of them advances the
    position by more than its length. -/
lemma admits_chunks {γ : Type*} {f : Nat} {size : γ → Nat} {ev : γ → Event}
    (adm : ∀ s c, (s.offs f).toNat + size c ≤ 2 ^ 63 - 1 → Admissible s (ev c))
    (adv : ∀ (t : ByteFile UInt8) c, (t.call (ev c).call).1.offs f ≤ t.offs f + size c)
    {s : Sys} {cs : List γ} (le : (s.offs f).toNat + (cs.map size).sum ≤ 2 ^ 63 - 1) :
    Admits Admissible (silent step) s (cs.map ev) := by
  induction cs generalizing s with
  | nil => exact trivial
  | cons c cs ih =>
    rw [List.map_cons, List.sum_cons] at le
    have first := adm s c (by omega)
    refine ⟨first, fun s' st => ih ?_⟩
    obtain ⟨s1, o, st1, refines⟩ := step_refines first
    rw [silent, st1] at st
    cases st
    have next := adv s.byteFile c
    rw [refines] at next
    change (s1.offs f).toNat ≤ (s.offs f).toNat + size c at next
    change (s1.offs f).toNat + _ ≤ _
    omega

/-- A driver state is known from its byte file. -/
lemma byteFile_injective {s t : Sys} (eq : s.byteFile = t.byteFile) : s = t := by
  obtain ⟨⟨vram, size⟩, offs⟩ := s
  obtain ⟨⟨vram', size'⟩, offs'⟩ := t
  cases congrArg ByteFile.mem eq
  have same : offs = offs' :=
    funext fun f => BitVec.eq_of_toNat_eq (congrFun (congrArg ByteFile.offs eq) f)
  rw [same]

/-- A call that is admissible goes to the state its byte file shows. -/
lemma trace_single {s s' : Sys} {e} (adm : Admissible s e)
    (state : (s.byteFile.call e.call).1 = s'.byteFile) :
    trace step s [e] = some (s', [(s.byteFile.call e.call).2]) := by
  obtain ⟨s1, o, st, refines⟩ := step_refines adm
  rw [refines] at state ⊢
  cases byteFile_injective state
  exact trace_singleton st

/-- Reading in parts returns what one read returns. -/
lemma read_chunks {s : Sys} {f} {ls : List Nat} (le : (s.offs f).toNat + ls.sum ≤ 2 ^ 63 - 1) :
    ∃ s' os o, trace step s (ls.map fun l => .read f (BitVec.ofNat 64 l)) = some (s', os) ∧
      trace step s [.read f (BitVec.ofNat 64 ls.sum)] = some (s', [o]) ∧
      (os.map ByteFile.Reply.data).flatten = o.data := by
  have call : ∀ l < 2 ^ 63, (Event.read f (BitVec.ofNat 64 l)).call = .read f l := by
    intro l lt
    rw [Event.call, BitVec.toNat_ofNat, Nat.mod_eq_of_lt (by omega)]
  have one : ∀ (s : Sys) l, (s.offs f).toNat + l ≤ 2 ^ 63 - 1 →
      Admissible s (.read f (BitVec.ofNat 64 l)) := by
    intro s l le
    refine admissible_of_le ?_
    rw [BitVec.toNat_ofNat, Nat.mod_eq_of_lt (by omega)]
    exact le
  have all : Admits Admissible (silent step) s (ls.map fun l => .read f (BitVec.ofNat 64 l)) := by
    refine admits_chunks (f := f) one (fun t l => ?_) (by rw [List.map_id']; exact le)
    simp only [Event.call, ByteFile.call, Function.update_self, BitVec.toNat_ofNat]
    exact Nat.le_trans advance_le (Nat.add_le_add_left (Nat.mod_le ..) _)
  have calls : (ls.map fun l => Event.read f (BitVec.ofNat 64 l)).map Event.call =
      ls.map (.read f) := by
    rw [List.map_map]
    refine List.map_congr_left fun l mem => ?_
    have := List.single_le_sum (fun x _ => Nat.zero_le x) l mem
    exact call l (by omega)
  obtain ⟨s', os, go, refines⟩ := trace_refines all
  obtain ⟨os', chunked, data⟩ := s.byteFile.reads_chunked (f := f) ls
  rw [calls, chunked] at refines
  obtain ⟨state, rfl⟩ := Prod.mk.inj (Option.some.inj refines)
  rw [← call ls.sum (by omega)] at state data
  exact ⟨s', os', _, go, trace_single (one s ls.sum le) state, data⟩

/-- Writing in parts leaves what one write leaves. -/
lemma write_chunks {s : Sys} {f} {ds : List (List UInt8)}
    (le : (s.offs f).toNat + ds.flatten.length ≤ 2 ^ 63 - 1) :
    ∃ s' os o, trace step s (ds.map fun d => .write f d) = some (s', os) ∧
      trace step s [.write f ds.flatten] = some (s', [o]) := by
  have one : ∀ (s : Sys) d, (s.offs f).toNat + d.length ≤ 2 ^ 63 - 1 → Admissible s (.write f d) :=
    fun s d le => admissible_of_le le
  have all : Admits Admissible (silent step) s (ds.map fun d => .write f d) := by
    refine admits_chunks (f := f) one (fun t d => ?_) (by rw [← List.length_flatten]; exact le)
    simp only [Event.call, ByteFile.call, Function.update_self]
    exact advance_le
  have calls : (ds.map fun d => Event.write f d).map Event.call = ds.map (.write f) := by
    rw [List.map_map]
    rfl
  obtain ⟨s', os, go, refines⟩ := trace_refines all
  obtain ⟨os', chunked⟩ := s.byteFile.writes_chunked (f := f) ds
  rw [calls, chunked] at refines
  obtain ⟨state, rfl⟩ := Prod.mk.inj (Option.some.inj refines)
  exact ⟨s', os', _, go, trace_single (one s ds.flatten le) state⟩

/-- The device refines a byte file of `VRAM_SIZE` bytes over every sequence of admissible calls, and
    a transfer split into consecutive chunks is the same transfer. -/
theorem vram_refines_byteFile :
    (∀ s es, Admits Admissible (silent step) s es →
      ∃ s' os, trace step s es = some (s', os) ∧
        trace ByteFile.step s.byteFile (es.map Event.call) = some (s'.byteFile, os)) ∧
    (∀ s f (ls : List Nat), (s.offs f).toNat + ls.sum ≤ 2 ^ 63 - 1 →
      ∃ s' os o, trace step s (ls.map fun l => .read f (BitVec.ofNat 64 l)) = some (s', os) ∧
        trace step s [.read f (BitVec.ofNat 64 ls.sum)] = some (s', [o]) ∧
        (os.map ByteFile.Reply.data).flatten = o.data) ∧
    (∀ s f (ds : List (List UInt8)), (s.offs f).toNat + ds.flatten.length ≤ 2 ^ 63 - 1 →
      ∃ s' os o, trace step s (ds.map fun d => .write f d) = some (s', os) ∧
        trace step s [.write f ds.flatten] = some (s', [o])) :=
  ⟨fun _ _ adm => trace_refines adm, fun _ _ _ le => read_chunks le,
    fun _ _ _ le => write_chunks le⟩

/-- The cleared window, with every open file at its beginning. -/
def cleared : Sys := ⟨.filled vramSize 0, fun _ => 0⟩

/-- Seven bytes at once, and three and then four of them. -/
theorem vram_reads_in_two_chunks :
    ∃ s' os o, trace step cleared [.read 0 3, .read 0 4] = some (s', os) ∧
      trace step cleared [.read 0 7] = some (s', [o]) ∧
      (os.map ByteFile.Reply.data).flatten = o.data :=
  vram_refines_byteFile.2.1 cleared 0 [3, 4] (by decide)

end KernelModules.Vram
