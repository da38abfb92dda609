import KernelModules.Vram.Transfer

/-!
# Transfers that fault

`my_read` and `my_write` of `hardware_map.c` return `-EFAULT` from the middle of their loops, and
`*off` is advanced behind the loop only. So a transfer whose copy fails at index `k` has moved `k`
bytes, leaves `*off` where it was and does not tell (`writeLoop_fault`, `readLoop_fault`).

`reports_iff` says when the result is consistent with what has been moved.
-/

namespace KernelModules.Vram

/-- The stores that the loop of `my_write` makes, in order. -/
def iowrites (user : Nat → Option UInt8) (off len : BitVec 64) :
    Nat → BitVec 32 → List (Int × UInt8)
  | 0, _ => []
  | fuel + 1, i =>
    if (i.signExtend 64).toNat < len.toNat then
      match user i.toNat with
      | none => []
      | some byte => (off.toInt + i.toInt, byte) :: iowrites user off len fuel (i + 1)
    else []

/-- The stores that `my_write` makes. -/
def writeStores (user : Nat → Option UInt8) (len off : BitVec 64) : List (Int × UInt8) :=
  match clamp off len with
  | none => []
  | some len => iowrites user off len (vramSize + 1) 0

/-- The window after some stores. -/
def Window.puts (vram : Window) (stores : List (Int × UInt8)) : Window :=
  stores.foldl (fun v st => v.poke st.1 st.2) vram

/-- The copies of single bytes succeed in front of index `k`, and the one at `k` fails. -/
def FirstFault (ok : Nat → Bool) (k : Nat) : Prop := (∀ i < k, ok i = true) ∧ ok k = false

/-- A transfer reports what it did: `*off` has advanced by the number of bytes moved, and the value
    returned is that number, or `-EFAULT` when there are none. -/
def Reports (moved : Nat) (off off' : BitVec 64) (ret : Int) : Prop :=
  off'.toInt - off.toInt = moved ∧ (ret = moved ∨ ret = eFault ∧ moved = 0)

/-! ## The loops up to a fault -/

section
variable {user : Nat → Option UInt8} {ok : Nat → Bool} {off len : BitVec 64} {k : Nat}

/-- One store of the loop of `my_write`, unless the byte cannot be read. -/
lemma iowrites_step {fuel i : Nat} (inside : off.toNat + len.toNat ≤ vramSize)
    (lt : i < len.toNat) :
    iowrites user off len (fuel + 1) (BitVec.ofNat 32 i) =
      match user i with
      | none => []
      | some byte =>
        (((off.toNat + i : Nat) : Int), byte) ::
          iowrites user off len fuel (BitVec.ofNat 32 (i + 1)) := by
  have size : vramSize = 131072 := rfl
  obtain ⟨nat, int, ext, succ⟩ := counter_eq (k := i) (by omega)
  have offInt : off.toInt = off.toNat := BitVec.toInt_eq_toNat_of_lt (by omega)
  rw [iowrites, if_pos (by rw [ext]; exact lt), nat, succ, int, offInt]
  rfl

/-- No store at or behind `len`. -/
lemma iowrites_done {fuel i : Nat} (ge : len.toNat ≤ i) (lt : i < 2 ^ 31) :
    iowrites user off len (fuel + 1) (BitVec.ofNat 32 i) = [] := by
  rw [iowrites, if_neg]
  rw [(counter_eq lt).2.2.1]
  omega

/-- The loop of `my_write` stores the bytes in front of the fault, and succeeds if it ends first. -/
lemma writeLoop_fault (inside : off.toNat + len.toNat ≤ vramSize)
    (fault : FirstFault (fun i => (user i).isSome) k) (vram : Window) {fuel i : Nat}
    (le : i ≤ min k len.toNat) (enough : len.toNat < fuel + i) :
    writeLoop user off len fuel (BitVec.ofNat 32 i) vram =
        some (vram.puts (iowrites user off len fuel (BitVec.ofNat 32 i)), decide (len.toNat ≤ k)) ∧
      (iowrites user off len fuel (BitVec.ofNat 32 i)).length = min k len.toNat - i := by
  induction fuel generalizing i vram with
  | zero => omega
  | succ fuel ih =>
    by_cases last : i = len.toNat
    · have size : vramSize = 131072 := rfl
      rw [writeLoop_done (by omega) (by omega), iowrites_done (by omega) (by omega),
        decide_eq_true (by omega : len.toNat ≤ k)]
      refine ⟨rfl, ?_⟩
      rw [List.length_nil]
      omega
    · rw [writeLoop_step vram user fuel inside (by omega), iowrites_step inside (by omega)]
      by_cases here : i = k
      · have stops : user i = none := by
          rw [here]
          exact Option.not_isSome_iff_eq_none.mp (Bool.eq_false_iff.mp fault.2)
        rw [stops, decide_eq_false (by omega : ¬ len.toNat ≤ k)]
        refine ⟨rfl, ?_⟩
        rw [List.length_nil]
        omega
      · obtain ⟨byte, get⟩ := Option.isSome_iff_exists.mp (fault.1 i (by omega))
        obtain ⟨loop, count⟩ := ih (vram.poke ((off.toNat + i : Nat) : Int) byte) (i := i + 1)
          (by omega) (by omega)
        rw [get]
        refine ⟨loop, ?_⟩
        rw [List.length_cons, count]
        omega

/-- The same for the loop of `my_read` and the bytes delivered. -/
lemma readLoop_fault (vram : Window) (inside : off.toNat + len.toNat ≤ vramSize)
    (fault : FirstFault ok k) (out : List UInt8) {fuel i : Nat} (le : i ≤ min k len.toNat)
    (enough : len.toNat < fuel + i) :
    ∃ out', readLoop vram off len ok fuel (BitVec.ofNat 32 i) out =
        some (out', decide (len.toNat ≤ k)) ∧
      out'.length = out.length + (min k len.toNat - i) := by
  induction fuel generalizing i out with
  | zero => omega
  | succ fuel ih =>
    by_cases last : i = len.toNat
    · have size : vramSize = 131072 := rfl
      rw [readLoop_done (by omega) (by omega), decide_eq_true (by omega : len.toNat ≤ k)]
      exact ⟨out, rfl, by omega⟩
    · obtain ⟨byte, -, st⟩ := readLoop_step vram ok fuel out (k := i) inside (by omega)
      rw [st]
      by_cases here : i = k
      · rw [here, fault.2, decide_eq_false (by omega : ¬ len.toNat ≤ k)]
        exact ⟨out, rfl, by omega⟩
      · obtain ⟨out', loop, count⟩ := ih (out ++ [byte]) (i := i + 1) (by omega) (by omega)
        rw [fault.1 i (by omega), if_pos rfl, loop]
        refine ⟨out', rfl, ?_⟩
        rw [count, List.length_append, List.length_singleton]
        omega

/-! ## The handlers -/

/-- The number of bytes that a transfer is to move. -/
def span (off len : BitVec 64) : Nat := min len.toNat (vramSize - off.toNat)

/-- The new `*off` and the value returned, when the copy at index `k` fails. -/
def reported (k : Nat) (off len : BitVec 64) : BitVec 64 × Int :=
  if span off len ≤ k then (off + BitVec.ofNat 64 (span off len), (span off len : Int))
  else (off, eFault)

/-- Behind the window a transfer of 0 bytes is reported. -/
lemma reported_past (past : vramSize ≤ off.toNat) : reported k off len = (off, 0) := by
  have zero : span off len = 0 := by
    unfold span
    omega
  rw [reported, zero, if_pos (Nat.zero_le k), BitVec.add_zero]
  rfl

/-- The bytes to be moved lie in the window. -/
lemma span_inside (len : BitVec 64) (inside : off.toNat < vramSize) :
    off.toNat + (BitVec.ofNat 64 (span off len)).toNat ≤ vramSize := by
  rw [span, clamped_toNat]
  omega

/-- What a handler makes of its loop. -/
lemma finish_eq {α} {x : α} :
    (if decide (span off len ≤ k) then
        (x, off + BitVec.ofNat 64 (span off len), (BitVec.ofNat 64 (span off len)).toInt)
      else (x, off, eFault)) = (x, reported k off len) := by
  rw [show (BitVec.ofNat 64 (span off len)).toInt = span off len from clamped_toInt len off,
    reported]
  by_cases all : span off len ≤ k
  · rw [if_pos (decide_eq_true all), if_pos all]
  · rw [if_neg (by rw [decide_eq_false all]; exact Bool.false_ne_true), if_neg all]

/-- A write with a fault at `k` stores the bytes in front of it, and reports none of them. -/
lemma myWrite_fault (vram : Window) (adm : off.toNat + len.toNat < 2 ^ 63)
    (fault : FirstFault (fun i => (user i).isSome) k) :
    myWrite vram user len off = some (vram.puts (writeStores user len off), reported k off len) ∧
      (writeStores user len off).length = min k (span off len) := by
  rw [myWrite, writeStores, clamp_eq adm]
  by_cases past : vramSize ≤ off.toNat
  · rw [if_pos past, reported_past past]
    refine ⟨rfl, ?_⟩
    rw [List.length_nil, span]
    omega
  · have inside := span_inside len (Nat.lt_of_not_le past)
    obtain ⟨loop, count⟩ := writeLoop_fault inside fault vram (i := 0)
      (Nat.zero_le _) (show _ < vramSize + 1 + 0 by omega)
    rw [show (BitVec.ofNat 64 (span off len)).toNat = span off len from clamped_toNat len off]
      at loop count
    rw [if_neg past]
    refine ⟨?_, count⟩
    rw [← finish_eq]
    exact (congrArg (Option.bind · _) loop).trans rfl

/-- A read with a fault at `k` copies the bytes in front of it, and reports none of them. -/
lemma myRead_fault (vram : Window) (adm : off.toNat + len.toNat < 2 ^ 63)
    (fault : FirstFault ok k) :
    ∃ out, myRead vram ok len off = some (out, reported k off len) ∧
      out.length = min k (span off len) := by
  rw [myRead, clamp_eq adm]
  by_cases past : vramSize ≤ off.toNat
  · rw [if_pos past, reported_past past]
    refine ⟨[], rfl, ?_⟩
    rw [List.length_nil, span]
    omega
  · have inside := span_inside len (Nat.lt_of_not_le past)
    obtain ⟨out, loop, count⟩ := readLoop_fault vram inside fault [] (i := 0)
      (Nat.zero_le _) (show _ < vramSize + 1 + 0 by omega)
    rw [show (BitVec.ofNat 64 (span off len)).toNat = span off len from clamped_toNat len off]
      at loop count
    rw [if_neg past]
    refine ⟨out, ?_, count.trans (Nat.zero_add _)⟩
    rw [← finish_eq]
    exact (congrArg (Option.bind · _) loop).trans rfl

/-- Both handlers report what they moved exactly when nothing or everything has been moved. -/
lemma reports_reported (adm : off.toNat + len.toNat < 2 ^ 63) :
    Reports (min k (span off len)) off (reported k off len).1 (reported k off len).2 ↔
      k = 0 ∨ span off len ≤ k := by
  rw [reported]
  by_cases all : span off len ≤ k
  · rw [if_pos all, Nat.min_eq_right all]
    have le : span off len ≤ len.toNat := Nat.min_le_left ..
    have lens : (BitVec.ofNat 64 (span off len)).toNat = span off len := clamped_toNat len off
    have sum : (off + BitVec.ofNat 64 (span off len)).toNat = off.toNat + span off len := by
      rw [BitVec.toNat_add, lens]
      omega
    have advance : (off + BitVec.ofNat 64 (span off len)).toInt - off.toInt = span off len := by
      rw [BitVec.toInt_eq_toNat_of_lt (by omega), BitVec.toInt_eq_toNat_of_lt (by omega), sum]
      omega
    exact ⟨fun _ => .inr all, fun _ => ⟨advance, .inl rfl⟩⟩
  · rw [if_neg all, Nat.min_eq_left (by omega), Reports, or_iff_left all]
    constructor
    · rintro ⟨stays, -⟩
      exact Int.natCast_eq_zero.mp (stays.symm.trans (Int.sub_self _))
    · rintro rfl
      exact ⟨Int.sub_self _, .inr ⟨rfl, rfl⟩⟩

end

/-- For every window, admissible position and length, and every index `k` at which the first copy of
    a byte fails, `my_write` and `my_read` report what they did exactly when `k` is 0, or the
    transfer ends in front of `k`. What `my_write` did are the stores that make the new window. -/
theorem reports_iff (vram : Window) (off len : BitVec 64) (nonneg : 0 ≤ off.toInt)
    (le : off.toInt + len.toNat ≤ 2 ^ 63 - 1) (k : Nat) :
    (∀ user : Nat → Option UInt8, FirstFault (fun i => (user i).isSome) k →
      ∃ vram' off' ret, myWrite vram user len off = some (vram', off', ret) ∧
        vram' = vram.puts (writeStores user len off) ∧
        (Reports (writeStores user len off).length off off' ret ↔
          k = 0 ∨ min len.toNat (vramSize - off.toNat) ≤ k)) ∧
    (∀ ok : Nat → Bool, FirstFault ok k →
      ∃ out off' ret, myRead vram ok len off = some (out, off', ret) ∧
        (Reports out.length off off' ret ↔ k = 0 ∨ min len.toNat (vramSize - off.toNat) ≤ k)) := by
  have adm := lt_of_admissible nonneg le
  refine ⟨fun user fault => ?_, fun ok fault => ?_⟩
  · obtain ⟨write, count⟩ := myWrite_fault vram adm fault
    refine ⟨_, _, _, write, rfl, ?_⟩
    rw [count]
    exact reports_reported adm
  · obtain ⟨out, read, count⟩ := myRead_fault vram adm fault
    refine ⟨out, _, _, read, ?_⟩
    rw [count]
    exact reports_reported adm

/-- A write and a read of two bytes at position 0 that fault at once. -/
theorem reports_at_first_byte :
    (∃ vram' off' ret, myWrite (.filled vramSize 0) (fun _ => none) 2 0 = some (vram', off', ret) ∧
      Reports (writeStores (fun _ => none) 2 0).length 0 off' ret) ∧
    ∃ out off' ret, myRead (.filled vramSize 0) (fun _ => false) 2 0 = some (out, off', ret) ∧
      Reports out.length 0 off' ret := by
  have none_ : ∀ i < 0, false = true := fun i lt => absurd lt (Nat.not_lt_zero i)
  obtain ⟨writes, reads⟩ := reports_iff (.filled vramSize 0) 0 2 (by decide) (by decide) 0
  obtain ⟨vram', off', ret, write, -, reports⟩ := writes (fun _ => none) ⟨none_, rfl⟩
  obtain ⟨out, off'', ret', read, reports'⟩ := reads (fun _ => false) ⟨none_, rfl⟩
  exact ⟨⟨vram', off', ret, write, reports.mpr (.inl rfl)⟩,
    ⟨out, off'', ret', read, reports'.mpr (.inl rfl)⟩⟩

/-- A write and a read of two bytes that fault at the second one: one byte has been moved, `*off`
    has not, and both return `-EFAULT`. -/
theorem moved_without_report :
    (myWrite (.filled vramSize 0) (fun i => if i = 0 then some 65 else none) 2 0).map Prod.snd =
        some (0, eFault) ∧
      (writeStores (fun i => if i = 0 then some 65 else none) 2 0).length = 1 ∧
      (∃ out, myRead (.filled vramSize 0) (fun i => i = 0) 2 0 = some (out, 0, eFault) ∧
        out.length = 1) ∧ ¬ Reports 1 0 0 eFault := by
  have adm : (0 : BitVec 64).toNat + (2 : BitVec 64).toNat < 2 ^ 63 := by decide
  have both : span 0 2 = 2 := by decide
  have faultIn : FirstFault (fun i => (if i = 0 then some (65 : UInt8) else none).isSome) 1 :=
    ⟨by decide, rfl⟩
  have faultOut : FirstFault (fun i => i = 0) 1 := ⟨by decide, rfl⟩
  obtain ⟨write, stores⟩ := myWrite_fault (.filled vramSize 0) adm faultIn
  obtain ⟨out, read, count⟩ := myRead_fault (.filled vramSize 0) adm faultOut
  rw [both] at stores count
  exact ⟨congrArg _ write, stores, ⟨out, read, count⟩, fun reports => absurd reports.1 (by decide)⟩

end KernelModules.Vram
