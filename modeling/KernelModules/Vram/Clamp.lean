import KernelModules.Vram.Faults

/-!
# The arithmetic of the clamp

`my_read` and `my_write` of `hardware_map.c` mix the signed `loff_t`, the unsigned `size_t`, the
`int` constant `VRAM_SIZE` and an `int` as loop counter. Both have the same loop, apart from the
order in which a byte is copied and accessed. `passes` are the values of `i` with which the body of
the loop is entered; what the loops read and store is determined by them (`readLoop_passes`,
`iowrites_eq`).

`clamp_in_range` says that nothing wraps for the positions and lengths that the VFS admits.
-/

namespace KernelModules.Vram

/-- The values of `i` with which the loop enters its body, from `i` on; `ok` says which copies
    succeed. -/
def passes (len : BitVec 64) (ok : Nat → Bool) : Nat → BitVec 32 → List (BitVec 32)
  | 0, _ => []
  | fuel + 1, i =>
    if (i.signExtend 64).toNat < len.toNat then
      i :: if ok i.toNat then passes len ok fuel (i + 1) else []
    else []

/-- The values of `i` during a call of a handler. -/
def callPasses (ok : Nat → Bool) (len off : BitVec 64) : List (BitVec 32) :=
  match clamp off len with
  | none => []
  | some len => passes len ok (vramSize + 1) 0

/-- The bytes that `my_read` delivers when it goes through these values of `i`. -/
def bytesAt (vram : Window) (ok : Nat → Bool) (off : BitVec 64) (is : List (BitVec 32)) :
    List UInt8 :=
  (is.filter fun i => ok i.toNat).filterMap fun i => ioread8 vram (off.toInt + i.toInt)

/-- The stores that `my_write` makes when it goes through these values of `i`. -/
def storesAt (user : Nat → Option UInt8) (off : BitVec 64) (is : List (BitVec 32)) :
    List (Int × UInt8) :=
  is.filterMap fun i => (user i.toNat).map fun byte => (off.toInt + i.toInt, byte)

/-- The values of `i` during a call are as they should be: 0, 1, 2 and so on, as many as there are
    bytes from the position to the end of the range in the window, or up to the first copy that
    fails. None of them changes when it is compared with `len`, none overflows when it is
    incremented, and each index that is accessed lies in the window. -/
structure InRange (off len : BitVec 64) (ok : Nat → Bool) (is : List (BitVec 32)) : Prop where
  counts : is.map BitVec.toInt = (List.range is.length).map Int.ofNat
  runs : is.length = span off len ∨ ∃ k < span off len, FirstFault ok k ∧ is.length = k + 1
  compares : ∀ i ∈ is, ((i.signExtend 64).toNat : Int) = i.toInt
  increments : ∀ i ∈ is, (i + 1).toInt = i.toInt + 1
  inside : ∀ i ∈ is, 0 ≤ off.toInt + i.toInt ∧ off.toInt + i.toInt < vramSize

/-! ## What the loops do -/

section
variable {vram : Window} {ok : Nat → Bool} {user : Nat → Option UInt8} {off len : BitVec 64}

/-- What the loop of `my_read` copies, by the values of `i`. -/
lemma readLoop_passes {fuel i out out' done}
    (loop : readLoop vram off len ok fuel i out = some (out', done)) :
    out' = out ++ bytesAt vram ok off (passes len ok fuel i) := by
  induction fuel generalizing i out with
  | zero => cases loop
  | succ fuel ih =>
    rw [readLoop] at loop
    rw [passes]
    split at loop
    case isTrue more =>
      obtain ⟨byte, get, rest⟩ := Option.bind_eq_some_iff.mp loop
      rw [if_pos more]
      cases copied : ok i.toNat with
      | true =>
        rw [copied, if_pos rfl] at rest
        rw [ih rest, if_pos rfl]
        simp [bytesAt, copied, get]
      | false =>
        rw [copied] at rest
        cases rest
        simp [bytesAt, copied]
    case isFalse stop =>
      cases loop
      rw [if_neg stop]
      exact (List.append_nil _).symm

/-- The stores of the loop of `my_write`. -/
lemma iowrites_eq {fuel i} :
    iowrites user off len fuel i =
      storesAt user off (passes len (fun i => (user i).isSome) fuel i) := by
  induction fuel generalizing i with
  | zero => rfl
  | succ fuel ih =>
    rw [iowrites, passes]
    split
    case isTrue =>
      cases get : user i.toNat with
      | none => simp [storesAt, get]
      | some byte => simp [storesAt, get, ih]
    case isFalse => rfl

/-- What the loop of `my_write` leaves, by its stores. -/
lemma writeLoop_iowrites {fuel i vram' done}
    (loop : writeLoop user off len fuel i vram = some (vram', done)) :
    vram' = vram.puts (iowrites user off len fuel i) := by
  induction fuel generalizing i vram with
  | zero => cases loop
  | succ fuel ih =>
    rw [writeLoop] at loop
    rw [iowrites]
    split at loop
    case isTrue more =>
      rw [if_pos more]
      cases get : user i.toNat with
      | none =>
        rw [get] at loop
        cases loop
        rfl
      | some byte =>
        rw [get] at loop
        obtain ⟨vram1, put, rest⟩ := Option.bind_eq_some_iff.mp loop
        obtain ⟨-, e⟩ := Option.ite_none_right_eq_some.mp put
        cases e
        exact ih rest
    case isFalse stop =>
      cases loop
      rw [if_neg stop]
      rfl

/-- The loop of `my_read` ends, with or without a fault. -/
lemma readLoop_total (vram : Window) (ok : Nat → Bool) (out : List UInt8) {fuel k : Nat}
    (inside : off.toNat + len.toNat ≤ vramSize) (le : k ≤ len.toNat)
    (enough : len.toNat < fuel + k) :
    ∃ out' done, readLoop vram off len ok fuel (BitVec.ofNat 32 k) out = some (out', done) := by
  have size : vramSize = 131072 := rfl
  induction fuel generalizing k out with
  | zero => omega
  | succ fuel ih =>
    by_cases last : k = len.toNat
    · exact ⟨out, true, readLoop_done (by omega) (by omega)⟩
    · obtain ⟨byte, -, st⟩ := readLoop_step vram ok fuel out (k := k) inside (by omega)
      rw [st]
      cases ok k with
      | true => exact ih _ (by omega) (by omega)
      | false => exact ⟨out, false, rfl⟩

/-- The loop of `my_write` ends, with or without a fault. -/
lemma writeLoop_total (vram : Window) (user : Nat → Option UInt8) {fuel k : Nat}
    (inside : off.toNat + len.toNat ≤ vramSize) (le : k ≤ len.toNat)
    (enough : len.toNat < fuel + k) :
    ∃ vram' done, writeLoop user off len fuel (BitVec.ofNat 32 k) vram = some (vram', done) := by
  have size : vramSize = 131072 := rfl
  induction fuel generalizing k vram with
  | zero => omega
  | succ fuel ih =>
    by_cases last : k = len.toNat
    · exact ⟨vram, true, writeLoop_done (by omega) (by omega)⟩
    · rw [writeLoop_step vram user fuel inside (by omega)]
      cases user k with
      | none => exact ⟨vram, false, rfl⟩
      | some byte => exact ih _ (by omega) (by omega)

/-! ## The counter -/

/-- The loop counts up to the length or the first copy that fails. -/
lemma passes_eq (ok : Nat → Bool) {fuel k : Nat} (small : len.toNat ≤ vramSize) (le : k ≤ len.toNat)
    (enough : len.toNat < fuel + k) :
    ∃ n, passes len ok fuel (BitVec.ofNat 32 k) = (List.range' k n).map (BitVec.ofNat 32) ∧
      k + n ≤ len.toNat ∧
      (k + n = len.toNat ∨
        ∃ m, n = m + 1 ∧ ok (k + m) = false ∧ ∀ i, k ≤ i → i < k + m → ok i = true) := by
  have size : vramSize = 131072 := rfl
  -- the length is that of a range in the window, so the counter stays far below its sign bit
  obtain ⟨nat, -, ext, succ⟩ := counter_eq (k := k) (by omega)
  induction fuel generalizing k with
  | zero => omega
  | succ fuel ih =>
    rw [passes, ext, nat, succ]
    by_cases last : k = len.toNat
    · exact ⟨0, if_neg (by omega), le, .inl last⟩
    · rw [if_pos (by omega)]
      cases copied : ok k with
      | true =>
        obtain ⟨nat', -, ext', succ'⟩ := counter_eq (k := k + 1) (by omega)
        obtain ⟨n, e, bound, stop⟩ := ih (k := k + 1) (by omega) (by omega) nat' ext' succ'
        refine ⟨n + 1, ?_, by omega, ?_⟩
        · rw [if_pos rfl, e, List.range'_succ, List.map_cons]
        · rcases stop with all | ⟨m, rfl, fault, before⟩
          · exact .inl (by omega)
          · refine .inr ⟨m + 1, rfl, ?_, fun i ge lt => ?_⟩
            · rw [← fault]
              congr 1
              omega
            · by_cases first : i = k
              · rw [first]
                exact copied
              · exact before i (by omega) (by omega)
      | false =>
        refine ⟨1, rfl, by omega, .inr ⟨0, rfl, copied, fun i ge lt => ?_⟩⟩
        omega

/-- `i` runs from 0 on, to the length or to the first fault. -/
lemma passes_all (len : BitVec 64) (ok : Nat → Bool) (small : len.toNat ≤ vramSize) :
    ∃ n ≤ len.toNat, passes len ok (vramSize + 1) 0 = (List.range n).map (BitVec.ofNat 32) ∧
      (n = len.toNat ∨ ∃ k < len.toNat, FirstFault ok k ∧ n = k + 1) := by
  obtain ⟨n, e, bound, stop⟩ := passes_eq ok (k := 0) small (Nat.zero_le _)
    (by omega : len.toNat < vramSize + 1 + 0)
  rw [Nat.zero_add] at bound stop
  refine ⟨n, bound, ?_, ?_⟩
  · rw [List.range_eq_range']
    exact e
  · rcases stop with all | ⟨m, rfl, fault, before⟩
    · exact .inl all
    · rw [Nat.zero_add] at fault before
      exact .inr ⟨m, bound, ⟨fun i lt => before i (Nat.zero_le i) lt, fault⟩, rfl⟩

/-- Values from 0 on that stay below the clamped length are in range. -/
lemma inRange_of_range {n : Nat} (fits : off.toNat + span off len ≤ vramSize)
    (le : n ≤ span off len)
    (runs : n = span off len ∨ ∃ k < span off len, FirstFault ok k ∧ n = k + 1) :
    InRange off len ok ((List.range n).map (BitVec.ofNat 32)) := by
  have size : vramSize = 131072 := rfl
  have offInt : off.toInt = off.toNat := BitVec.toInt_eq_toNat_of_lt (by omega)
  have length : ((List.range n).map (BitVec.ofNat 32)).length = n := by
    rw [List.length_map, List.length_range]
  constructor
  case counts =>
    rw [length, List.map_map]
    refine List.map_congr_left fun k mem => ?_
    have lt := List.mem_range.mp mem
    exact (counter_eq (by omega)).2.1
  case runs =>
    rw [length]
    exact runs
  all_goals
    refine List.forall_mem_map.mpr fun k mem => ?_
    have lt := List.mem_range.mp mem
    obtain ⟨-, int, ext, succ⟩ := counter_eq (k := k) (by omega)
  case compares => rw [ext, int]
  case increments =>
    rw [succ, int, (counter_eq (by omega)).2.1]
    omega
  case inside =>
    rw [int, offInt]
    omega

/-- Behind the window nothing is left of a transfer. -/
lemma clamp_past (adm : off.toNat + len.toNat < 2 ^ 63) (past : vramSize ≤ off.toNat) :
    clamp off len = none := by
  rw [clamp_eq adm, if_pos past]

/-- Inside the window a transfer is cut to what is left. -/
lemma clamp_inside (adm : off.toNat + len.toNat < 2 ^ 63) (lt : off.toNat < vramSize) :
    clamp off len = some (BitVec.ofNat 64 (span off len)) := by
  rw [clamp_eq adm, if_neg (Nat.not_le_of_lt lt)]
  rfl

/-- The values of `i` during a call are in range. -/
lemma callPasses_inRange (ok : Nat → Bool) (adm : off.toNat + len.toNat < 2 ^ 63) :
    InRange off len ok (callPasses ok len off) := by
  rw [callPasses]
  rcases Nat.lt_or_ge off.toNat vramSize with lt | past
  · have inside := span_inside len lt
    have lens : (BitVec.ofNat 64 (span off len)).toNat = span off len := clamped_toNat len off
    rw [lens] at inside
    obtain ⟨n, le, e, runs⟩ := passes_all (BitVec.ofNat 64 (span off len)) ok (by omega)
    rw [lens] at le runs
    simp only [clamp_inside adm lt, e]
    exact inRange_of_range inside le runs
  · have zero : span off len = 0 := by
      unfold span
      omega
    simp only [clamp_past adm past]
    refine ⟨rfl, .inl zero.symm, ?_, ?_, ?_⟩
    all_goals exact fun i mem => (List.not_mem_nil mem).elim

/-! ## The handlers -/

/-- What a handler makes of its loop does not take the position behind the window. -/
lemma finish_le {α} (x : α) (done : Bool) (len : BitVec 64) (inside : off.toNat < vramSize) :
    ∃ off' ret, (if done then
        (x, off + BitVec.ofNat 64 (span off len), (BitVec.ofNat 64 (span off len)).toInt)
      else (x, off, eFault)) = (x, off', ret) ∧ off'.toInt ≤ max off.toInt vramSize := by
  cases done with
  | true =>
    have size : vramSize = 131072 := rfl
    have le := span_inside len inside
    have sum : (off + BitVec.ofNat 64 (span off len)).toNat =
        off.toNat + (BitVec.ofNat 64 (span off len)).toNat := by
      rw [BitVec.toNat_add]
      omega
    refine ⟨_, _, if_pos rfl, Int.le_trans ?_ (Int.le_max_right ..)⟩
    rw [BitVec.toInt_eq_toNat_of_lt (by omega), sum]
    omega
  | false => exact ⟨_, _, if_neg Bool.false_ne_true, Int.le_max_left ..⟩

/-- `my_read` returns, and what it copies is what those values say. -/
lemma myRead_passes (vram : Window) (ok : Nat → Bool) (adm : off.toNat + len.toNat < 2 ^ 63) :
    ∃ off' ret, myRead vram ok len off =
        some (bytesAt vram ok off (callPasses ok len off), off', ret) ∧
      off'.toInt ≤ max off.toInt vramSize := by
  rw [myRead, callPasses]
  rcases Nat.lt_or_ge off.toNat vramSize with lt | past
  · have inside := span_inside len lt
    obtain ⟨out, done, loop⟩ := readLoop_total vram ok [] inside (Nat.zero_le _)
      (by omega : _ < vramSize + 1 + 0)
    have bytes := readLoop_passes loop
    rw [List.nil_append] at bytes
    obtain ⟨off', ret, e, le⟩ := finish_le out done len lt
    refine ⟨off', ret, ?_, le⟩
    simp only [clamp_inside adm lt]
    rw [bytes] at loop e
    exact (congrArg (Option.bind · _) loop).trans (congrArg some e)
  · rw [clamp_past adm past]
    exact ⟨off, 0, rfl, Int.le_max_left ..⟩

/-- `my_write` returns, and what it stores is what those values say. -/
lemma myWrite_passes (vram : Window) (user : Nat → Option UInt8)
    (adm : off.toNat + len.toNat < 2 ^ 63) :
    ∃ off' ret, myWrite vram user len off =
        some (vram.puts (storesAt user off (callPasses (fun i => (user i).isSome) len off)), off',
          ret) ∧
      off'.toInt ≤ max off.toInt vramSize := by
  rw [myWrite, callPasses]
  rcases Nat.lt_or_ge off.toNat vramSize with lt | past
  · have inside := span_inside len lt
    obtain ⟨vram', done, loop⟩ := writeLoop_total vram user inside (Nat.zero_le _)
      (by omega : _ < vramSize + 1 + 0)
    have stores := writeLoop_iowrites loop
    rw [iowrites_eq] at stores
    obtain ⟨off', ret, e, le⟩ := finish_le vram' done len lt
    refine ⟨off', ret, ?_, le⟩
    simp only [clamp_inside adm lt]
    rw [stores] at loop e
    exact (congrArg (Option.bind · _) loop).trans (congrArg some e)
  · rw [clamp_past adm past]
    exact ⟨off, 0, rfl, Int.le_max_left ..⟩

/-- The sum of position and length does not wrap. -/
lemma sum_toNat (nonneg : 0 ≤ off.toInt) (le : off.toInt + len.toNat ≤ 2 ^ 63 - 1) :
    ((off + len).toNat : Int) = off.toInt + len.toNat := by
  have adm := lt_of_admissible nonneg le
  rw [BitVec.toInt_eq_toNat_of_lt (by omega), BitVec.toNat_add]
  omega

/-- Nor does the rest of the window. -/
lemma rest_toInt (nonneg : 0 ≤ off.toInt) (lt : off.toInt < vramSize) :
    ((BitVec.ofNat 64 vramSize - off).toNat : Int) = vramSize - off.toInt ∧
      (BitVec.ofNat 64 vramSize - off).toInt = vramSize - off.toInt := by
  have size : vramSize = 131072 := rfl
  have adm := (lt_of_admissible nonneg (by omega) : off.toNat + 0 < 2 ^ 63)
  have offInt : off.toInt = off.toNat := BitVec.toInt_eq_toNat_of_lt (by omega)
  have nat : (BitVec.ofNat 64 vramSize - off).toNat = vramSize - off.toNat := by
    rw [BitVec.toNat_sub, BitVec.toNat_ofNat]
    omega
  refine ⟨by omega, ?_⟩
  rw [BitVec.toInt_eq_toNat_of_lt (by omega), nat]
  omega

end

/-- For every window, every outcome of the copies, and every position and length that the VFS
    admits: the sum in the comparison and the difference do not wrap, the loops of `my_read` and
    `my_write` stay in range, and they read and store at the indices that they go through. The new
    position is not behind the end of the window, unless the old one was. -/
theorem clamp_in_range (vram : Window) (ok : Nat → Bool) (user : Nat → Option UInt8)
    (off len : BitVec 64) (nonneg : 0 ≤ off.toInt) (le : off.toInt + len.toNat ≤ 2 ^ 63 - 1) :
    ((off + len).toNat : Int) = off.toInt + len.toNat ∧
    (off.toInt < vramSize → ((BitVec.ofNat 64 vramSize - off).toNat : Int) = vramSize - off.toInt ∧
      (BitVec.ofNat 64 vramSize - off).toInt = vramSize - off.toInt) ∧
    (InRange off len ok (callPasses ok len off) ∧
      ∃ off' ret, myRead vram ok len off =
          some (bytesAt vram ok off (callPasses ok len off), off', ret) ∧
        off'.toInt ≤ max off.toInt vramSize) ∧
    (InRange off len (fun i => (user i).isSome) (callPasses (fun i => (user i).isSome) len off) ∧
      ∃ off' ret, myWrite vram user len off =
          some (vram.puts (storesAt user off (callPasses (fun i => (user i).isSome) len off)), off',
            ret) ∧
        off'.toInt ≤ max off.toInt vramSize) := by
  have adm := lt_of_admissible nonneg le
  exact ⟨sum_toNat nonneg le, rest_toInt nonneg,
    ⟨callPasses_inRange ok adm, myRead_passes vram ok adm⟩,
    callPasses_inRange _ adm, myWrite_passes vram user adm⟩

/-- A read of `2 ^ 62` bytes two bytes in front of the end of the window. -/
theorem clamp_in_range_at_end :
    (callPasses (fun _ => true) 0x4000000000000000 131070).length = 2 ∧
      ∃ out off' ret, myRead (.filled vramSize 0) (fun _ => true) 0x4000000000000000 131070 =
          some (out, off', ret) ∧
        off'.toInt ≤ vramSize := by
  have two : span 131070 0x4000000000000000 = 2 := by decide
  have most : max (131070 : BitVec 64).toInt vramSize = vramSize := by decide
  obtain ⟨-, -, ⟨inRange, off', ret, read, le⟩, -⟩ :=
    clamp_in_range (.filled vramSize 0) (fun _ => true)
    (fun _ => none) 131070 0x4000000000000000 (by decide) (by decide)
  refine ⟨?_, _, off', ret, read, most ▸ le⟩
  rcases inRange.runs with all | ⟨k, -, fault, -⟩
  · exact all.trans two
  · exact absurd fault.2.symm Bool.false_ne_true

end KernelModules.Vram
