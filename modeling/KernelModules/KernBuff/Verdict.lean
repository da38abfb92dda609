import KernelModules.Base.Run
import KernelModules.KernBuff.Source

/-!
# Which writes are accepted

A write of `my_write` (`misc_char_dev.c`, `procfs.c`) should be accepted for its own bytes. But the
bytes go to the position of the open file, the comparison starts at the beginning of the buffer, and
the terminator is stored at the number of bytes copied: what is compared are the old bytes in front
of the position, followed by the bytes of the write, and cut at their number.

* `accepted_iff`: a write is accepted exactly when that string is the word (`Spells`).
* `judged_on_own_bytes_iff`: so a sequence of writes is judged on its own bytes exactly when, at
  each write, these two strings agree on being the word. At position 0 they do (`spells_zero`), so
  that a single write there is judged on its own bytes (`judged_at_zero`).
-/

namespace KernelModules.KernBuff

variable {n : Nat} {word : List UInt8}

/-- The old bytes in front of the position, and then the bytes of the write. -/
def mixed (f : File n) (src : List UInt8) : List UInt8 := f.kernBuff.toList.take f.off ++ src

/-- What the comparison sees is the word: at least its length is copied, it is what the mixed bytes
    begin with, and then comes a NUL, either the terminator or another byte. -/
def Spells (word : List UInt8) (f : File n) (src : List UInt8) : Prop :=
  word.length ≤ src.length ∧ f.off + word.length ≤ n ∧ (mixed f src).take word.length = word ∧
    (src.length = word.length ∨ f.off + word.length = n ∨ (mixed f src)[word.length]? = some 0)

/-- The number of bytes that a write without a fault copies. -/
def room (f : File n) (src : List UInt8) : Nat := min src.length (n - f.off)

/-- The copy without a fault. -/
lemma simpleWriteToBuffer_eq (f : File n) (src : List UInt8) :
    simpleWriteToBuffer f.kernBuff f.off src 0 =
      (f.kernBuff.overlay f.off (src.take (room f src)), f.off + room f src,
        (room f src : Int)) := by
  unfold simpleWriteToBuffer
  split
  case isTrue nothing =>
    have zero : room f src = 0 := by
      unfold room
      omega
    rw [zero, List.take_zero, Buf.overlay_nil]
    rfl
  case isFalse some =>
    have pos : ¬ room f src ≤ 0 := by
      unfold room
      omega
    simp only [copyFromUser_all, Nat.sub_zero]
    exact if_neg pos

/-- The copy and the NUL behind it, which goes to the index of its length, not of its end. -/
lemma copyIn_eq (f : File n) (src : List UInt8) :
    copyIn f src 0 =
      (⟨(f.kernBuff.overlay f.off (src.take (room f src))).poke (room f src) 0,
        f.off + room f src⟩, (room f src : Int)) := by
  rw [copyIn, simpleWriteToBuffer_eq]

/-- What is at an index afterwards. -/
lemma getElem?_copyIn {f : File n} {src : List UInt8} {i : Nat} (lt : i < n) :
    (copyIn f src 0).1.kernBuff.toList[i]? =
      if room f src = i then some 0
      else if f.off ≤ i ∧ i < f.off + room f src then src[i - f.off]?
      else f.kernBuff.toList[i]? := by
  have le : room f src ≤ src.length := Nat.min_le_left ..
  have size := f.kernBuff.size
  rw [copyIn_eq, Buf.poke, getElem?_poke (by simp [Buf.overlay, size, lt]), Buf.overlay,
    getElem?_overlay (by rw [size]; exact lt), List.length_take, Nat.min_eq_left le]
  refine if_congr Int.ofNat_inj rfl (if_ctx_congr Iff.rfl (fun inside => ?_) fun _ => rfl)
  exact List.getElem?_take_of_lt (by omega)

/-- In front of the terminator they are the mixed bytes. -/
lemma getElem?_copyIn_mixed {f : File n} {src : List UInt8} {i : Nat} (pos : f.off ≤ n) (lt : i < n)
    (short : i < room f src) :
    (copyIn f src 0).1.kernBuff.toList[i]? = (mixed f src)[i]? := by
  have len : (f.kernBuff.toList.take f.off).length = f.off := by
    rw [List.length_take, f.kernBuff.size, Nat.min_eq_left pos]
  rw [getElem?_copyIn lt, if_neg (by omega), mixed]
  by_cases before : i < f.off
  · rw [if_neg (by omega), List.getElem?_append_left (by omega), List.getElem?_take_of_lt before]
  · rw [if_pos (by omega), List.getElem?_append_right (by omega), len]

/-- The comparison succeeds exactly when the mixed bytes spell the word. -/
lemma cstring_copyIn {f : File n} {src : List UInt8} (nul : 0 ∉ word) (ne : word ≠ [])
    (small : word.length < n) :
    cstring (copyIn f src 0).1.kernBuff.toList = word ↔ Spells word f src := by
  have wpos := List.length_pos_iff.mpr ne
  rw [cstring_eq_iff nul, (copyIn f src 0).1.kernBuff.size, take_eq_iff]
  constructor
  · rintro ⟨same, stop⟩
    -- the terminator is not inside the word, which has no NUL
    have enough : word.length ≤ room f src := by
      by_contra lt
      have at_end := same _ (Nat.lt_of_not_le lt)
      rw [getElem?_copyIn (by omega), if_pos rfl] at at_end
      exact nul (List.mem_of_getElem? at_end.symm)
    have room_def : room f src = min src.length (n - f.off) := rfl
    refine ⟨by omega, by omega, take_eq_iff.mpr fun i lt => ?_, ?_⟩
    · rw [← getElem?_copyIn_mixed (by omega) (by omega) (by omega), same i lt]
    · by_cases eq : room f src = word.length
      · omega
      · rw [← getElem?_copyIn_mixed (by omega) small (by omega)]
        exact .inr (.inr (stop.resolve_left (by omega)))
  · rintro ⟨long, fits, same, stop⟩
    have room_def : room f src = min src.length (n - f.off) := rfl
    refine ⟨fun i lt => ?_, .inr ?_⟩
    · rw [getElem?_copyIn_mixed (by omega) (by omega) (by omega)]
      exact take_eq_iff.mp same i lt
    · by_cases eq : room f src = word.length
      · rw [getElem?_copyIn small, if_pos eq]
      · rw [getElem?_copyIn_mixed (by omega) small (by omega)]
        rcases stop with e | e | e
        · omega
        · omega
        · exact e

/-- At position 0 the mixed bytes are the bytes of the write. -/
lemma spells_zero {f : File n} {src : List UInt8} (nul : 0 ∉ word) (small : word.length < n)
    (zero : f.off = 0) : Spells word f src ↔ cstring src = word := by
  have mix : mixed f src = src := by
    rw [mixed, zero, List.take_zero, List.nil_append]
  rw [cstring_eq_iff nul, Spells, mix, zero, Nat.zero_add]
  constructor
  · rintro ⟨long, -, same, stop⟩
    refine ⟨same, ?_⟩
    rcases stop with e | e | e
    · exact .inl e
    · exact absurd e (Nat.ne_of_lt small)
    · exact .inr e
  · rintro ⟨same, stop⟩
    have long : word.length ≤ src.length := by
      have := congrArg List.length same
      rw [List.length_take] at this
      omega
    exact ⟨long, Nat.le_of_lt small, same, stop.imp_right .inr⟩

/-! ## Sequences of writes -/

/-- The two drivers. -/
inductive Driver where
  | miscCharDev
  | procfs
  deriving Repr, DecidableEq

/-- `my_write` of a driver. -/
def Driver.myWrite : Driver → File 128 → List UInt8 → Nat → File 128 × Int
  | .miscCharDev => MiscCharDev.myWrite
  | .procfs => Procfs.myWrite

/-- The open file after a sequence of writes without a fault. -/
def Driver.writes (d : Driver) (f : File 128) (srcs : List (List UInt8)) : File 128 :=
  srcs.foldl (fun f src => (d.myWrite f src 0).1) f

/-- What a write returns is up to the word in the buffer. -/
lemma Driver.myWrite_ret (d : Driver) (f : File 128) (src : List UInt8) :
    (d.myWrite f src 0).2 =
      if cstring (copyIn f src 0).1.kernBuff.toList = linux then (room f src : Int)
      else eInval := by
  have eq :
      (d.myWrite f src 0).2 = verdict linux (copyIn f src 0).1.kernBuff (copyIn f src 0).2 := by
    cases d with
    | miscCharDev => rfl
    | procfs => rfl
  rw [eq, verdict, show cstring linux = linux from rfl, ite_not, copyIn_eq]

/-- A write without a fault is accepted exactly when what is compared spells the word, and is
    refused with `-EINVAL` otherwise. -/
lemma Driver.accepted_iff (d : Driver) (f : File 128) (src : List UInt8) :
    (0 ≤ (d.myWrite f src 0).2 ↔ Spells linux f src) ∧
      (¬ Spells linux f src → (d.myWrite f src 0).2 = eInval) := by
  rw [← cstring_copyIn (by decide) (by decide) (by decide), d.myWrite_ret]
  split
  case isTrue yes => exact ⟨⟨fun _ => yes, fun _ => Int.natCast_nonneg _⟩, fun no => absurd yes no⟩
  case isFalse no =>
    refine ⟨⟨fun nonneg => absurd nonneg (by decide), fun yes => absurd yes no⟩, fun _ => rfl⟩

/-- At position 0 the word in the buffer is the one written. -/
lemma cstring_copyIn_zero {f : File 128} {src : List UInt8} (zero : f.off = 0) :
    cstring (copyIn f src 0).1.kernBuff.toList = linux ↔ cstring src = linux :=
  (cstring_copyIn (by decide) (by decide) (by decide)).trans
    (spells_zero (by decide) (by decide) zero)

/-- At position 0 a short write is copied as a whole. -/
lemma room_zero {f : File 128} {src : List UInt8} (zero : f.off = 0) (short : src.length ≤ 127) :
    room f src = src.length := by
  rw [room, zero]
  omega

/-- A write at position 0 that leaves room for its terminator is judged on its own bytes, whatever
    the buffer holds. -/
theorem judged_at_zero (d : Driver) (f : File 128) (src : List UInt8) (zero : f.off = 0)
    (short : src.length ≤ 127) :
    (d.myWrite f src 0).2 = if cstring src = linux then (src.length : Int) else eInval := by
  rw [d.myWrite_ret, room_zero zero short]
  exact if_congr (cstring_copyIn_zero zero) rfl rfl

/-- "linux", a NUL and an "x" written over a buffer full of "l"s. -/
theorem judged_at_zero_stale :
    (MiscCharDev.myWrite ⟨.filled 128 108, 0⟩ (linux ++ [0, 120]) 0).2 = 7 ∧
      (Procfs.myWrite ⟨.filled 128 108, 0⟩ [108, 108] 0).2 = eInval :=
  ⟨judged_at_zero .miscCharDev ⟨.filled 128 108, 0⟩ (linux ++ [0, 120]) rfl (by decide),
    judged_at_zero .procfs ⟨.filled 128 108, 0⟩ [108, 108] rfl (by decide)⟩

/-- A sequence of writes through one open file is judged on each write's own bytes exactly when, at
    each of them, the write's own string is the word just when what is compared is. -/
theorem judged_on_own_bytes_iff (d : Driver) (f : File 128) (srcs : List (List UInt8)) :
    (∀ pre src post, srcs = pre ++ src :: post →
      (0 ≤ (d.myWrite (d.writes f pre) src 0).2 ↔ cstring src = linux) ∧
      (cstring src ≠ linux → (d.myWrite (d.writes f pre) src 0).2 = eInval)) ↔
    (∀ pre src post, srcs = pre ++ src :: post →
      (cstring src = linux ↔ Spells linux (d.writes f pre) src)) := by
  refine forall_split_congr fun pre src post _ => ?_
  obtain ⟨accepted, refused⟩ := d.accepted_iff (d.writes f pre) src
  constructor
  · intro own
    exact own.1.symm.trans accepted
  · intro same
    exact ⟨accepted.trans same.symm, fun ne => refused (same.not.mp ne)⟩

/-- The file when the module has been loaded and the file opened. -/
def opened : File 128 := ⟨.filled 128 0, 0⟩

/-- "linux" and then "abcde": the second write is accepted, since the buffer still begins with the
    first one and the terminator falls behind it. -/
theorem stale_word_accepted :
    (MiscCharDev.myWrite opened linux 0).2 = 5 ∧ (Procfs.myWrite opened linux 0).2 = 5 ∧
      (MiscCharDev.myWrite (MiscCharDev.myWrite opened linux 0).1 [97, 98, 99, 100, 101] 0).2 = 5 ∧
      (Procfs.myWrite (Procfs.myWrite opened linux 0).1 [97, 98, 99, 100, 101] 0).2 = 5 ∧
      cstring [97, 98, 99, 100, 101] ≠ linux := by
  decide +kernel

end KernelModules.KernBuff
