import KernelModules.Base.Run
import KernelModules.Kobjects.Source

/-!
# `foo` in memory

`foo_store` of `kobjects.c` scans a word of any length into the 10 bytes of `foo`. This module has
`foo_show` and `foo_store` on the data of the module as it lies in memory, so that it can be said
where a word that is too long ends up. The offsets of the three variables are those of a `Layout`;
nothing is assumed of them but that `baz` and `bar` do not overlap `foo`.

* `fooStore_view`: with a word that fits, the functions of `Attrs` are what happens in memory.
* `foo_round_trip_iff`: a sequence of stores to `foo` is shown and stays inside `foo` exactly when
  all the words have fewer than 10 characters.
-/

namespace KernelModules.Kobjects

variable {n : Nat}

/-! ## Bytes of a region -/

/-- The bytes of a variable. -/
def field (mem : Buf UInt8 n) (off len : Nat) : List UInt8 := slice mem.toList off (off + len)

/-- The size of a variable. -/
lemma length_field {mem : Buf UInt8 n} {off len} (le : off + len ≤ n) :
    (field mem off len).length = len := by
  rw [field, length_slice (by rw [mem.size]; exact le), Nat.add_sub_cancel_left]

/-- A byte of a variable. -/
lemma getElem?_field {mem : Buf UInt8 n} {off len i} (lt : i < len) :
    (field mem off len)[i]? = mem.toList[off + i]? :=
  getElem?_slice (by rw [Nat.add_sub_cancel_left]; exact lt)

/-- An `int` in memory, the lowest byte first. -/
def leInt (bytes : List UInt8) : BitVec 32 :=
  BitVec.ofNat 32 (bytes.foldr (fun b rest => b.toNat + 256 * rest) 0)

/-! ## The data of the module -/

/-- Where the static variables lie in the `n` bytes of data. -/
structure Layout (n : Nat) where
  foo : Nat
  baz : Nat
  bar : Nat
  foo_le : foo + 10 ≤ n
  baz_le : baz + 4 ≤ n
  bar_le : bar + 4 ≤ n
  baz_apart : baz + 4 ≤ foo ∨ foo + 10 ≤ baz
  bar_apart : bar + 4 ≤ foo ∨ foo + 10 ≤ bar

/-- The static variables that lie in memory. -/
def Layout.view (l : Layout n) (mem : Buf UInt8 n) : Attrs where
  foo := ⟨field mem l.foo 10, length_field l.foo_le⟩
  baz := leInt (field mem l.baz 4)
  bar := leInt (field mem l.bar 4)

/-- The bytes that `sscanf` stores for `"%s"`. -/
def sscanfBytes (str : List UInt8) : List UInt8 :=
  if cstring str = [] then [] else scanWord (cstring str) ++ [0]

/-- A store to `foo` (C `foo_store`): the data and the value returned. -/
def Layout.fooStore (l : Layout n) (mem : Buf UInt8 n) (buf : List UInt8) :
    Option (Buf UInt8 n × Nat) :=
  if l.foo + (sscanfBytes buf).length ≤ n then
    some (mem.overlay l.foo (sscanfBytes buf), buf.length)
  else none

/-- What is shown for `foo` (C `foo_show`): the bytes from `foo` on up to a NUL. -/
def Layout.fooShow (l : Layout n) (mem : Buf UInt8 n) : Option (List UInt8) :=
  if 0 ∈ mem.toList.drop l.foo then some (cstring (mem.toList.drop l.foo) ++ [10]) else none

/-- The offsets that a store to `foo` writes. -/
def Layout.written (l : Layout n) (buf : List UInt8) : List Nat :=
  List.range' l.foo (sscanfBytes buf).length

/-- The data after some stores to `foo`. -/
def Layout.fooStores (l : Layout n) (mem : Buf UInt8 n) (texts : List (List UInt8)) :
    Option (Buf UInt8 n) :=
  run (silent l.fooStore) mem texts

/-! ## Words that fit -/

section
variable {l : Layout n} {mem : Buf UInt8 n} {text : List UInt8}

/-- `sscanf` stores the word and a NUL. -/
lemma sscanfBytes_eq (some_ : scanWord (cstring text) ≠ []) :
    sscanfBytes text = scanWord (cstring text) ++ [0] := by
  refine if_neg fun empty => some_ ?_
  rw [empty]
  rfl

/-- A store changes the bytes it writes and no others. -/
lemma getElem?_fooStore {mem' ret i} (st : l.fooStore mem text = some (mem', ret)) (lt : i < n) :
    mem'.toList[i]? =
      if i ∈ l.written text then (sscanfBytes text)[i - l.foo]? else mem.toList[i]? := by
  obtain ⟨-, e⟩ := Option.ite_none_right_eq_some.mp st
  obtain ⟨rfl, -⟩ := Prod.mk.inj (Option.some.inj e)
  rw [Buf.overlay, getElem?_overlay (by rw [mem.size]; exact lt)]
  exact if_congr List.mem_range'_1.symm rfl rfl

/-- A variable that no written byte lies in keeps its bytes. -/
lemma field_fooStore {mem' ret off len} (st : l.fooStore mem text = some (mem', ret))
    (le : off + len ≤ n) (apart : ∀ i ∈ l.written text, i < off ∨ off + len ≤ i) :
    field mem' off len = field mem off len := by
  refine List.ext_getElem?' fun i lt => ?_
  rw [length_field le, length_field le, Nat.max_self] at lt
  have outside : off + i ∉ l.written text := fun mem_ => by
    have := apart _ mem_
    omega
  rw [getElem?_field lt, getElem?_field lt, getElem?_fooStore st (by omega), if_neg outside]

/-- The bytes of `foo` after a store. -/
lemma field_foo {mem' ret} (st : l.fooStore mem text = some (mem', ret)) :
    field mem' l.foo 10 = overlay (field mem l.foo 10) 0 (sscanfBytes text) := by
  refine List.ext_getElem?' fun i lt => ?_
  rw [length_overlay, length_field l.foo_le, length_field l.foo_le, Nat.max_self] at lt
  have inside : i < (field mem l.foo 10).length := by
    rw [length_field l.foo_le]
    exact lt
  have in_n : l.foo + i < n := by
    have := l.foo_le
    omega
  rw [getElem?_field lt, getElem?_fooStore st in_n, getElem?_overlay inside, getElem?_field lt,
    Nat.add_sub_cancel_left, Nat.sub_zero]
  refine if_congr ?_ rfl rfl
  rw [Layout.written, List.mem_range'_1]
  omega

/-- The words that fit are those that are written inside `foo`. -/
lemma written_inside_iff (some_ : scanWord (cstring text) ≠ []) :
    (∀ i ∈ l.written text, l.foo ≤ i ∧ i < l.foo + 10) ↔ (scanWord (cstring text)).length < 10 := by
  have len : (sscanfBytes text).length = (scanWord (cstring text)).length + 1 := by
    rw [sscanfBytes_eq some_, List.length_append, List.length_singleton]
  simp only [Layout.written, List.mem_range'_1, len]
  constructor
  · intro inside
    -- the NUL is the last byte written
    have := inside (l.foo + (scanWord (cstring text)).length) (by omega)
    omega
  · intro fits i mem_
    omega

/-- With a word that fits, `foo_store` on memory is `foo_store` on the variables. -/
lemma fooStore_view (l : Layout n) (mem : Buf UInt8 n) (some_ : scanWord (cstring text) ≠ [])
    (fits : (scanWord (cstring text)).length < 10) :
    ∃ mem', l.fooStore mem text = some (mem', text.length) ∧
      fooStore (l.view mem) text = some (l.view mem', text.length) := by
  have bytes := sscanfBytes_eq some_
  have inside := (written_inside_iff (l := l) some_).mpr fits
  have st : l.fooStore mem text = some (mem.overlay l.foo (sscanfBytes text), text.length) := by
    refine if_pos (Nat.le_trans (Nat.add_le_add_left ?_ _) l.foo_le)
    rw [bytes, List.length_append]
    exact fits
  -- what is written lies in `foo`, and the other two variables do not overlap it
  have baz := field_fooStore st l.baz_le fun i mem_ => by
    have := inside i mem_
    have := l.baz_apart
    omega
  have bar := field_fooStore st l.bar_le fun i mem_ => by
    have := inside i mem_
    have := l.bar_apart
    omega
  refine ⟨_, st, ?_⟩
  have scan : sscanfWord text (l.view mem).foo =
      some (l.view (mem.overlay l.foo (sscanfBytes text))).foo := by
    rw [sscanfWord_of_ne_nil some_ fits, ← bytes]
    simp only [Layout.view, field_foo st]
    rfl
  rw [fooStore, scan]
  simp only [Layout.view, baz, bar]
  rfl

/-- What is shown of the variables is shown of the memory. -/
lemma fooShow_view {line} (shown : fooShow (l.view mem) = some line) :
    l.fooShow mem = some line := by
  obtain ⟨nul, e⟩ := Option.ite_none_right_eq_some.mp shown
  have split : mem.toList.drop l.foo = field mem l.foo 10 ++ (mem.toList.drop l.foo).drop 10 := by
    rw [field, slice, Nat.add_sub_cancel_left, List.take_append_drop]
  have string : cstring (mem.toList.drop l.foo) = cstring (field mem l.foo 10) := by
    rw [split]
    exact cstring_append nul
  rw [Layout.fooShow, if_pos (by rw [split]; exact List.mem_append_left _ nul), string]
  exact e

/-- A word that fits is shown, and `baz` and `bar` stay. -/
lemma fooStore_spec {s : Attrs} (some_ : scanWord (cstring text) ≠ [])
    (fits : (scanWord (cstring text)).length < 10) :
    ∃ s', fooStore s text = some (s', text.length) ∧
      fooShow s' = some (scanWord (cstring text) ++ [10]) ∧
      s'.baz = s.baz ∧ s'.bar = s.bar := by
  refine ⟨{ s with foo := s.foo.overlay 0 (scanWord (cstring text) ++ [0]) }, ?_, ?_, rfl, rfl⟩
  · rw [fooStore, sscanfWord_of_ne_nil some_ fits]
    rfl
  · exact sprintfLine_overlay zero_not_mem_scanWord fits

end

/-! ## Sequences of stores -/

section
variable {texts : List (List UInt8)}

/-- With words that fit, all stores take place and show the last word. -/
lemma fooStores_spec (l : Layout n) (mem : Buf UInt8 n)
    (some_ : ∀ t ∈ texts, scanWord (cstring t) ≠ [])
    (fits : ∀ t ∈ texts, (scanWord (cstring t)).length < 10) :
    ∃ mem', l.fooStores mem texts = some mem' ∧
      (∀ last ∈ texts.getLast?, l.fooShow mem' = some (scanWord (cstring last) ++ [10])) ∧
      (l.view mem').baz = (l.view mem).baz ∧ (l.view mem').bar = (l.view mem).bar := by
  induction texts using List.reverseRecOn with
  | nil =>
    refine ⟨mem, rfl, fun last mem_ => ?_, rfl, rfl⟩
    cases mem_
  | append_singleton texts t ih =>
    obtain ⟨somes, somet⟩ := List.forall_mem_append.mp some_
    obtain ⟨fitss, fitst⟩ := List.forall_mem_append.mp fits
    have some_t := somet t List.mem_cons_self
    have fits_t := fitst t List.mem_cons_self
    obtain ⟨mem1, go, -, baz, bar⟩ := ih somes fitss
    obtain ⟨mem', st, view⟩ := fooStore_view l mem1 some_t fits_t
    obtain ⟨s', st', shown, baz', bar'⟩ := fooStore_spec (s := l.view mem1) some_t fits_t
    obtain ⟨rfl, -⟩ := Prod.mk.inj (Option.some.inj (st'.symm.trans view))
    refine ⟨mem', run_snoc.mpr ⟨mem1, go, ?_⟩, fun last mem_ => ?_, baz'.trans baz, bar'.trans bar⟩
    · rw [silent, st]
      rfl
    · rw [List.getLast?_concat] at mem_
      cases mem_
      exact fooShow_view shown

/-- For every sequence of texts with a first word, stored to `foo`: the first word of the last text
    is shown with a newline, no byte outside `foo` is written, and `baz` and `bar` keep their
    values, exactly when every first word has fewer than 10 characters. -/
theorem foo_round_trip_iff (l : Layout n) (mem : Buf UInt8 n)
    (some_ : ∀ t ∈ texts, scanWord (cstring t) ≠ []) :
    (∃ mem', l.fooStores mem texts = some mem' ∧
      (∀ last ∈ texts.getLast?, l.fooShow mem' = some (scanWord (cstring last) ++ [10])) ∧
      (∀ t ∈ texts, ∀ i ∈ l.written t, l.foo ≤ i ∧ i < l.foo + 10) ∧
      (l.view mem').baz = (l.view mem).baz ∧ (l.view mem').bar = (l.view mem).bar) ↔
      ∀ t ∈ texts, (scanWord (cstring t)).length < 10 := by
  constructor
  · rintro ⟨mem', -, -, inside, -⟩ t mem_
    exact (written_inside_iff (some_ t mem_)).mp (inside t mem_)
  · intro fits
    obtain ⟨mem', go, shown, keep⟩ := fooStores_spec l mem some_ fits
    refine ⟨mem', go, shown, fun t mem_ => ?_, keep⟩
    exact (written_inside_iff (some_ t mem_)).mpr (fits t mem_)

/-- `baz` and `bar` behind `foo`, at the next offsets that are multiples of 4. -/
def behind : Layout 20 where
  foo := 0
  baz := 12
  bar := 16
  foo_le := by decide
  baz_le := by decide
  bar_le := by decide
  baz_apart := by decide
  bar_apart := by decide

/-- The texts "abc" and "wednesday 9". -/
def twoTexts : List (List UInt8) :=
  [[97, 98, 99], [119, 101, 100, 110, 101, 115, 100, 97, 121, 32, 57]]

/-- The second of two texts is shown, cut at its space; `baz` behind it is intact. -/
theorem foo_round_trip_twoTexts :
    ∃ mem, behind.fooStores (.filled 20 0) twoTexts = some mem ∧
      behind.fooShow mem = some [119, 101, 100, 110, 101, 115, 100, 97, 121, 10] ∧
      (behind.view mem).baz = 0 := by
  have some_ : ∀ t ∈ twoTexts, scanWord (cstring t) ≠ [] := by decide +kernel
  have fits : ∀ t ∈ twoTexts, (scanWord (cstring t)).length < 10 := by decide +kernel
  obtain ⟨mem, go, shown, -, baz, -⟩ := (foo_round_trip_iff behind (.filled 20 0) some_).mpr fits
  exact ⟨mem, go, shown _ rfl, baz⟩

/-- A word of 10 characters writes its NUL behind `foo`, and one of 13 characters changes `baz`. -/
theorem long_words_leave_foo :
    10 ∈ behind.written (List.replicate 10 97) ∧
      (behind.fooStores (.filled 20 0) [List.replicate 13 97]).map (fun mem =>
        (behind.view mem).baz) =
        some 97 ∧
      (behind.view (.filled 20 0)).baz = 0 := by
  decide +kernel

end

end KernelModules.Kobjects
