import KernelModules.SysfsExample.Source

/-!
# What the attribute `foo` shows

`foo_store` of `sysfs_example.c` copies as many bytes as are stored and no NUL behind them. So the
page keeps what earlier and longer texts, or its uninitialised start, have left behind the last text
(`getElem?_stores`), and `last_store_shown_iff` says when there is a NUL in the right place.
-/

namespace KernelModules.SysfsExample

variable {n : Nat}

/-- The page after a sequence of stores. -/
def stores (page : Buf UInt8 n) (texts : List (List UInt8)) : Buf UInt8 n :=
  texts.foldl (fun page text => (fooStore page text).1) page

/-- A text that can be stored: no NUL, and 1 to `PAGE_SIZE - 2` bytes. -/
structure Text (n : Nat) (text : List UInt8) : Prop where
  nul : 0 ∉ text
  some : text ≠ []
  short : text.length + 2 ≤ n

/-- `foo_store` copies the text without a terminator. -/
lemma fooStore_eq {page : Buf UInt8 n} {text} (nul : 0 ∉ text) :
    (fooStore page text).1 = page.overlay 0 text := by
  rw [fooStore, strncpy, cstring_of_not_mem nul, List.take_length, Nat.sub_self,
    List.replicate_zero, List.append_nil]

/-- Behind the text the old bytes are left. -/
lemma getElem?_fooStore {page : Buf UInt8 n} {text i} (nul : 0 ∉ text) (lt : i < n) :
    (fooStore page text).1.toList[i]? = if i < text.length then text[i]? else page.toList[i]? := by
  rw [fooStore_eq nul, Buf.overlay, getElem?_overlay (by rw [page.size]; exact lt), Nat.zero_add,
    Nat.sub_zero]
  exact if_congr ⟨fun inside => inside.2, fun inside => ⟨Nat.zero_le i, inside⟩⟩ rfl rfl

/-- After any stores, an index holds a NUL exactly when it did at the start and no text has reached
    it. -/
lemma getElem?_stores {page : Buf UInt8 n} {texts i} (ok : ∀ t ∈ texts, Text n t) (lt : i < n) :
    (stores page texts).toList[i]? = some 0 ↔
      page.toList[i]? = some 0 ∧ ∀ t ∈ texts, t.length ≤ i := by
  induction texts generalizing page with
  | nil => simp [stores]
  | cons t ts ih =>
    obtain ⟨okt, okts⟩ := List.forall_mem_cons.mp ok
    rw [show stores page (t :: ts) = stores (fooStore page t).1 ts from rfl, ih okts,
      getElem?_fooStore okt.nul lt, List.forall_mem_cons]
    by_cases inside : i < t.length
    · rw [if_pos inside]
      constructor
      · rintro ⟨zero, -⟩
        exact absurd (List.mem_of_getElem? zero) okt.nul
      · rintro ⟨-, le, -⟩
        exact absurd inside (Nat.not_lt_of_le le)
    · rw [if_neg inside]
      exact ⟨fun ⟨zero, all⟩ => ⟨zero, Nat.le_of_not_lt inside, all⟩,
        fun ⟨zero, _, all⟩ => ⟨zero, all⟩⟩

/-- What is shown after a store is its text exactly when a NUL follows it. -/
lemma fooShow_fooStore {page : Buf UInt8 n} {text} (ok : Text n text) :
    fooShow (fooStore page text).1 = some (text ++ [10]) ↔
      page.toList[text.length]? = some 0 := by
  have lt : text.length < n := by
    have := ok.short
    omega
  have same : (fooStore page text).1.toList.take text.length = text := by
    rw [take_eq_iff]
    intro i inside
    rw [getElem?_fooStore ok.nul (Nat.lt_trans inside lt), if_pos inside]
  have end_ : (fooStore page text).1.toList[text.length]? = page.toList[text.length]? := by
    rw [getElem?_fooStore ok.nul lt, if_neg (Nat.lt_irrefl _)]
  have shown : cstring (fooStore page text).1.toList = text ↔
      page.toList[text.length]? = some 0 := by
    rw [cstring_eq_iff ok.nul, (fooStore page text).1.size, end_]
    exact ⟨fun h => h.2.resolve_left (Nat.ne_of_gt lt), fun zero => ⟨same, .inr zero⟩⟩
  rw [fooShow, sprintfLine, ← shown]
  constructor
  · intro e
    obtain ⟨-, e'⟩ := Option.ite_none_right_eq_some.mp e
    exact List.append_cancel_right (Option.some.inj e')
  · intro e
    have mem : 0 ∈ (fooStore page text).1.toList := List.mem_of_getElem? (end_.trans (shown.mp e))
    rw [if_pos mem, e]

/-- The last text stored is shown exactly when none of the earlier ones was longer and the page had
    a NUL behind it from the start. -/
theorem last_store_shown_iff (page : Buf UInt8 n) {earlier last}
    (ok : ∀ t ∈ earlier ++ [last], Text n t) :
    fooShow (stores page (earlier ++ [last])) = some (last ++ [10]) ↔
      (∀ t ∈ earlier, t.length ≤ last.length) ∧ page.toList[last.length]? = some 0 := by
  obtain ⟨oke, okl⟩ := List.forall_mem_append.mp ok
  have okl' : Text n last := okl last List.mem_cons_self
  have lt : last.length < n := by
    have := okl'.short
    omega
  rw [stores, List.foldl_concat, fooShow_fooStore okl']
  exact (getElem?_stores oke lt).trans and_comm

/-- "hi" and then "hello", on a page of zeros. -/
theorem hello_shown :
    fooShow (stores (.filled 4096 0) [[104, 105], [104, 101, 108, 108, 111]]) =
      some [104, 101, 108, 108, 111, 10] := by
  have ok : ∀ t ∈ [[104, 105]] ++ [[104, 101, 108, 108, 111]], Text 4096 t := by
    intro t mem
    rcases List.mem_cons.mp mem with rfl | mem
    · exact ⟨by decide, by decide, by decide⟩
    · cases List.mem_singleton.mp mem
      exact ⟨by decide, by decide, by decide⟩
  refine (last_store_shown_iff _ ok).mpr ⟨by decide, ?_⟩
  exact List.getElem?_replicate_of_lt (by decide)

/-- "hello" and then "hi", on a page of zeros: "hillo" is shown. -/
theorem hillo_shown :
    fooShow (stores (.filled 4096 0) [[104, 101, 108, 108, 111], [104, 105]]) =
      some [104, 105, 108, 108, 111, 10] := by
  decide +kernel

end KernelModules.SysfsExample
