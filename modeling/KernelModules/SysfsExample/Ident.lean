import KernelModules.Base.Run
import KernelModules.SysfsExample.Source

/-!
# The verdict of `id_store`

`id_store` of `sysfs_example.c` scans a word into the static buffer `kern_buff` and compares the
buffer with "ritsz". It does not look at what `sscanf` returns. A text that starts with a NUL leaves
the buffer as it is, so that it is judged by the word an earlier call has left there (`heldWord`).

`judges_own_text_iff` says for every sequence of texts when each call judges its own.
-/

namespace KernelModules.SysfsExample

/-- `kern_buff` after some stores to `id`. -/
def idStores (texts : List (List UInt8)) : Option (Buf UInt8 128) :=
  run (silent idStore) (.filled 128 0) texts

/-- The value to be returned for a text: its length if its first word is "ritsz". -/
def ownVerdict (text : List UInt8) : Int :=
  if scanWord (cstring text) = ritsz then text.length else eInval

/-- The first word of the last text that does not start with a NUL. -/
def heldWord (texts : List (List UInt8)) : List UInt8 :=
  ((texts.filter fun t => cstring t ≠ []).getLast?.map fun t => scanWord (cstring t)).getD []

/-- A text whose first word fits into `kern_buff`. -/
def Short (text : List UInt8) : Prop := (scanWord (cstring text)).length < 128

instance : DecidablePred Short := fun text =>
  inferInstanceAs (Decidable ((scanWord (cstring text)).length < 128))

/-- A text that starts with a NUL leaves the word. -/
lemma heldWord_concat {texts t} :
    heldWord (texts ++ [t]) = if cstring t = [] then heldWord texts else scanWord (cstring t) := by
  rw [heldWord, List.filter_append]
  by_cases empty : cstring t = []
  · simp [empty, heldWord]
  · simp [empty]

/-- `id_store` compares the word in the buffer, which an empty text has not set. -/
lemma idStore_eq (kernBuff : Buf UInt8 128) {t} (short : Short t) :
    ∃ kernBuff' word,
      word = (if cstring t = [] then cstring kernBuff.toList else scanWord (cstring t)) ∧
      idStore kernBuff t = some (kernBuff', if word = ritsz then (t.length : Int) else eInval) ∧
      cstring kernBuff'.toList = word := by
  obtain ⟨kernBuff', scan, held⟩ := sscanfWord_eq kernBuff short
  refine ⟨kernBuff', _, rfl, ?_, held⟩
  rw [idStore, scan, ← held]
  exact congrArg (fun ret => some (kernBuff', ret)) (ite_not _ _ _)

/-- The string in `kern_buff` is the word held. -/
lemma idStores_eq {texts} (short : ∀ t ∈ texts, Short t) :
    ∃ kernBuff, idStores texts = some kernBuff ∧ cstring kernBuff.toList = heldWord texts := by
  induction texts using List.reverseRecOn with
  | nil => exact ⟨_, rfl, by decide +kernel⟩
  | append_singleton texts t ih =>
    obtain ⟨shorts, shortt⟩ := List.forall_mem_append.mp short
    obtain ⟨kernBuff, go, held⟩ := ih shorts
    obtain ⟨kernBuff', word, e, st, held'⟩ := idStore_eq kernBuff (shortt t (by simp))
    refine ⟨kernBuff', run_snoc.mpr ⟨kernBuff, go, ?_⟩, ?_⟩
    · rw [silent, st]
      rfl
    · rw [held', e, held, heldWord_concat]

/-- A text is judged by its own word unless it starts with a NUL and "ritsz" is held. -/
lemma ret_eq_ownVerdict_iff {t} {held : List UInt8} :
    (if (if cstring t = [] then held else scanWord (cstring t)) = ritsz then (t.length : Int)
      else eInval) =
      ownVerdict t ↔ (cstring t = [] → held ≠ ritsz) := by
  by_cases empty : cstring t = []
  · have own : ownVerdict t = eInval := by
      rw [ownVerdict, empty]
      exact if_neg (by decide)
    have count : ¬ (t.length : Int) = eInval := by
      rw [eInval]
      omega
    rw [if_pos empty, own]
    by_cases same : held = ritsz
    · simp [same, empty, count]
    · simp [same]
  · simp [empty, ownVerdict]

/-- In every sequence of texts with first words of fewer than 128 characters, each call returns the
    verdict on its own text exactly when no text that starts with a NUL comes while the word held is
    "ritsz". -/
theorem judges_own_text_iff {texts : List (List UInt8)} (short : ∀ t ∈ texts, Short t) :
    (∀ pre t post, texts = pre ++ t :: post →
      ∃ kernBuff kernBuff', idStores pre = some kernBuff ∧
        idStore kernBuff t = some (kernBuff', ownVerdict t)) ↔
      ∀ pre t post, texts = pre ++ t :: post → cstring t = [] → heldWord pre ≠ ritsz := by
  refine forall_split_congr fun pre t post split => ?_
  subst split
  obtain ⟨shorts, rest⟩ := List.forall_mem_append.mp short
  obtain ⟨kernBuff, go, held⟩ := idStores_eq shorts
  obtain ⟨kernBuff', word, rfl, st, -⟩ := idStore_eq kernBuff (rest t List.mem_cons_self)
  rw [← held, ← ret_eq_ownVerdict_iff]
  constructor
  · rintro ⟨b, b', go', st'⟩
    cases go.symm.trans go'
    exact (Prod.mk.inj (Option.some.inj (st.symm.trans st'))).2
  · intro e
    exact ⟨kernBuff, kernBuff', go, st.trans (by rw [e])⟩

/-- "ritsz", "abc" and a NUL. -/
def threeTexts : List (List UInt8) := [ritsz, [97, 98, 99], [0]]

/-- Each of them is judged by its own word. -/
theorem judges_threeTexts :
    (∀ t ∈ threeTexts, Short t) ∧ ∀ pre t post, threeTexts = pre ++ t :: post →
      ∃ kernBuff kernBuff', idStores pre = some kernBuff ∧
        idStore kernBuff t = some (kernBuff', ownVerdict t) := by
  have short : ∀ t ∈ threeTexts, Short t := by decide +kernel
  refine ⟨short, (judges_own_text_iff short).mpr fun pre t post split empty => ?_⟩
  rcases pre with _ | ⟨a, _ | ⟨b, pre⟩⟩
  · decide
  · cases split
    exact absurd empty (by decide)
  · -- the word held is "abc", and nothing comes behind the NUL
    simp only [threeTexts, List.cons_append, List.cons.injEq] at split
    obtain ⟨rfl, rfl, last⟩ := split
    cases pre with
    | nil => decide
    | cons c pre => simp at last

/-- "ritsz" and then a NUL: the NUL is accepted. -/
theorem nul_accepted :
    ((idStores [ritsz]).bind fun kernBuff => (idStore kernBuff [0]).map Prod.snd) = some 1 ∧
      ownVerdict [0] = eInval := by
  decide +kernel

end KernelModules.SysfsExample
