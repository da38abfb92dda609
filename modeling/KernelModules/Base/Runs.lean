import KernelModules.Base.Bytes
import KernelModules.Base.Digits
import Mathlib.Algebra.BigOperators.Group.Finset.Basic
import Mathlib.Data.Finset.Prod
import Mathlib.Data.List.DropRight

/-!
# Maximal runs by their indices

`ClosedRun p l i j` says that the elements of `l` from the index `i` up to the index `j` are a
maximal run of elements with the property `p`, and that an element without it follows. `closedRuns`
is the set of all of them. Going through the list from left to right, the only run that an element
can close is the one in front of it, which is `l.rtakeWhile p` (`sum_closedRuns_concat`).

`sum_closedRuns`: with the digits of a text, the values of the closed runs add up to `runSum`.
-/

namespace KernelModules

variable {α : Type*} {p : α → Bool} {l : List α}

/-- A maximal run with an element behind it. -/
@[mk_iff]
structure ClosedRun (p : α → Bool) (l : List α) (i j : Nat) : Prop where
  lt : i < j
  all : ∀ k < j, i ≤ k → l[k]?.map p = some true
  left : i = 0 ∨ l[i - 1]?.map p = some false
  right : l[j]?.map p = some false

instance {i j} : Decidable (ClosedRun p l i j) := decidable_of_iff' _ (closedRun_iff p l i j)

/-- The closed runs of a list, as pairs of indices. -/
def closedRuns (p : α → Bool) (l : List α) : Finset (Nat × Nat) :=
  (Finset.range l.length ×ˢ Finset.range l.length).filter fun r => ClosedRun p l r.1 r.2

/-- A closed run ends inside the list. -/
lemma ClosedRun.lt_length {i j} (run : ClosedRun p l i j) : j < l.length := by
  obtain ⟨a, e, -⟩ := Option.map_eq_some_iff.mp run.right
  exact (List.getElem?_eq_some_iff.mp e).1

/-- `closedRuns` are the closed runs. -/
lemma mem_closedRuns {r : Nat × Nat} : r ∈ closedRuns p l ↔ ClosedRun p l r.1 r.2 := by
  rw [closedRuns, Finset.mem_filter, Finset.mem_product, Finset.mem_range, Finset.mem_range]
  exact ⟨fun h => h.2, fun run => ⟨⟨run.lt.trans run.lt_length, run.lt_length⟩, run⟩⟩

/-! ## One more element -/

section
variable {a : α} {i j : Nat}

/-- An element behind a run does not change what is in the run. -/
lemma all_concat (le : j ≤ l.length) :
    (∀ k < j, i ≤ k → (l ++ [a])[k]?.map p = some true) ↔
      ∀ k < j, i ≤ k → l[k]?.map p = some true := by
  refine forall₂_congr fun k lt => ?_
  rw [List.getElem?_append_left (Nat.lt_of_lt_of_le lt le)]

/-- Nor does it change what is in front of the run. -/
lemma left_concat (le : i ≤ l.length) :
    (i = 0 ∨ (l ++ [a])[i - 1]?.map p = some false) ↔ (i = 0 ∨ l[i - 1]?.map p = some false) := by
  refine or_congr_right' fun ne => ?_
  rw [List.getElem?_append_left (by omega)]

/-- The run at the end of a list, which may be empty. -/
lemma add_length_rtakeWhile :
    i + (l.rtakeWhile p).length = l.length ↔
      i ≤ l.length ∧ (∀ k < l.length, i ≤ k → l[k]?.map p = some true) ∧
        (i = 0 ∨ l[i - 1]?.map p = some false) := by
  induction l using List.reverseRecOn with
  | nil => simp
  | append_singleton l a ih =>
    rw [List.length_append, List.length_singleton, Nat.forall_lt_succ_right,
      all_concat (Nat.le_refl _), List.getElem?_concat_length]
    by_cases le : i ≤ l.length
    · rw [left_concat le]
      cases has : p a with
      | true =>
        rw [List.rtakeWhile_concat_pos _ _ _ has, List.length_append, List.length_singleton,
          ← Nat.add_assoc, Nat.add_right_cancel_iff, ih]
        simp [le, has, Nat.le_succ_of_le le]
      | false =>
        rw [List.rtakeWhile_concat_neg _ _ _ (by simp [has]), List.length_nil]
        simp [le, has]
        omega
    · -- only the empty run can start behind the last element
      have none_ : ∀ k < l.length, i ≤ k → l[k]?.map p = some true := by
        intro k lt ge
        omega
      by_cases last : i = l.length + 1
      · subst last
        cases has : p a with
        | true => simp [List.rtakeWhile_concat_pos _ _ _ has, has]
        | false =>
          rw [List.rtakeWhile_concat_neg _ _ _ (by simp [has]), Nat.add_sub_cancel,
            List.getElem?_concat_length]
          exact ⟨fun _ =>
            ⟨Nat.le_refl _, ⟨none_, fun le' => absurd le' le⟩, .inr (congrArg some has)⟩,
            fun _ => rfl⟩
      · constructor
        · intro e
          omega
        · rintro ⟨le', -⟩
          omega

/-- The last element closes the run in front of it. -/
lemma closedRun_concat :
    ClosedRun p (l ++ [a]) i j ↔ ClosedRun p l i j ∨
      p a = false ∧ j = l.length ∧ i < j ∧ i + (l.rtakeWhile p).length = l.length := by
  rw [add_length_rtakeWhile, closedRun_iff, closedRun_iff]
  -- the run is closed in front of the new element, by it, or behind it, where nothing is
  rcases Nat.lt_trichotomy j l.length with lt | rfl | gt
  · refine Iff.trans ?_ (or_iff_left fun new => absurd new.2.1 (Nat.ne_of_lt lt)).symm
    rw [all_concat (Nat.le_of_lt lt), List.getElem?_append_left lt]
    refine and_congr_right fun before => ?_
    rw [left_concat (by omega)]
  · rw [all_concat (Nat.le_refl _), List.getElem?_concat_length,
      List.getElem?_eq_none (Nat.le_refl _)]
    constructor
    · rintro ⟨before, all, left, right⟩
      rw [left_concat (Nat.le_of_lt before)] at left
      exact .inr ⟨Option.some.inj right, rfl, before, Nat.le_of_lt before, all, left⟩
    · rintro (⟨-, -, -, right⟩ | ⟨no, -, before, -, all, left⟩)
      · cases right
      · rw [← left_concat (a := a) (Nat.le_of_lt before)] at left
        exact ⟨before, all, left, congrArg some no⟩
  · have none_ : (l ++ [a])[j]? = none := by
      rw [List.getElem?_eq_none]
      rw [List.length_append, List.length_singleton]
      omega
    rw [none_, List.getElem?_eq_none (Nat.le_of_lt gt)]
    constructor
    · rintro ⟨-, -, -, right⟩
      cases right
    · rintro (⟨-, -, -, right⟩ | ⟨-, e, -⟩)
      · cases right
      · omega

/-- Nor does it change the run itself. -/
lemma slice_concat (le : i ≤ j) (inside : j ≤ l.length) : slice (l ++ [a]) i j = slice l i j := by
  rw [slice, slice, List.drop_append_of_le_length (Nat.le_trans le inside),
    List.take_append_of_le_length]
  rw [List.length_drop]
  exact Nat.sub_le_sub_right inside i

/-- An element that continues the open run, or finds none, closes nothing. -/
lemma closedRuns_concat_of_open (has : p a = true ∨ l.rtakeWhile p = []) :
    closedRuns p (l ++ [a]) = closedRuns p l := by
  ext r
  rw [mem_closedRuns, mem_closedRuns, closedRun_concat]
  refine or_iff_left ?_
  rintro ⟨no, e, before, len⟩
  rcases has with yes | nil
  · rw [yes] at no
    cases no
  · rw [nil, List.length_nil] at len
    omega

/-- Any other element closes the open run, and no other one. -/
lemma closedRuns_concat_of_close (no : p a = false) (ne : l.rtakeWhile p ≠ []) :
    closedRuns p (l ++ [a]) =
      insert (l.length - (l.rtakeWhile p).length, l.length) (closedRuns p l) := by
  have pos := List.length_pos_of_ne_nil ne
  have le := (List.rtakeWhile_suffix p l).length_le
  ext r
  rw [Finset.mem_insert, mem_closedRuns, mem_closedRuns, closedRun_concat, or_comm, Prod.ext_iff]
  refine or_congr_left ?_
  simp only [no, true_and]
  omega

/-- What one more element adds to a sum over the closed runs. -/
lemma sum_closedRuns_concat {f : List α → Nat} (empty : f [] = 0) :
    ∑ r ∈ closedRuns p (l ++ [a]), f (slice (l ++ [a]) r.1 r.2) =
      ∑ r ∈ closedRuns p l, f (slice l r.1 r.2) + if p a then 0 else f (l.rtakeWhile p) := by
  have old : ∑ r ∈ closedRuns p l, f (slice (l ++ [a]) r.1 r.2) =
      ∑ r ∈ closedRuns p l, f (slice l r.1 r.2) := by
    refine Finset.sum_congr rfl fun r mem => ?_
    have run := mem_closedRuns.mp mem
    rw [slice_concat (Nat.le_of_lt run.lt) (Nat.le_of_lt run.lt_length)]
  cases has : p a with
  | true => rw [closedRuns_concat_of_open (.inl has), old, if_pos rfl, Nat.add_zero]
  | false =>
    rw [if_neg Bool.false_ne_true]
    by_cases nil : l.rtakeWhile p = []
    · rw [closedRuns_concat_of_open (.inr nil), old, nil, empty, Nat.add_zero]
    · have fresh : (l.length - (l.rtakeWhile p).length, l.length) ∉ closedRuns p l :=
        fun mem => Nat.lt_irrefl _ (mem_closedRuns.mp mem).lt_length
      have new : slice (l ++ [a]) (l.length - (l.rtakeWhile p).length) l.length =
          l.rtakeWhile p := by
        rw [slice_concat (Nat.sub_le ..) (Nat.le_refl _), slice,
          ← List.suffix_iff_eq_drop.mp (List.rtakeWhile_suffix p l), List.take_of_length_le]
        have le := (List.rtakeWhile_suffix p l).length_le
        omega
      rw [closedRuns_concat_of_close has nil, Finset.sum_insert fresh, old, new, Nat.add_comm]

end

/-! ## Digits -/

/-- Digits are one run. -/
lemma digitRuns_of_digits {ds : List UInt8} (all : ∀ d ∈ ds, isDigit d = true) :
    digitRuns ds = [ds] := by
  induction ds with
  | nil => rfl
  | cons d ds ih =>
    obtain ⟨digit, rest⟩ := List.forall_mem_cons.mp all
    rw [digitRuns, List.splitOnP_cons_eq_if_modifyHead, digit]
    exact congrArg (List.modifyHead (List.cons d)) (ih rest)

/-- A text is the run at its end, or has a separator in front of it. -/
lemma eq_or_separator (bs : List UInt8) :
    bs = bs.rtakeWhile isDigit ∨
      ∃ pre sep, isDigit sep = false ∧ bs = pre ++ sep :: bs.rtakeWhile isDigit := by
  have split := List.rdropWhile_append_rtakeWhile (p := isDigit) (l := bs)
  by_cases nil : bs.rdropWhile isDigit = []
  · rw [nil, List.nil_append] at split
    exact .inl split.symm
  · refine .inr ⟨(bs.rdropWhile isDigit).dropLast, (bs.rdropWhile isDigit).getLast nil, ?_, ?_⟩
    · exact Bool.not_eq_true _ ▸ List.rdropWhile_last_not _ _ nil
    · rw [← List.singleton_append, ← List.append_assoc, List.dropLast_concat_getLast, split]

/-- Digits alone close no run. -/
lemma runSum_of_digits {ds : List UInt8} (all : ∀ d ∈ ds, isDigit d = true) : runSum ds = 0 := by
  rw [runSum, digitRuns_of_digits all]
  rfl

/-- A separator behind digits closes their run. -/
lemma runSum_digits_concat {ds : List UInt8} {b} (all : ∀ d ∈ ds, isDigit d = true) :
    runSum (ds ++ [b]) = if isDigit b then 0 else decimal ds := by
  cases digit : isDigit b with
  | true =>
    rw [runSum_of_digits, if_pos rfl]
    exact List.forall_mem_append.mpr ⟨all, List.forall_mem_singleton.mpr digit⟩
  | false =>
    rw [runSum_append digit, digitSum, digitRuns_of_digits all, if_neg Bool.false_ne_true]
    rfl

/-- A byte that is not a digit closes the run in front of it, a digit closes nothing. -/
lemma runSum_concat {bs : List UInt8} {b} :
    runSum (bs ++ [b]) = runSum bs + if isDigit b then 0 else decimal (bs.rtakeWhile isDigit) := by
  have all : ∀ d ∈ bs.rtakeWhile isDigit, isDigit d = true :=
    fun d mem => List.mem_rtakeWhile_imp mem
  have cases_ := eq_or_separator bs
  generalize bs.rtakeWhile isDigit = ds at all cases_
  rcases cases_ with rfl | ⟨pre, sep, no, rfl⟩
  · rw [runSum_digits_concat all, runSum_of_digits all, Nat.zero_add]
  · rw [List.append_assoc, List.cons_append, runSum_append no, runSum_append no,
      runSum_digits_concat all, runSum_of_digits all, Nat.add_zero]

/-- The closed runs of digits, each with its decimal value, add up to `runSum`. -/
lemma sum_closedRuns (bs : List UInt8) :
    ∑ r ∈ closedRuns isDigit bs, decimal (slice bs r.1 r.2) = runSum bs := by
  induction bs using List.reverseRecOn with
  | nil => rfl
  | append_singleton bs b ih => rw [sum_closedRuns_concat rfl, ih, runSum_concat]

end KernelModules
