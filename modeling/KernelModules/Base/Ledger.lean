import Mathlib.Algebra.BigOperators.Group.List.Basic
import Mathlib.Data.List.DropRight
import Mathlib.Data.List.Induction

/-!
# Ledgers

A ledger is a list of keys with an amount each. A posting adds an amount to the entry of its key,
and appends a new entry when the key has none; a reset sets every amount to zero and keeps the
entries.

`Posting.foldl_apply` says what a ledger is after any history of postings and resets, as a function
of this history alone: the keys posted to, in the order of their first posting, each with its
`balance`, the sum of what was posted to it after the last reset.
-/

namespace KernelModules

/-- What happens to a ledger: an amount is posted to a key, or all amounts are reset. -/
inductive Posting (κ M : Type*) where
  | post (k : κ) (m : M)
  | reset

namespace Posting
variable {κ M : Type*}

/-- The key a posting is for. -/
def key? : Posting κ M → Option κ
  | post k _ => some k
  | reset => none

/-- Whether an entry of the history is a posting. -/
def isPost : Posting κ M → Bool
  | post _ _ => true
  | reset => false

/-- The history after the last reset. -/
def sinceReset (hist : List (Posting κ M)) : List (Posting κ M) := hist.rtakeWhile isPost

section
variable [DecidableEq κ]

/-- The amount posted to the key `k`. -/
def amount? (k : κ) : Posting κ M → Option M
  | post k' m => if k' = k then some m else none
  | reset => none

/-- The keys of a history, in the order of their first posting. -/
def keys (hist : List (Posting κ M)) : List κ := (hist.filterMap key?).eraseDups

/-- Adds an amount to the entry of the key `k`. -/
def credit [Add M] (k : κ) (m : M) (e : κ × M) : κ × M := if e.1 = k then (e.1, e.2 + m) else e

/-- What one posting or reset does to a ledger. -/
def apply [Add M] [Zero M] (es : List (κ × M)) : Posting κ M → List (κ × M)
  | post k m => if k ∈ es.map Prod.fst then es.map (credit k m) else es ++ [(k, m)]
  | reset => es.map fun e => (e.1, 0)

/-- The sum of what was posted to the key `k` after the last reset. -/
def balance [Add M] [Zero M] (k : κ) (hist : List (Posting κ M)) : M :=
  ((sinceReset hist).filterMap (amount? k)).sum

/-- One more element is new, or it is not. -/
lemma eraseDups_concat {xs : List κ} {x} :
    (xs ++ [x]).eraseDups = if x ∈ xs then xs.eraseDups else xs.eraseDups ++ [x] := by
  rw [List.eraseDups_append, List.removeAll, List.filter_singleton]
  by_cases mem : x ∈ xs
  · simp [mem]
  · simp [mem, List.eraseDups_cons]

/-- An injective renaming keeps what is new. -/
lemma eraseDups_map {ι : Type*} [DecidableEq ι] {f : κ → ι} (inj : Function.Injective f)
    {xs : List κ} : (xs.map f).eraseDups = xs.eraseDups.map f := by
  induction xs using List.reverseRecOn with
  | nil => rfl
  | append_singleton xs x ih =>
    rw [List.map_append, List.map_singleton, eraseDups_concat, ih, eraseDups_concat]
    simp only [List.mem_map_of_injective inj]
    split
    case isTrue => rfl
    case isFalse => rw [List.map_append, List.map_singleton]

/-- A posting adds its key, when it is new. -/
@[simp] lemma keys_post {hist : List (Posting κ M)} {k m} :
    keys (hist ++ [post k m]) = if k ∈ keys hist then keys hist else keys hist ++ [k] := by
  unfold keys
  rw [List.filterMap_append, show [post k m].filterMap key? = [k] from rfl, eraseDups_concat]
  simp only [List.mem_eraseDups]

/-- A reset keeps the keys. -/
@[simp] lemma keys_reset {hist : List (Posting κ M)} : keys (hist ++ [reset]) = keys hist := by
  unfold keys
  rw [List.filterMap_append, show ([reset] : List (Posting κ M)).filterMap key? = [] from rfl,
    List.append_nil]

section
variable [AddMonoid M]

/-- A posting adds its amount to the balance of its key. -/
lemma balance_post {hist : List (Posting κ M)} {k k' m} :
    balance k (hist ++ [post k' m]) = balance k hist + if k' = k then m else 0 := by
  rw [balance, sinceReset, List.rtakeWhile_concat, if_pos (by rfl), List.filterMap_append,
    List.sum_append]
  by_cases e : k' = k
  · simp [amount?, e, balance, sinceReset]
  · simp [amount?, e, balance, sinceReset]

/-- After a reset every balance is 0. -/
lemma balance_reset {hist : List (Posting κ M)} {k} : balance k (hist ++ [reset]) = 0 := by
  rw [balance, sinceReset, List.rtakeWhile_concat, if_neg (by simp [isPost])]
  rfl

/-- A key without a posting has the balance 0. -/
lemma balance_of_not_mem {hist : List (Posting κ M)} {k} (out : k ∉ keys hist) :
    balance k hist = 0 := by
  induction hist using List.reverseRecOn with
  | nil => rfl
  | append_singleton hist p ih =>
    cases p with
    | post k' m =>
      rw [keys_post] at out
      have ne : k' ≠ k := by
        rintro rfl
        split at out
        case isTrue mem => exact out mem
        case isFalse => exact out (List.mem_append_right _ (List.mem_singleton.mpr rfl))
      have out' : k ∉ keys hist := by
        intro mem
        split at out
        case isTrue => exact out mem
        case isFalse => exact out (List.mem_append_left _ mem)
      rw [balance_post, ih out', if_neg ne, add_zero]
    | reset => exact balance_reset

/-- A ledger after a history: its keys in order of first posting, each with its balance. -/
theorem foldl_apply (hist : List (Posting κ M)) :
    hist.foldl apply [] = (keys hist).map fun k => (k, balance k hist) := by
  induction hist using List.reverseRecOn with
  | nil => rfl
  | append_singleton hist p ih =>
    rw [List.foldl_append, ih, List.foldl_cons, List.foldl_nil]
    cases p with
    | post k m =>
      have fst : ((keys hist).map fun k => (k, balance k hist)).map Prod.fst = keys hist := by
        rw [List.map_map]
        exact List.map_id _
      rw [apply, fst, keys_post]
      split
      case isTrue mem =>
        rw [List.map_map]
        apply List.map_congr_left
        intro k' _
        rw [Function.comp_apply, credit, balance_post]
        by_cases e : k' = k
        · rw [if_pos e, if_pos e.symm]
        · rw [if_neg e, if_neg (Ne.symm e), add_zero]
      case isFalse out =>
        rw [List.map_append, List.map_singleton, balance_post, balance_of_not_mem out, if_pos rfl,
          zero_add]
        congr 1
        apply List.map_congr_left
        intro k' mem
        have ne : k ≠ k' := by
          rintro rfl
          exact out mem
        rw [balance_post, if_neg ne, add_zero]
    | reset =>
      rw [apply, keys_reset, List.map_map]
      apply List.map_congr_left
      intro k _
      rw [Function.comp_apply, balance_reset]

end

end

end Posting

end KernelModules
