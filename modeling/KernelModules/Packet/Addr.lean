import Mathlib.Tactic.Common
import Mathlib.Data.List.Basic

/-!
# Source addresses as text

Model of the line `snprintf(source, 16, "%pI4", &ip_header->saddr)` of `hook_func`
(`network_procfs.c`). An IPv4 address is its 32-bit value with the first octet in the top byte;
`%pI4` prints the four octets in decimal, without leading zeros, separated by dots.

`key` is the text in `source`: what `hook_func` looks up and stores in the packet list. `key_eq`
says that the 16 bytes cut nothing off, and `key_injective` and `key_ne_nil` make it a faithful key.
-/

namespace KernelModules.Packet

/-- The decimal digits of an octet. -/
def octet (b : BitVec 8) : List Char := Nat.toDigits 10 b.toNat

/-- The text `%pI4` prints for an address. -/
def pI4 (a : BitVec 32) : List Char :=
  octet (a.extractLsb' 24 8) ++ '.' :: (octet (a.extractLsb' 16 8) ++
    '.' :: (octet (a.extractLsb' 8 8) ++ '.' :: octet (a.extractLsb' 0 8)))

/-- The text `snprintf` leaves in a buffer of `size` bytes: its NUL takes one of them. -/
def snprintf (size : Nat) (text : List Char) : List Char := text.take (size - 1)

/-- The text that `hook_func` has in `source` for an address. -/
def key (a : BitVec 32) : List Char := snprintf 16 (pI4 a)

/-- An octet has at least one digit. -/
lemma octet_ne_nil {b} : octet b ≠ [] := Nat.toDigits_ne_nil

/-- An octet has at most three digits. -/
lemma octet_length {b} : (octet b).length ≤ 3 :=
  (Nat.length_toDigits_le_iff (by decide) (by decide)).mpr (Nat.lt_of_lt_of_le b.isLt (by decide))

/-- The separator is no digit. -/
lemma octet_no_dot {b} : '.' ∉ octet b := by
  intro mem
  have dig := Nat.isDigit_of_mem_toDigits (by decide) (by decide) mem
  revert dig
  decide

/-- The digits determine the octet. -/
lemma octet_injective {a b} (e : octet a = octet b) : a = b := by
  have e' := congrArg (Nat.ofDigitChars 10 · 0) e
  simp only [octet, Nat.ofDigitChars_ten_toDigits] at e'
  exact BitVec.eq_of_toNat_eq e'

/-- A separator that occurs in neither first part splits a text in one way. -/
lemma append_sep_inj {α : Type*} {c : α} {xs ys us vs} (ox : c ∉ xs) (oy : c ∉ ys)
    (e : xs ++ c :: us = ys ++ c :: vs) : xs = ys ∧ us = vs := by
  induction xs generalizing ys with
  | nil =>
    cases ys with
    | nil => exact ⟨rfl, (List.cons.inj e).2⟩
    | cons y ys => exact absurd ((List.cons.inj e).1 ▸ List.mem_cons_self) oy
  | cons x xs ih =>
    cases ys with
    | nil => exact absurd ((List.cons.inj e).1 ▸ List.mem_cons_self) ox
    | cons y ys =>
      obtain ⟨rfl, e'⟩ := List.cons.inj e
      have ox' : c ∉ xs := fun mem => ox (List.mem_cons_of_mem _ mem)
      have oy' : c ∉ ys := fun mem => oy (List.mem_cons_of_mem _ mem)
      obtain ⟨rfl, rfl⟩ := ih ox' oy' e'
      exact ⟨rfl, rfl⟩

/-- An address is its four octets. -/
lemma eq_of_octets {a b : BitVec 32} (e3 : a.extractLsb' 24 8 = b.extractLsb' 24 8)
    (e2 : a.extractLsb' 16 8 = b.extractLsb' 16 8) (e1 : a.extractLsb' 8 8 = b.extractLsb' 8 8)
    (e0 : a.extractLsb' 0 8 = b.extractLsb' 0 8) : a = b := by
  apply BitVec.eq_of_toNat_eq
  have n3 := congrArg BitVec.toNat e3
  have n2 := congrArg BitVec.toNat e2
  have n1 := congrArg BitVec.toNat e1
  have n0 := congrArg BitVec.toNat e0
  simp only [BitVec.extractLsb'_toNat, Nat.shiftRight_eq_div_pow] at n3 n2 n1 n0
  have la := a.isLt
  have lb := b.isLt
  omega

/-- The dotted text determines the address. -/
lemma pI4_injective : Function.Injective pI4 := by
  intro a b e
  obtain ⟨e3, e⟩ := append_sep_inj octet_no_dot octet_no_dot e
  obtain ⟨e2, e⟩ := append_sep_inj octet_no_dot octet_no_dot e
  obtain ⟨e1, e0⟩ := append_sep_inj octet_no_dot octet_no_dot e
  exact eq_of_octets (octet_injective e3) (octet_injective e2) (octet_injective e1)
    (octet_injective e0)

/-- The dotted text is never empty. -/
lemma pI4_ne_nil {a} : pI4 a ≠ [] := by
  intro e
  exact octet_ne_nil (List.append_eq_nil_iff.mp e).1

/-- Four octets and three dots have at most 15 characters. -/
lemma pI4_length {a} : (pI4 a).length ≤ 15 := by
  have l3 := octet_length (b := a.extractLsb' 24 8)
  have l2 := octet_length (b := a.extractLsb' 16 8)
  have l1 := octet_length (b := a.extractLsb' 8 8)
  have l0 := octet_length (b := a.extractLsb' 0 8)
  simp only [pI4, List.length_append, List.length_cons]
  omega

/-- The buffer `source` of 16 bytes holds the text of every address. -/
lemma key_eq {a} : key a = pI4 a := List.take_of_length_le pI4_length

/-- Two addresses never have the same text. -/
lemma key_injective : Function.Injective key := by
  intro a b e
  rw [key_eq, key_eq] at e
  exact pI4_injective e

/-- No address has the text of the list's root. -/
lemma key_ne_nil {a} : key a ≠ [] := by
  rw [key_eq]
  exact pI4_ne_nil

/-- The text of an address and its NUL fit into the 16 bytes of `addr`. -/
lemma key_length {a} : (key a).length < 16 := by
  rw [key_eq]
  exact Nat.lt_succ_of_le pI4_length

end KernelModules.Packet
