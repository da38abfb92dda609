import KernelModules.Base.Digits
import Mathlib.Data.List.Basic
import Mathlib.Data.List.TakeWhile

/-!
# Scanning and printing numbers

The conversions of `sscanf` and `sprintf`, on the bytes of a string without its NUL. Both `%s` and
`%d` skip leading white space.

* `scanWord`: what `%s` reads, the bytes up to the next white space.
* `scanInt`: what `%d` reads, an optional minus sign and the maximal run of digits behind it; `none`
  when there is no digit. The number is not cut to the width of a type. `scanInt_isSome`: it is a
  number exactly when the string starts with one (`LeadingInt`).
* `printInt`: what `%d` prints.
* `scanInt_printInt`: a number that is printed and scanned again is the same, whatever follows its
  digits.
-/

namespace KernelModules

/-- White space (C `isspace` of the kernel): blank, tab to carriage return, and the no-break
    space. -/
def isSpace (b : UInt8) : Bool := b = 32 || (9 ≤ b && b ≤ 13) || b = 160

/-- The string behind its leading white space. -/
def skipSpaces (str : List UInt8) : List UInt8 := str.dropWhile isSpace

/-- The first word of a string. -/
def scanWord (str : List UInt8) : List UInt8 := (skipSpaces str).takeWhile fun b => !isSpace b

/-- The number at the beginning of a string. -/
def scanNat (str : List UInt8) : Option Nat :=
  let digits := str.takeWhile isDigit
  if digits = [] then none else some (decimal digits)

/-- The number with an optional minus sign behind the leading white space of a string. -/
def scanInt (str : List UInt8) : Option Int :=
  let str := skipSpaces str
  if str.head? = some 45 then (scanNat str.tail).map fun n => -Int.ofNat n
  else (scanNat str).map Int.ofNat

/-- A string that starts with a number: behind white space and an optional minus sign there is a
    digit. -/
def LeadingInt (str : List UInt8) : Prop :=
  ∃ spaces sign d rest, str = spaces ++ sign ++ d :: rest ∧ (∀ b ∈ spaces, isSpace b = true) ∧
    (sign = [] ∨ sign = [45]) ∧ isDigit d = true

/-- The digits of a number. -/
def printNat (n : Nat) : List UInt8 := (Nat.toDigits 10 n).map fun c => UInt8.ofNat c.toNat

/-- The digits of a number, behind a minus sign if it is negative. -/
def printInt (i : Int) : List UInt8 := if i < 0 then 45 :: printNat i.natAbs else printNat i.natAbs

/-- A printed number has a digit. -/
lemma printNat_ne_nil {n} : printNat n ≠ [] := by
  rw [printNat, ne_eq, List.map_eq_nil_iff]
  exact Nat.toDigits_ne_nil

/-- The byte of a digit has the number of the character. -/
lemma toNat_of_mem_toDigits {n c} (mem : c ∈ Nat.toDigits 10 n) :
    (UInt8.ofNat c.toNat).toNat = c.toNat ∧ 48 ≤ c.toNat ∧ c.toNat ≤ 57 := by
  have digit := Nat.isDigit_of_mem_toDigits (by decide) (by decide) mem
  obtain ⟨low, high⟩ := Char.isDigit_iff_toNat.mp digit
  have low' : 48 ≤ c.toNat := low
  have high' : c.toNat ≤ 57 := high
  refine ⟨?_, low', high'⟩
  rw [UInt8.toNat_ofNat']
  omega

/-- A printed number has nothing but digits. -/
lemma isDigit_of_mem_printNat {n b} (mem : b ∈ printNat n) : isDigit b = true := by
  obtain ⟨c, mc, rfl⟩ := List.mem_map.mp mem
  obtain ⟨e, low, high⟩ := toNat_of_mem_toDigits mc
  simp only [isDigit, Bool.and_eq_true, decide_eq_true_eq, UInt8.le_iff_toNat_le]
  rw [e]
  exact ⟨low, high⟩

/-- The digits of a number make that number. -/
lemma decimal_printNat {n} : decimal (printNat n) = n := by
  rw [decimal, decimalFrom, printNat, List.foldl_map]
  refine Eq.trans ?_ (Nat.ofDigitChars_ten_toDigits (n := n))
  refine List.foldl_ext _ _ 0 fun m c mem => ?_
  rw [(toNat_of_mem_toDigits mem).1, Nat.mul_comm]
  rfl

section
variable {rest : List UInt8}

/-- A printed number is scanned back, when no digit follows it. -/
lemma scanNat_printNat {n} (stop : ∀ b ∈ rest.head?, isDigit b = false) :
    scanNat (printNat n ++ rest) = some n := by
  have end_ : rest.takeWhile isDigit = [] := by
    cases rest with
    | nil => rfl
    | cons b rest => exact List.takeWhile_cons_of_neg (by simpa using stop b rfl)
  have digits : (printNat n ++ rest).takeWhile isDigit = printNat n := by
    rw [List.takeWhile_append_of_pos fun b => isDigit_of_mem_printNat, end_, List.append_nil]
  simp only [scanNat, digits, if_neg printNat_ne_nil, decimal_printNat]

/-- A digit is neither white space nor a minus sign. -/
lemma not_isSpace_of_isDigit {b} (digit : isDigit b = true) : isSpace b = false ∧ b ≠ 45 := by
  simp only [isDigit, isSpace, Bool.and_eq_true, decide_eq_true_eq, UInt8.le_iff_toNat_le,
    Bool.or_eq_false_iff, Bool.and_eq_false_iff, decide_eq_false_iff_not, ne_eq,
    ← UInt8.toNat_inj] at digit ⊢
  change 48 ≤ b.toNat ∧ b.toNat ≤ 57 at digit
  change ((¬ b.toNat = 32 ∧ (¬ 9 ≤ b.toNat ∨ ¬ b.toNat ≤ 13)) ∧ ¬ b.toNat = 160) ∧ ¬ b.toNat = 45
  omega

/-- So is a printed number with a sign. -/
lemma scanInt_printInt {i} (stop : ∀ b ∈ rest.head?, isDigit b = false) :
    scanInt (printInt i ++ rest) = some i := by
  rw [printInt, scanInt]
  by_cases neg : i < 0
  · have skip :
        skipSpaces (45 :: (printNat i.natAbs ++ rest)) = 45 :: (printNat i.natAbs ++ rest) :=
      List.dropWhile_cons_of_neg (by decide)
    rw [if_pos neg, List.cons_append, skip, List.head?_cons, if_pos rfl, List.tail_cons,
      scanNat_printNat stop, Option.map_some, Int.ofNat_eq_natCast]
    congr 1
    omega
  · obtain ⟨b, bs, e⟩ := List.exists_cons_of_ne_nil (printNat_ne_nil (n := i.natAbs))
    obtain ⟨solid, minus⟩ :=
      not_isSpace_of_isDigit (isDigit_of_mem_printNat (e ▸ List.mem_cons_self))
    have skip : skipSpaces (printNat i.natAbs ++ rest) = printNat i.natAbs ++ rest := by
      rw [e]
      exact List.dropWhile_cons_of_neg (by simp [solid])
    have sign : (printNat i.natAbs ++ rest).head? ≠ some 45 := by
      rw [e]
      exact fun h => minus (Option.some.inj h)
    rw [if_neg neg, skip, if_neg sign, scanNat_printNat stop, Option.map_some, Int.ofNat_eq_natCast]
    congr 1
    omega

/-- A number is scanned when the text begins with a digit. -/
lemma scanNat_isSome {str} :
    (scanNat str).isSome ↔ ∃ d rest, str = d :: rest ∧ isDigit d = true := by
  cases str with
  | nil => simp [scanNat]
  | cons b str =>
    cases digit : isDigit b with
    | true => simp [scanNat, digit]
    | false => simp [scanNat, digit]

/-- All spaces in front are skipped, and nothing else. -/
lemma skipSpaces_append {spaces str} (all : ∀ b ∈ spaces, isSpace b = true)
    (solid : ∀ b ∈ str.head?, isSpace b = false) : skipSpaces (spaces ++ str) = str := by
  rw [skipSpaces, List.dropWhile_append_of_pos all]
  cases str with
  | nil => rfl
  | cons b str => exact List.dropWhile_cons_of_neg (by simp [solid b rfl])

/-- `%d` reads a number exactly when the string starts with one. -/
lemma scanInt_isSome {str} : (scanInt str).isSome ↔ LeadingInt str := by
  constructor
  · intro some_
    have split : str = str.takeWhile isSpace ++ skipSpaces str :=
      List.takeWhile_append_dropWhile.symm
    have all : ∀ b ∈ str.takeWhile isSpace, isSpace b = true :=
      fun b mem => List.mem_takeWhile_imp mem
    rw [scanInt] at some_
    by_cases minus : (skipSpaces str).head? = some 45
    · rw [if_pos minus, Option.isSome_map] at some_
      obtain ⟨d, rest, e, digit⟩ := scanNat_isSome.mp some_
      refine ⟨str.takeWhile isSpace, [45], d, rest, ?_, all, .inr rfl, digit⟩
      rw [List.append_assoc, List.singleton_append, ← e, ← List.eq_cons_of_mem_head? minus]
      exact split
    · rw [if_neg minus, Option.isSome_map] at some_
      obtain ⟨d, rest, e, digit⟩ := scanNat_isSome.mp some_
      refine ⟨str.takeWhile isSpace, [], d, rest, ?_, all, .inl rfl, digit⟩
      rw [List.append_nil, ← e]
      exact split
  · rintro ⟨spaces, sign, d, rest, rfl, all, signs, digit⟩
    obtain ⟨solid, minus⟩ := not_isSpace_of_isDigit digit
    rw [scanInt, List.append_assoc]
    rcases signs with rfl | rfl
    · have skip : skipSpaces (spaces ++ ([] ++ d :: rest)) = d :: rest :=
        skipSpaces_append all fun b mem => by cases mem; exact solid
      have sign : (d :: rest).head? ≠ some 45 := fun h => minus (Option.some.inj h)
      rw [skip, if_neg sign, Option.isSome_map]
      exact scanNat_isSome.mpr ⟨d, rest, rfl, digit⟩
    · have skip : skipSpaces (spaces ++ ([45] ++ d :: rest)) = 45 :: d :: rest :=
        skipSpaces_append all fun b mem => by cases mem; rfl
      rw [skip, List.head?_cons, if_pos rfl, Option.isSome_map]
      exact scanNat_isSome.mpr ⟨d, rest, rfl, digit⟩

end

end KernelModules
