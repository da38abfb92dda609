import KernelModules.Base.Run
import KernelModules.Kobjects.Source

/-!
# Integers stored to `baz` and `bar`

Sequences of stores to the attributes of `kobjects.c`. A variable holds what `sscanf` has made of
the last text stored to it (`value_bStore`), and of a text that starts with no number it makes what
the stack happens to hold.

* `shows_last_integer`: integers in decimal form are shown as they were stored, whatever is stored
  to the other attributes.
* `shows_agree_iff`: what is shown does not depend on uninitialised memory exactly when every text
  starts with a number.
-/

namespace KernelModules.Kobjects

/-- The variable behind an attribute. -/
def Attrs.value (s : Attrs) : BAttribute → BitVec 32
  | .baz => s.baz
  | .bar => s.bar

/-- `b_show` prints the variable of its attribute. -/
lemma bShow_eq {s attr} : bShow s attr = sprintfInt (s.value attr) := by
  cases attr with
  | baz => rfl
  | bar => rfl

/-- `b_store` sets the variable of its attribute to the integer scanned, and no other one. -/
lemma value_bStore {s attr junk buf other} :
    (bStore s attr junk buf).1.value other =
      if other = attr then sscanfInt buf junk else s.value other := by
  cases attr with
  | baz =>
    cases other with
    | baz => rfl
    | bar => rfl
  | bar =>
    cases other with
    | baz => rfl
    | bar => rfl

/-! ## Round trip -/

/-- A store; one to `baz` or `bar` comes with what `var` holds before it is set. -/
inductive Store where
  | foo (text : List UInt8)
  | b (attr : BAttribute) (junk : BitVec 32) (text : List UInt8)

/-- One store. -/
def step (s : Attrs) : Store → Option Attrs
  | .foo text => (fooStore s text).map Prod.fst
  | .b attr junk text => some (bStore s attr junk text).1

/-- A store of a text to `foo`, or of an integer in decimal form with an optional newline to `baz`
    or `bar`. -/
inductive Write where
  | foo (text : List UInt8)
  | int (attr : BAttribute) (i : BitVec 32) (newline : Bool) (junk : BitVec 32)

/-- The store that a write is. -/
def Write.store : Write → Store
  | foo text => .foo text
  | int attr i newline junk => .b attr junk (printInt i.toInt ++ if newline then [10] else [])

/-- The integer written to an attribute. -/
def Write.int? (attr : BAttribute) : Write → Option (BitVec 32)
  | foo _ => none
  | int attr' i _ _ => if attr' = attr then some i else none

/-- The last integer written to an attribute, 0 if there is none. -/
def lastInt (attr : BAttribute) (ws : List Write) : BitVec 32 :=
  (ws.filterMap (Write.int? attr)).getLast?.getD 0

/-- The first word of a text for `foo` has at most 9 characters. -/
def Write.Fits : Write → Prop
  | foo text => (scanWord (cstring text)).length ≤ 9
  | int _ _ _ _ => True

instance : DecidablePred Write.Fits
  | .foo text => inferInstanceAs (Decidable ((scanWord (cstring text)).length ≤ 9))
  | .int _ _ _ _ => inferInstanceAs (Decidable True)

/-- A printed number has no NUL. -/
lemma zero_not_mem_printNat {n} : 0 ∉ printNat n := by
  intro mem
  exact absurd (isDigit_of_mem_printNat mem) (by decide)

/-- Nor has one with a sign. -/
lemma zero_not_mem_printInt {i} : 0 ∉ printInt i := by
  rw [printInt]
  by_cases neg : i < 0
  · rw [if_pos neg, List.mem_cons, not_or]
    exact ⟨by decide, zero_not_mem_printNat⟩
  · rw [if_neg neg]
    exact zero_not_mem_printNat

/-- A 32-bit integer in decimal form is scanned as it is. -/
lemma sscanfInt_printInt {i junk : BitVec 32} {newline : Bool} :
    sscanfInt (printInt i.toInt ++ if newline then [10] else []) junk = i := by
  have nul : 0 ∉ printInt i.toInt ++ if newline then [10] else [] := by
    rw [List.mem_append, not_or]
    refine ⟨zero_not_mem_printInt, ?_⟩
    cases newline with
    | true => decide
    | false => decide
  have stop : ∀ b ∈ (if newline then [10] else [] : List UInt8).head?, isDigit b = false := by
    intro b mem
    cases newline with
    | true =>
      cases mem
      rfl
    | false => cases mem
  rw [sscanfInt, cstring_of_not_mem nul, scanInt_printInt stop, Option.map_some, Option.getD_some,
    BitVec.ofInt_toInt]

/-- The last integer is that of the last write, if it writes one to the attribute. -/
lemma lastInt_concat {attr ws w} :
    lastInt attr (ws ++ [w]) = (Write.int? attr w).getD (lastInt attr ws) := by
  rw [lastInt, List.filterMap_append]
  cases i : Write.int? attr w with
  | none => simp [i, lastInt]
  | some i' => simp [i]

/-- A write that fits goes through, and sets the variable of its attribute. -/
lemma step_store {s w} (fits : Write.Fits w) :
    ∃ s', step s w.store = some s' ∧
      ∀ attr, s'.value attr = (Write.int? attr w).getD (s.value attr) := by
  cases w with
  | foo text =>
    have room : (scanWord (cstring text)).length < 10 := Nat.lt_succ_of_le fits
    by_cases empty : cstring text = []
    · refine ⟨s, ?_, fun _ => rfl⟩
      simp [step, Write.store, fooStore, sscanfWord, empty]
    · refine ⟨{ s with foo := s.foo.overlay 0 (scanWord (cstring text) ++ [0]) }, ?_,
        fun attr => ?_⟩
      · simp [step, Write.store, fooStore, sscanfWord, empty, room]
      · cases attr with
        | baz => rfl
        | bar => rfl
  | int attr i newline junk =>
    refine ⟨_, rfl, fun other => ?_⟩
    rw [value_bStore, sscanfInt_printInt, Write.int?]
    by_cases same : attr = other
    · rw [if_pos same, if_pos same.symm]
      rfl
    · rw [if_neg same, if_neg (Ne.symm same)]
      rfl

/-- After every sequence of such writes `b_show` prints the last integer written to its
    attribute. -/
theorem shows_last_integer {ws : List Write} (fits : ∀ w ∈ ws, w.Fits) :
    ∃ s, run step .init (ws.map Write.store) = some s ∧
      ∀ attr, bShow s attr = printInt (lastInt attr ws).toInt ++ [10] := by
  obtain ⟨s, go, values⟩ : ∃ s, run step .init (ws.map Write.store) = some s ∧
      ∀ attr, s.value attr = lastInt attr ws := by
    induction ws using List.reverseRecOn with
    | nil =>
      refine ⟨.init, rfl, fun attr => ?_⟩
      cases attr with
      | baz => rfl
      | bar => rfl
    | append_singleton ws w ih =>
      obtain ⟨s, go, values⟩ := ih fun w' mem => fits w' (List.mem_append_left _ mem)
      obtain ⟨s', st, values'⟩ := step_store (s := s) (fits w (by simp))
      refine ⟨s', ?_, fun attr => ?_⟩
      · rw [List.map_append, List.map_singleton]
        exact run_snoc.mpr ⟨s, go, st⟩
      · rw [values', values, lastInt_concat]
  refine ⟨s, go, fun attr => ?_⟩
  rw [bShow_eq, values]
  rfl

/-- The least integer and 7 are stored to `baz`, -1 to `bar`, and "wednesday 9" to `foo`. -/
def mixedWrites : List Write :=
  [.int .baz (BitVec.intMin 32) true 5,
    .foo [119, 101, 100, 110, 101, 115, 100, 97, 121, 32, 57], .int .bar (-1) false 6,
    .int .baz 7 true 8]

/-- What is shown after writes to all three attributes. -/
theorem shows_mixedWrites :
    (∀ w ∈ mixedWrites, w.Fits) ∧ ∃ s, run step .init (mixedWrites.map Write.store) = some s ∧
      bShow s .baz = [55, 10] ∧ bShow s .bar = [45, 49, 10] := by
  have fits : ∀ w ∈ mixedWrites, w.Fits := by decide +kernel
  obtain ⟨s, go, shown⟩ := shows_last_integer fits
  refine ⟨fits, s, go, (shown .baz).trans ?_, (shown .bar).trans ?_⟩
  · decide
  · decide

/-! ## Uninitialised memory -/

/-- A store to `baz` or `bar`: the attribute and the text. -/
abbrev Call := BAttribute × List UInt8

/-- Stores to `baz` and `bar`, each with what `var` holds before it is set. -/
def bStores (s : Attrs) (es : List (Call × BitVec 32)) : Attrs :=
  es.foldl (fun s e => (bStore s e.1.1 e.2 e.1.2).1) s

/-- One store after the other. -/
lemma bStores_cons {s e es} :
    bStores s (e :: es) = bStores (bStore s e.1.1 e.2 e.1.2).1 es := rfl

/-- Where the text begins with an integer, `var` does not matter. -/
lemma sscanfInt_of_leadingInt {text} (num : LeadingInt (cstring text)) (junk junk' : BitVec 32) :
    sscanfInt text junk = sscanfInt text junk' := by
  obtain ⟨i, e⟩ := Option.isSome_iff_exists.mp (scanInt_isSome.mpr num)
  rw [sscanfInt, sscanfInt, e]
  rfl

/-- Where it does not, the store takes what `var` holds. -/
lemma sscanfInt_of_not_leadingInt {text} (none_ : ¬ LeadingInt (cstring text)) (junk : BitVec 32) :
    sscanfInt text junk = junk := by
  have e : scanInt (cstring text) = none := by
    rw [← Option.not_isSome_iff_eq_none, scanInt_isSome]
    exact none_
  rw [sscanfInt, e]
  rfl

/-- Texts that begin with integers make the stores independent of `var`. -/
lemma bStores_congr {s : Attrs} {es es' : List (Call × BitVec 32)}
    (same : es.map Prod.fst = es'.map Prod.fst)
    (nums : ∀ c ∈ es.map Prod.fst, LeadingInt (cstring c.2)) : bStores s es = bStores s es' := by
  induction es generalizing s es' with
  | nil =>
    cases es' with
    | nil => rfl
    | cons e' es' => cases same
  | cons e es ih =>
    cases es' with
    | nil => cases same
    | cons e' es' =>
      obtain ⟨head, tail⟩ := List.cons.inj same
      have num := nums e.1 List.mem_cons_self
      have first : bStore s e.1.1 e.2 e.1.2 = bStore s e'.1.1 e'.2 e'.1.2 := by
        rw [← head, bStore, bStore, sscanfInt_of_leadingInt num e.2 e'.2]
      rw [bStores_cons, bStores_cons, first]
      exact ih tail fun c mem => nums c (List.mem_cons_of_mem _ mem)

/-- Two runs of the same stores, with any values in uninitialised memory, agree in all that `b_show`
    prints between the stores exactly when every text starts with a number. -/
theorem shows_agree_iff (s : Attrs) (calls : List Call) :
    (∀ es es' : List (Call × BitVec 32), es.map Prod.fst = calls → es'.map Prod.fst = calls →
      ∀ k attr, bShow (bStores s (es.take k)) attr = bShow (bStores s (es'.take k)) attr) ↔
      ∀ c ∈ calls, LeadingInt (cstring c.2) := by
  constructor
  · intro agree c mem
    by_contra none_
    obtain ⟨pre, post, rfl⟩ := List.append_of_mem mem
    -- the same junk at every store
    let with_ (junk : BitVec 32) : List (Call × BitVec 32) :=
      (pre ++ c :: post).map fun c => (c, junk)
    have calls_ : ∀ junk, (with_ junk).map Prod.fst = pre ++ c :: post := by
      intro junk
      simp [with_, Function.comp_def]
    have shown : ∀ junk, bShow (bStores s ((with_ junk).take (pre.length + 1))) c.1 =
        sprintfInt junk := by
      intro junk
      have upTo : (with_ junk).take (pre.length + 1) =
          pre.map (fun c => (c, junk)) ++ [(c, junk)] := by
        have split : with_ junk =
            (pre.map (fun c => (c, junk)) ++ [(c, junk)]) ++ post.map fun c => (c, junk) := by
          simp [with_]
        rw [split]
        exact List.take_left' (by simp)
      rw [upTo, bStores, List.foldl_concat, bShow_eq, value_bStore, if_pos rfl,
        sscanfInt_of_not_leadingInt none_]
    have e := agree (with_ 0) (with_ 1) (calls_ 0) (calls_ 1) (pre.length + 1) c.1
    rw [shown, shown] at e
    exact absurd e (by decide)
  · intro nums es es' e e' k attr
    have same : (es.take k).map Prod.fst = (es'.take k).map Prod.fst := by
      rw [List.map_take, List.map_take, e, e']
    rw [bStores_congr same]
    intro c mem
    rw [List.map_take, e] at mem
    exact nums c (List.mem_of_mem_take mem)

/-- The text "abc" stored to `baz` shows what the stack held. -/
theorem shows_disagree :
    ∃ es es' : List (Call × BitVec 32), es.map Prod.fst = [(.baz, [97, 98, 99])] ∧
      es'.map Prod.fst = [(.baz, [97, 98, 99])] ∧ bShow (bStores .init es) .baz = [48, 10] ∧
      bShow (bStores .init es') .baz = [49, 10] := by
  refine ⟨[((.baz, [97, 98, 99]), 0)], [((.baz, [97, 98, 99]), 1)], rfl, rfl, ?_, ?_⟩
  · decide +kernel
  · decide +kernel

end KernelModules.Kobjects
