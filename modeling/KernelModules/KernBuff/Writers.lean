import KernelModules.Base.Run
import KernelModules.KernBuff.Verdict

/-!
# Concurrent writers of the misc device

`my_write` of `misc_char_dev.c` holds `my_rwlock` while it copies and stores the terminator, and
compares `kern_buff` with the word after the unlock. So a call is two steps, and another call can
copy in between. What a call compares are the bytes that were copied last (`Coherent`).

`verdict_isolated_iff` says when the verdicts are about each call's own bytes all the same.
-/

namespace KernelModules.MiscCharDev

open KernBuff

/-- The buffer, and the calls of `my_write` between their two steps: the bytes of each and what
    `simple_write_to_buffer` returned. -/
structure Writers where
  kernBuff : Buf UInt8 maxBuff
  pending : Nat → Option (List UInt8 × Int)

/-- No call is in progress. -/
def Writers.start (buf : Buf UInt8 maxBuff) : Writers := ⟨buf, fun _ => none⟩

/-- The two steps of a call by thread `w`, on its own file at offset 0. -/
inductive Event where
  | copy (w : Nat) (src : List UInt8)    -- the locked copy, with the terminator
  | compare (w : Nat)                    -- strcmp(kern_buff, "linux"), and the return

/-- One step. -/
def step (s : Writers) : Event → Option Writers
  | .copy w src =>
    if s.pending w = none then
      let copied := copyIn ⟨s.kernBuff, 0⟩ src 0
      some ⟨copied.1.kernBuff, Function.update s.pending w (some (src, copied.2))⟩
    else none
  | .compare w =>
    if s.pending w = none then none
    else some { s with pending := Function.update s.pending w none }

/-- The bytes that were copied last. -/
def lastCopied (es : List Event) : Option (List UInt8) :=
  es.foldl (fun last e => match e with
    | .copy _ src => some src
    | .compare _ => last) none

/-- Every write is shorter than the buffer. -/
def Short : Event → Prop
  | .copy _ src => src.length < maxBuff
  | .compare _ => True

/-- What the calls in progress have left in the buffer. -/
structure Coherent (es : List Event) (s : Writers) : Prop where
  returned : ∀ w src ret, s.pending w = some (src, ret) → ret = src.length ∧ lastCopied es ≠ none
  word : ∀ last, lastCopied es = some last →
    (cstring s.kernBuff.toList = linux ↔ cstring last = linux)

/-- A copy to the start of the buffer leaves the word when it is written. -/
lemma cstring_copy {buf : Buf UInt8 maxBuff} {src : List UInt8} :
    cstring (copyIn ⟨buf, 0⟩ src 0).1.kernBuff.toList = linux ↔ cstring src = linux :=
  cstring_copyIn_zero rfl

/-- It returns the length that was written. -/
lemma copy_returns {buf : Buf UInt8 maxBuff} {src : List UInt8} (short : src.length < maxBuff) :
    (copyIn ⟨buf, 0⟩ src 0).2 = src.length := by
  rw [copyIn_eq]
  exact congrArg Nat.cast (room_zero rfl (Nat.le_of_lt_succ short))

/-- What the copy of a write does. -/
lemma step_copy {s s' : Writers} {w src} (st : step s (.copy w src) = some s') :
    s' = ⟨(copyIn ⟨s.kernBuff, 0⟩ src 0).1.kernBuff,
      Function.update s.pending w (some (src, (copyIn ⟨s.kernBuff, 0⟩ src 0).2))⟩ := by
  obtain ⟨-, e⟩ := Option.ite_none_right_eq_some.mp st
  exact (Option.some.inj e).symm

/-- What the comparison of a write does. -/
lemma step_compare {s s' : Writers} {w} (st : step s (.compare w) = some s') :
    (∃ src ret, s.pending w = some (src, ret)) ∧
      s' = { s with pending := Function.update s.pending w none } := by
  obtain ⟨busy, e⟩ := Option.ite_none_left_eq_some.mp st
  obtain ⟨⟨src, ret⟩, p⟩ := Option.ne_none_iff_exists'.mp busy
  exact ⟨⟨src, ret, p⟩, (Option.some.inj e).symm⟩

/-- A step keeps what the last copy has left. -/
lemma Coherent.step {es s e s'} (co : Coherent es s) (short : Short e) (st : step s e = some s') :
    Coherent (es ++ [e]) s' := by
  cases e with
  | copy w src =>
    have last : lastCopied (es ++ [.copy w src]) = some src := List.foldl_concat ..
    refine ⟨fun w' src' ret p => ⟨?_, ?_⟩, fun src' e => ?_⟩
    · rw [step_copy st] at p
      by_cases same : w' = w
      · subst same
        cases (Function.update_self ..).symm.trans p
        exact copy_returns short
      · exact (co.returned w' src' ret ((Function.update_of_ne same ..).symm.trans p)).1
    · rw [last]
      exact Option.some_ne_none src
    · rw [step_copy st]
      cases last.symm.trans e
      exact cstring_copy
  | compare w =>
    have last : lastCopied (es ++ [.compare w]) = lastCopied es := List.foldl_concat ..
    obtain ⟨-, rfl⟩ := step_compare st
    refine ⟨fun w' src' ret p => ?_, fun src' e => co.word src' (last.symm.trans e)⟩
    rw [last]
    by_cases same : w' = w
    · subst same
      cases (Function.update_self ..).symm.trans p
    · exact co.returned w' src' ret ((Function.update_of_ne same ..).symm.trans p)

/-- So does every run of short writes. -/
lemma run_coherent {buf es s} (short : ∀ e ∈ es, Short e)
    (go : run MiscCharDev.step (.start buf) es = some s) : Coherent es s := by
  refine run_induction (P := fun es s => (∀ e ∈ es, Short e) → Coherent es s) ?_ ?_ go short
  · intro _
    refine ⟨fun w src ret p => ?_, fun last e => ?_⟩
    · cases p
    · cases e
  · intro es s e s' _ inv st short
    have co := inv fun d mem => short d (List.mem_append_left _ mem)
    exact co.step (short e (List.mem_append_right _ List.mem_cons_self)) st

/-- The value that `my_write` returns is the length exactly when the buffer spells the word. -/
lemma verdict_eq_length {buf : Buf UInt8 maxBuff} {n : Nat} :
    verdict linux buf n = n ↔ cstring buf.toList = linux := by
  rw [verdict, show cstring linux = linux from rfl]
  split
  case isTrue ne =>
    refine ⟨fun e => ?_, fun e => absurd e ne⟩
    have neg : eInval < 0 := by decide
    omega
  case isFalse eq => exact ⟨fun _ => not_not.mp eq, fun _ => rfl⟩

/-- In a run of short writes every call returns its length for its own bytes alone exactly when, at
    every comparison, the bytes copied last spell the word just when the call's own bytes do. -/
theorem verdict_isolated_iff (buf : Buf UInt8 maxBuff) {es} (short : ∀ e ∈ es, Short e) :
    (∀ pre w post s src ret, es = pre ++ .compare w :: post → run step (.start buf) pre = some s →
      s.pending w = some (src, ret) →
      (verdict linux s.kernBuff ret = src.length ↔ cstring src = linux)) ↔
    (∀ pre w post s src ret last, es = pre ++ .compare w :: post →
      run step (.start buf) pre = some s → s.pending w = some (src, ret) →
      lastCopied pre = some last → (cstring last = linux ↔ cstring src = linux)) := by
  have coherent : ∀ {pre w post s}, es = pre ++ .compare w :: post →
      run step (.start buf) pre = some s → Coherent pre s := by
    rintro pre w post s rfl go
    exact run_coherent (fun e mem => short e (List.mem_append_left _ mem)) go
  constructor
  · intro isolated pre w post s src ret last e go p copied
    have co := coherent e go
    obtain ⟨rfl, -⟩ := co.returned w src ret p
    rw [← co.word last copied, ← verdict_eq_length]
    exact isolated pre w post s src _ e go p
  · intro agree pre w post s src ret e go p
    have co := coherent e go
    obtain ⟨rfl, some_⟩ := co.returned w src ret p
    obtain ⟨last, copied⟩ := Option.ne_none_iff_exists'.mp some_
    rw [verdict_eq_length, co.word last copied]
    exact agree pre w post s src _ last e go p copied

/-- What holds of all bytes that are copied holds of those copied last, and of those of the calls in
    progress. -/
lemma copied_of_run {Q : List UInt8 → Prop} {buf es s} (go : run step (.start buf) es = some s)
    (all : ∀ w src, .copy w src ∈ es → Q src) :
    (∀ last, lastCopied es = some last → Q last) ∧
      ∀ w src ret, s.pending w = some (src, ret) → Q src := by
  refine run_induction (P := fun es s => (∀ w src, .copy w src ∈ es → Q src) →
    (∀ last, lastCopied es = some last → Q last) ∧
      ∀ w src ret, s.pending w = some (src, ret) → Q src) ?_ ?_ go all
  · intro _
    refine ⟨fun last e => ?_, fun w src ret p => ?_⟩
    · cases e
    · cases p
  · intro es s e s' _ inv st all
    obtain ⟨lasts, pending⟩ := inv fun w src mem => all w src (List.mem_append_left _ mem)
    cases e with
    | copy w src =>
      have here : Q src := all w src (List.mem_append_right _ List.mem_cons_self)
      have last : lastCopied (es ++ [.copy w src]) = some src := List.foldl_concat ..
      refine ⟨fun last' e => Option.some.inj (last.symm.trans e) ▸ here, fun v src' ret p => ?_⟩
      rw [step_copy st] at p
      by_cases same : v = w
      · subst same
        cases (Function.update_self ..).symm.trans p
        exact here
      · exact pending v src' ret ((Function.update_of_ne same ..).symm.trans p)
    | compare w =>
      have last : lastCopied (es ++ [.compare w]) = lastCopied es := List.foldl_concat ..
      obtain ⟨-, rfl⟩ := step_compare st
      refine ⟨fun last' e => lasts last' (last.symm.trans e), fun v src' ret p => ?_⟩
      by_cases same : v = w
      · subst same
        cases (Function.update_self ..).symm.trans p
      · exact pending v src' ret ((Function.update_of_ne same ..).symm.trans p)

/-- Two threads write the word, one of them with its NUL; thread 0 compares what thread 1 has
    copied. -/
theorem verdict_isolated_overlapping :
    ∃ s, run step (.start (.filled maxBuff 0)) [.copy 0 linux, .copy 1 (linux ++ [0])] = some s ∧
      s.pending 0 = some (linux, 5) ∧ s.pending 1 = some (linux ++ [0], 6) ∧
      (verdict linux s.kernBuff 5 = 5 ↔ cstring linux = linux) := by
  let es : List Event := [.copy 0 linux, .copy 1 (linux ++ [0]), .compare 0, .compare 1]
  have short : ∀ e ∈ es, Short e := by
    simp [es, Short, linux, maxBuff]
  have words : ∀ w src, .copy w src ∈ es → cstring src = linux := by
    intro w src mem
    simp only [es, List.mem_cons, Event.copy.injEq, List.not_mem_nil, or_false, reduceCtorEq] at mem
    rcases mem with ⟨-, rfl⟩ | ⟨-, rfl⟩
    · rfl
    · rfl
  refine ⟨_, rfl, rfl, rfl, (verdict_isolated_iff (.filled maxBuff 0) short).mpr ?_
    [.copy 0 linux, .copy 1 (linux ++ [0])] 0 [.compare 1] _ linux 5 rfl rfl rfl⟩
  intro pre w post s src ret last e go p copied
  obtain ⟨lasts, pending⟩ := copied_of_run go fun w src mem =>
    words w src (e ▸ List.mem_append_left _ mem)
  exact iff_of_true (lasts last copied) (pending w src ret p)

/-- Thread 0 writes "linux" and thread 1 "abc". When thread 1 copies before thread 0 compares,
    thread 0 is refused; when thread 0 copies before thread 1 compares, thread 1 is accepted. -/
theorem verdict_crossed :
    (∃ s, run step (.start (.filled maxBuff 0)) [.copy 0 linux, .copy 1 [97, 98, 99]] = some s ∧
      s.pending 0 = some (linux, 5) ∧ verdict linux s.kernBuff 5 = eInval) ∧
    ∃ s, run step (.start (.filled maxBuff 0)) [.copy 1 [97, 98, 99], .copy 0 linux] = some s ∧
      s.pending 1 = some ([97, 98, 99], 3) ∧ verdict linux s.kernBuff 3 = 3 := by
  refine ⟨⟨_, rfl, rfl, ?_⟩, ⟨_, rfl, rfl, ?_⟩⟩
  · decide +kernel
  · decide +kernel

end KernelModules.MiscCharDev
