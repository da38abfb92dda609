import Mathlib.Data.List.Basic
import KernelModules.Base.Run
import KernelModules.Chardev.Source

/-!
# Clients that retry their writes

Any number of clients write to the device of `chardev_fops.c`, each with the usual loop: it calls
`memory_write` on what is left of its string and advances by the returned count until nothing is
left. Every call reports one byte and stores the last byte of what it was given, which is the last
byte of the whole string at every call.

`device_of_clients` says what the device holds and how far each client is after every interleaving
of such calls and of reads.
-/

namespace KernelModules.Chardev

variable {ι : Type*} [DecidableEq ι]

/-- The user's buffer that holds a string. -/
def userBuffer (bs : List UInt8) (i : Int) : Option UInt8 := if 0 ≤ i then bs[i.toNat]? else none

/-- The byte of the device, and what each client still has to write. -/
structure Device (ι : Type*) where
  mem : UInt8
  rest : ι → List UInt8

/-- The device after `memory_init`, and the clients before their first call. -/
def Device.init (text : ι → List UInt8) : Device ι := ⟨0, text⟩

/-- A call that a client's loop makes, or a `memory_read`. -/
inductive Event (ι : Type*) where
  | write (c : ι)
  | read (count : Nat) (fPos : Int)

/-- One call. A client with nothing left makes none. -/
def step (s : Device ι) : Event ι → Option (Device ι)
  | .write c =>
    if s.rest c = [] then none else
      let written := memoryWrite (userBuffer (s.rest c)) (s.rest c).length
      some ⟨written.1, Function.update s.rest c ((s.rest c).drop written.2.toNat)⟩
  | .read _ _ => some s

/-- Whether an event is a call of this client. -/
def Event.isBy (c : ι) : Event ι → Bool
  | .write c' => c' = c
  | .read _ _ => false

/-- The number of calls a client has made. -/
def calls (c : ι) (es : List (Event ι)) : Nat := es.countP (Event.isBy c)

/-- The client that wrote last. -/
def lastWriter (es : List (Event ι)) : Option ι :=
  es.foldl (fun last e => match e with
    | .write c => some c
    | .read _ _ => last) none

/-- A write of a string that is not empty stores its last byte. -/
lemma memoryWrite_eq {bs : List UInt8} (ne : bs ≠ []) :
    memoryWrite (userBuffer bs) bs.length = (bs.getLast ne, 1) := by
  have pos := List.length_pos_iff.mpr ne
  have index : ((bs.length : Int) - 1).toNat = bs.length - 1 := by omega
  rw [memoryWrite, userBuffer, if_pos (by omega), index, ← List.getLast?_eq_getElem?,
    List.getLast?_eq_some_getLast ne, Option.getD_some]

/-- A write stores the last byte of what is left, and returns 1. -/
lemma step_write {s s' : Device ι} {c} (st : step s (.write c) = some s') :
    ∃ ne : s.rest c ≠ [], s' = ⟨(s.rest c).getLast ne,
      Function.update s.rest c ((s.rest c).drop 1)⟩ := by
  obtain ⟨ne, e⟩ := Option.ite_none_left_eq_some.mp st
  refine ⟨ne, ?_⟩
  rw [memoryWrite_eq ne] at e
  exact (Option.some.inj e).symm

/-- How far the clients are, and what the last call has stored. -/
structure Progress (text : ι → List UInt8) (ne : ∀ c, text c ≠ []) (es : List (Event ι))
    (s : Device ι) : Prop where
  rest : ∀ c, s.rest c = (text c).drop (calls c es)
  bound : ∀ c, calls c es ≤ (text c).length
  mem : s.mem = (lastWriter es).elim 0 fun c => (text c).getLast (ne c)

/-- Each write brings its client one byte further. -/
lemma Progress.step {text : ι → List UInt8} {ne es s e s'} (inv : Progress text ne es s)
    (st : step s e = some s') : Progress text ne (es ++ [e]) s' := by
  cases e with
  | write c =>
    obtain ⟨left, rfl⟩ := step_write st
    have last : lastWriter (es ++ [.write c]) = some c := List.foldl_concat ..
    have more : ∀ d, calls d (es ++ [.write c]) = calls d es + if c = d then 1 else 0 := by
      intro d
      rw [calls, List.countP_append]
      by_cases same : c = d
      · simp [calls, Event.isBy, same]
      · simp [calls, Event.isBy, same]
    refine ⟨fun d => ?_, fun d => ?_, ?_⟩
    · rw [more]
      by_cases same : c = d
      · subst same
        rw [if_pos rfl, ← List.drop_drop, ← inv.rest c]
        exact Function.update_self ..
      · rw [if_neg same]
        exact (Function.update_of_ne (Ne.symm same) ..).trans (inv.rest d)
    · rw [more]
      by_cases same : c = d
      · subst same
        rw [if_pos rfl]
        by_contra done_
        refine left ((inv.rest c).trans (List.drop_eq_nil_of_le ?_))
        omega
      · rw [if_neg same]
        exact inv.bound d
    · -- the last byte of what is left is the last byte of the string
      rw [last]
      have same : (s.rest c).getLast left = (text c).getLast (ne c) := by
        have left' := left
        rw [inv.rest c] at left'
        rw [← List.getLast_drop left']
        congr 1
        exact inv.rest c
      exact same
  | read count fPos =>
    cases st
    have last : lastWriter (es ++ [.read count fPos]) = lastWriter es := List.foldl_concat ..
    have more : ∀ d, calls d (es ++ [.read count fPos]) = calls d es := by
      intro d
      rw [calls, List.countP_append]
      rfl
    refine ⟨fun d => ?_, fun d => ?_, ?_⟩
    · rw [more]
      exact inv.rest d
    · rw [more]
      exact inv.bound d
    · rw [last]
      exact inv.mem

/-- After every interleaving of the clients' calls and of reads: a client makes another call exactly
    when it has made fewer calls than its string has bytes; the device holds 0 or the last byte of
    the string of the client that wrote last; and a read at position 0 delivers it. -/
theorem device_of_clients {text : ι → List UInt8} (ne : ∀ c, text c ≠ []) {es s}
    (go : run step (.init text) es = some s) :
    (∀ c, calls c es ≤ (text c).length ∧
      ((∃ s', step s (.write c) = some s') ↔ calls c es < (text c).length)) ∧
    s.mem = (lastWriter es).elim 0 (fun c => (text c).getLast (ne c)) ∧
    ∀ count, 1 ≤ count → (memoryRead s.mem true count 0).ret = 1 ∧
      (memoryRead s.mem true count 0).delivered =
        some ((lastWriter es).elim 0 fun c => (text c).getLast (ne c)) := by
  have inv : Progress text ne es s := by
    refine run_induction (P := Progress text ne) ?_ (fun _ inv st => inv.step st) go
    exact ⟨fun _ => rfl, fun _ => Nat.zero_le _, rfl⟩
  refine ⟨fun c => ⟨inv.bound c, ?_⟩, inv.mem, fun count _ => ⟨rfl, congrArg some inv.mem⟩⟩
  constructor
  · rintro ⟨s', st⟩
    obtain ⟨left, -⟩ := step_write st
    by_contra done_
    exact left ((inv.rest c).trans (List.drop_eq_nil_of_le (Nat.le_of_not_lt done_)))
  · intro lt
    have left : s.rest c ≠ [] := by
      rw [inv.rest c]
      exact mt List.drop_eq_nil_iff.mp (Nat.not_le_of_lt lt)
    exact ⟨_, if_neg left⟩

/-- Client 0 writes "ab" and client 1 "xyz": client 0 begins, client 1 makes a call, client 0
    ends. -/
theorem device_of_two_clients :
    ∃ s, run step (.init fun c : Bool => if c then [120, 121, 122] else [97, 98])
        [.write false, .write true, .read 1 0, .write false] = some s ∧ s.mem = 98 ∧
      ¬ ∃ s', step s (.write false) = some s' := by
  have ne : ∀ c : Bool, (if c then [120, 121, 122] else [97, 98] : List UInt8) ≠ [] := by
    decide
  obtain ⟨clients, mem, -⟩ := device_of_clients ne (s := _)
    (rfl : run step _ [.write false, .write true, .read 1 0, .write false] = some _)
  refine ⟨_, rfl, mem, fun again => ?_⟩
  exact absurd ((clients false).2.mp again) (by decide)

end KernelModules.Chardev
