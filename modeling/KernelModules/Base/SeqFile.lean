import Mathlib.Tactic.Common
import Mathlib.Data.List.Infix

/-!
# Reading through a seq_file iterator

A `seq_file` turns an iterator (`start`, `next` and a function that prints the record of a cursor)
into a file. `seqRead` is one `read()` of `size` bytes from it. What an earlier read has printed and
not delivered is handed out first, and when that runs out the index moves on by one. Otherwise
`start` is called with the stored index and records are printed into a buffer, one `next` after the
other, until the reader's size is reached, the iterator ends or the buffer is full; the position
that `next` left with the last record that was kept becomes the index, plus one when the whole
buffer was delivered. The buffer is doubled until the first record fits.

`Positioned ops rs` is what the iterator has to promise: `start` at position `p` gives the cursor of
record `p`, and `next` moves to the next record and advances the position by one. Then every
sequence of reads delivers each record once, in order, and a read returns nothing exactly when
everything has been delivered (`Positioned.readsOnce`). An iterator whose `start` never answers null
does not end (`seqRead_ne_nil`, `reads_length`). One that starts at the same cursor at every
position prints the same first records again and again (`Restarting.reads`).
-/

namespace KernelModules

/-- The text of a record; it is never empty. -/
abbrev Record := { text : List Char // text ≠ [] }

/-- An iterator: `none` for an invalid access, a null cursor as `some (none, _)`. -/
structure SeqOps (γ : Type) where
  start : Nat → Option (Option γ × Nat)
  next : γ → Nat → Option (Option γ × Nat)
  render : γ → Option Record

/-- The state of an open seq_file: the text printed and not delivered, the index and the buffer
    size. -/
structure SeqFile where
  pending : List Char
  index : Nat
  size : Nat

namespace SeqFile
variable {γ : Type}

/-- The buffer size after doubling it until a text of length `len` fits. -/
def grow (len : Nat) : Nat → Nat → Nat
  | 0, size => size
  | n + 1, size => if len < size then size else grow len n (2 * size)

/-- Prints further records behind `buf` while the reader wants more and they fit. -/
def fill (ops : SeqOps γ) (size want : Nat) : Nat → γ → Nat → List Char → Option (List Char × Nat)
  | 0, _, pos, buf => if want ≤ buf.length then some (buf, pos) else none
  | n + 1, p, pos, buf =>
    if want ≤ buf.length then some (buf, pos)
    else do
      let (q, pos') ← ops.next p pos
      match q with
      | none => some (buf, pos)
      | some q => do
        let text ← ops.render q
        -- a record that does not fit is dropped and printed again by the next read
        if size ≤ buf.length + text.1.length then some (buf, pos)
        else fill ops size want n q pos' (buf ++ text.1)

/-- Starts the iterator at the index and delivers up to `want` bytes of what it prints. -/
def batch (ops : SeqOps γ) (m : SeqFile) (want : Nat) : Option (SeqFile × List Char) := do
  let (p, pos) ← ops.start m.index
  match p with
  | none => some (m, [])
  | some p => do
    let text ← ops.render p
    let size := grow text.1.length text.1.length m.size
    let (buf, pos) ← fill ops size want want p pos text.1
    let rest := buf.drop want
    some (⟨rest, if rest = [] then pos + 1 else pos, size⟩, buf.take want)

/-- One `read()` of `size` bytes. -/
def seqRead (ops : SeqOps γ) (m : SeqFile) (size : Nat) : Option (SeqFile × List Char) :=
  if m.pending = [] then batch ops m size
  else if size < m.pending.length then
    some ({ m with pending := m.pending.drop size }, m.pending.take size)
  else if size = m.pending.length then
    some ({ m with pending := [], index := m.index + 1 }, m.pending)
  else do
    let (m', t) ← batch ops { m with pending := [], index := m.index + 1 }
      (size - m.pending.length)
    some (m', m.pending ++ t)

/-- Successive reads, with the concatenation of what they return. -/
def reads (ops : SeqOps γ) : SeqFile → List Nat → Option (SeqFile × List Char)
  | m, [] => some (m, [])
  | m, n :: ns => do
    let (m, t) ← seqRead ops m n
    let (m, ts) ← reads ops m ns
    some (m, t ++ ts)

/-- A freshly opened file with a buffer of `size` bytes. -/
def opened (size : Nat) : SeqFile := ⟨[], 0, size⟩

/-- Every sequence of reads delivers a prefix of `full`, and the next read returns nothing exactly
    when all of it has been delivered. -/
def ReadsOnce (ops : SeqOps γ) (size : Nat) (full : List Char) : Prop :=
  ∀ ns, (∀ n ∈ ns, 0 < n) → ∃ m out, reads ops (opened size) ns = some (m, out) ∧ out <+: full ∧
    ∀ n, 0 < n → ∃ m' t, seqRead ops m n = some (m', t) ∧ (t = [] ↔ out = full)

/-- The position contract of an iterator over the records `rs`. -/
structure Positioned (ops : SeqOps γ) (rs : List (γ × Record)) : Prop where
  start : ∀ p, ops.start p = some (rs[p]?.map Prod.fst, p)
  next : ∀ {p r}, rs[p]? = some r → ops.next r.1 p = some (rs[p + 1]?.map Prod.fst, p + 1)
  render : ∀ {r}, r ∈ rs → ops.render r.1 = some r.2

/-- The text of a list of records. -/
def text (rs : List (γ × Record)) : List Char := (rs.map (·.2.1)).flatten

/-- What has been delivered and printed so far are the first `k` records, and the index says so. -/
def Delivered (rs : List (γ × Record)) (m : SeqFile) (out : List Char) : Prop :=
  ∃ k ≤ rs.length, out ++ m.pending = text (rs.take k) ∧
    if m.pending = [] then m.index = k else m.index + 1 = k

section
variable {ops : SeqOps γ} {rs : List (γ × Record)} {m : SeqFile}

/-- One more record adds its text. -/
lemma text_take_succ {k r} (e : rs[k]? = some r) :
    text (rs.take (k + 1)) = text (rs.take k) ++ r.2.1 := by
  simp [text, List.take_add_one, e]

/-- The first records make a first part of the text. -/
lemma text_take_le (k : Nat) : text (rs.take k) <+: text rs := by
  refine ⟨text (rs.drop k), ?_⟩
  rw [text, text, ← List.flatten_append, ← List.map_append, List.take_append_drop]
  rfl

/-- Fewer than all records make less than the whole text, as no record is empty. -/
lemma text_take_ne {k} (lt : k < rs.length) : text (rs.take k) ≠ text rs := by
  intro e
  have step := text_take_succ (List.getElem?_eq_getElem lt)
  have le : (text (rs.take (k + 1))).length ≤ (text rs).length := (text_take_le (k + 1)).length_le
  rw [step, e, List.length_append] at le
  have pos := List.length_pos_of_ne_nil rs[k].2.2
  omega

/-- Printing stops after some record, with all records up to it in the buffer. -/
lemma fill_positioned {n k r buf} (size want : Nat) (ps : Positioned ops rs) (e : rs[k]? = some r)
    (enough : want ≤ buf.length + n) :
    ∃ j buf', fill ops size want n r.1 k buf = some (buf ++ buf', k + j) ∧ k + j < rs.length ∧
      text (rs.take (k + j + 1)) = text (rs.take (k + 1)) ++ buf' := by
  have lt : k < rs.length := (List.getElem?_eq_some_iff.mp e).1
  induction n generalizing k r buf with
  | zero =>
    refine ⟨0, [], ?_, lt, ?_⟩
    · rw [fill, if_pos (show want ≤ buf.length from enough), List.append_nil]
      rfl
    · rw [List.append_nil]
  | succ n ih =>
    have stop : ∃ j buf', (some (buf, k) : Option (List Char × Nat)) = some (buf ++ buf', k + j) ∧
        k + j < rs.length ∧ text (rs.take (k + j + 1)) = text (rs.take (k + 1)) ++ buf' := by
      refine ⟨0, [], ?_, lt, ?_⟩
      · rw [List.append_nil]
        rfl
      · rw [List.append_nil]
    rw [fill]
    split
    case isTrue => exact stop
    case isFalse more =>
      rw [ps.next e]
      cases e' : rs[k + 1]? with
      | none => exact stop
      | some r' =>
        have lt' : k + 1 < rs.length := (List.getElem?_eq_some_iff.mp e').1
        simp only [Option.map_some, Option.bind_eq_bind, Option.bind_some,
          ps.render (List.mem_of_getElem? e')]
        split
        case isTrue => exact stop
        case isFalse =>
          have pos := List.length_pos_of_ne_nil r'.2.2
          have enough' : want ≤ (buf ++ r'.2.1).length + n := by
            rw [List.length_append]
            omega
          obtain ⟨j, buf', st, ltj, txt⟩ := ih e' enough' lt'
          refine ⟨j + 1, r'.2.1 ++ buf', ?_, ?_, ?_⟩
          · rw [st, List.append_assoc]
            congr 2
            omega
          · omega
          · rw [show k + (j + 1) + 1 = k + 1 + j + 1 by omega, txt, text_take_succ e',
              List.append_assoc]

/-- A batch of records keeps to the text, and returns nothing only at its end. -/
lemma batch_delivered {out} (want : Nat) (ps : Positioned ops rs) (pos : 0 < want)
    (del : Delivered rs m out) (done : m.pending = []) :
    ∃ m' t, batch ops m want = some (m', t) ∧ Delivered rs m' (out ++ t) ∧
      (t = [] ↔ out = text rs) := by
  obtain ⟨k, le, txt, idx⟩ := del
  rw [if_pos done] at idx
  rw [done, List.append_nil] at txt
  subst idx
  rw [batch, ps.start]
  cases e : rs[m.index]? with
  | none =>
    have all : m.index = rs.length := Nat.le_antisymm le (List.getElem?_eq_none_iff.mp e)
    have full : out = text rs := by rw [txt, all, List.take_length]
    refine ⟨m, [], rfl, ⟨m.index, le, ?_, ?_⟩, ⟨fun _ => full, fun _ => rfl⟩⟩
    · rw [done, List.append_nil, List.append_nil]
      exact txt
    · rw [if_pos done]
  | some r =>
    have lt : m.index < rs.length := (List.getElem?_eq_some_iff.mp e).1
    obtain ⟨j, buf', st, ltj, txt'⟩ := fill_positioned (grow r.2.1.length r.2.1.length m.size) want
      ps e (Nat.le_add_left want r.2.1.length)
    simp only [Option.map_some, Option.bind_eq_bind, Option.bind_some,
      ps.render (List.mem_of_getElem? e), st]
    rw [text_take_succ e, List.append_assoc, ← txt] at txt'
    refine ⟨_, _, rfl, ⟨m.index + j + 1, ltj, ?_, ?_⟩, ?_⟩
    · rw [List.append_assoc, List.take_append_drop]
      exact txt'.symm
    · split
      case isTrue => rfl
      case isFalse => rfl
    · constructor
      · intro nil
        rw [List.take_eq_nil_iff] at nil
        rcases nil with nil | nil
        · omega
        · exact absurd (List.append_eq_nil_iff.mp nil).1 r.2.2
      · intro full
        exact absurd (txt.symm.trans full) (text_take_ne lt)

/-- One read keeps the account, and returns nothing exactly when nothing is left. -/
lemma seqRead_delivered {n out} (ps : Positioned ops rs) (pos : 0 < n) (del : Delivered rs m out) :
    ∃ m' t, seqRead ops m n = some (m', t) ∧ Delivered rs m' (out ++ t) ∧
      (t = [] ↔ out = text rs) := by
  rw [seqRead]
  split
  case isTrue done => exact batch_delivered n ps pos del done
  case isFalse more =>
    obtain ⟨k, le, txt, idx⟩ := del
    rw [if_neg more] at idx
    have ne : out ≠ text rs := by
      intro full
      have len : (text (rs.take k)).length ≤ (text rs).length := (text_take_le k).length_le
      rw [← txt, full, List.length_append] at len
      have := List.length_pos_of_ne_nil more
      omega
    split
    case isTrue lt =>
      refine ⟨_, _, rfl, ⟨k, le, ?_, ?_⟩, ?_⟩
      · rw [List.append_assoc, List.take_append_drop]
        exact txt
      · have rest : m.pending.drop n ≠ [] := by
          rw [Ne, List.drop_eq_nil_iff]
          omega
        rw [if_neg rest]
        exact idx
      · refine ⟨fun nil => ?_, fun full => absurd full ne⟩
        rw [List.take_eq_nil_iff] at nil
        rcases nil with nil | nil
        · omega
        · exact absurd nil more
    case isFalse ge =>
      have del' : Delivered rs { m with pending := [], index := m.index + 1 } (out ++ m.pending) :=
        ⟨k, le, by rw [List.append_nil]; exact txt, idx⟩
      split
      case isTrue =>
        exact ⟨_, _, rfl, del', ⟨fun nil => absurd nil more, fun full => absurd full ne⟩⟩
      case isFalse neq =>
        obtain ⟨m', t, st, del'', -⟩ :=
          batch_delivered (n - m.pending.length) ps (by omega) del' rfl
        refine ⟨m', m.pending ++ t, ?_, ?_, ?_⟩
        · rw [st]
          rfl
        · rw [← List.append_assoc]
          exact del''
        · exact ⟨fun nil => absurd (List.append_eq_nil_iff.mp nil).1 more,
            fun full => absurd full ne⟩

/-- So does every sequence of reads. -/
lemma reads_delivered {ns out} (ps : Positioned ops rs) (pos : ∀ n ∈ ns, 0 < n)
    (del : Delivered rs m out) :
    ∃ m' ts, reads ops m ns = some (m', ts) ∧ Delivered rs m' (out ++ ts) := by
  induction ns generalizing m out with
  | nil =>
    refine ⟨m, [], rfl, ?_⟩
    rw [List.append_nil]
    exact del
  | cons n ns ih =>
    obtain ⟨m1, t, st, del1, -⟩ := seqRead_delivered ps (pos n List.mem_cons_self) del
    obtain ⟨m2, ts, st', del2⟩ := ih (fun k mem => pos k (List.mem_cons_of_mem n mem)) del1
    refine ⟨m2, t ++ ts, ?_, ?_⟩
    · simp only [reads, st, Option.bind_eq_bind, Option.bind_some, st']
    · rw [← List.append_assoc]
      exact del2

/-- A positioned iterator delivers every record once, in order, and then ends. -/
theorem Positioned.readsOnce {size} (ps : Positioned ops rs) : ReadsOnce ops size (text rs) := by
  intro ns pos
  have fresh : Delivered rs (opened size) [] := ⟨0, Nat.zero_le _, rfl, rfl⟩
  obtain ⟨m, out, st, del⟩ := reads_delivered ps pos fresh
  rw [List.nil_append] at del
  refine ⟨m, out, st, ?_, ?_⟩
  · obtain ⟨k, -, txt, -⟩ := del
    exact (List.prefix_append out m.pending).trans (txt ▸ text_take_le k)
  · intro n hn
    obtain ⟨m', t, st', -, nil⟩ := seqRead_delivered ps hn del
    exact ⟨m', t, st', nil⟩

/-- Filling the buffer only appends. -/
lemma fill_append {size want n p pos buf buf' pos'}
    (st : fill ops size want n p pos buf = some (buf', pos')) : buf <+: buf' := by
  induction n generalizing p pos buf with
  | zero =>
    rw [fill] at st
    split at st
    case isTrue => cases st; exact List.prefix_refl _
    case isFalse => cases st
  | succ n ih =>
    rw [fill] at st
    split at st
    case isTrue => cases st; exact List.prefix_refl _
    case isFalse =>
      obtain ⟨⟨q, pos''⟩, -, st⟩ := Option.bind_eq_some_iff.mp st
      cases q with
      | none => cases st; exact List.prefix_refl _
      | some q =>
        obtain ⟨text, -, st⟩ := Option.bind_eq_some_iff.mp st
        split at st
        case isTrue => cases st; exact List.prefix_refl _
        case isFalse => exact (List.prefix_append _ _).trans (ih st)

/-- Where `start` never ends the sequence, a read never returns 0 bytes. -/
lemma seqRead_ne_nil {n m' t} (live : ∀ p q pos, ops.start p = some (q, pos) → q ≠ none)
    (pos : 0 < n) (st : seqRead ops m n = some (m', t)) : t ≠ [] := by
  rw [seqRead] at st
  split at st
  case isTrue =>
    rw [batch] at st
    obtain ⟨⟨q, p⟩, start, st⟩ := Option.bind_eq_some_iff.mp st
    cases q with
    | none => exact absurd rfl (live _ _ _ start)
    | some q =>
      obtain ⟨text, -, st⟩ := Option.bind_eq_some_iff.mp st
      obtain ⟨⟨buf, p'⟩, fl, st⟩ := Option.bind_eq_some_iff.mp st
      cases st
      intro nil
      rcases List.take_eq_nil_iff.mp nil with nil | nil
      · omega
      · have pre := fill_append fl
        rw [nil] at pre
        exact text.2 (List.prefix_nil.mp pre)
  case isFalse more =>
    split at st
    case isTrue lt =>
      cases st
      intro nil
      rcases List.take_eq_nil_iff.mp nil with nil | nil
      · omega
      · exact more nil
    case isFalse =>
      split at st
      case isTrue => cases st; exact more
      case isFalse =>
        obtain ⟨⟨m1, t1⟩, -, st⟩ := Option.bind_eq_some_iff.mp st
        cases st
        exact fun nil => more (List.append_eq_nil_iff.mp nil).1

/-- So each read returns at least one byte. -/
lemma reads_length {ns m' out} (live : ∀ p q pos, ops.start p = some (q, pos) → q ≠ none)
    (pos : ∀ n ∈ ns, 0 < n) (st : reads ops m ns = some (m', out)) : ns.length ≤ out.length := by
  induction ns generalizing m out with
  | nil => exact Nat.zero_le _
  | cons n ns ih =>
    rw [reads] at st
    obtain ⟨⟨m1, t⟩, st1, st⟩ := Option.bind_eq_some_iff.mp st
    obtain ⟨⟨m2, ts⟩, st2, st⟩ := Option.bind_eq_some_iff.mp st
    cases st
    have some_ := List.length_pos_of_ne_nil (seqRead_ne_nil live (pos n List.mem_cons_self) st1)
    have more := ih (fun k mem => pos k (List.mem_cons_of_mem n mem)) st2
    rw [List.length_cons, List.length_append]
    omega

/-- A file whose `start` never ends the sequence has no end. -/
theorem not_readsOnce {size full} (live : ∀ p q pos, ops.start p = some (q, pos) → q ≠ none) :
    ¬ ReadsOnce ops size full := by
  intro once
  -- one byte at a time, one read more than there are bytes to deliver
  have pos : ∀ n ∈ List.replicate (full.length + 1) 1, 0 < n := by
    intro n mem
    rw [(List.mem_replicate.mp mem).2]
    exact Nat.one_pos
  obtain ⟨m, out, st, pre, -⟩ := once _ pos
  have le := reads_length live pos st
  have le' := pre.length_le
  rw [List.length_replicate] at le
  omega

end

/-! ## Iterators that restart -/

/-- An iterator that starts with the same cursor at every position: `start` and `next` leave the
    position alone. The record `i`, if there is one, is `rs i`. -/
structure Restarting (ops : SeqOps γ) (rs : Nat → Option (γ × Record)) : Prop where
  start : ∀ p, ops.start p = some ((rs 0).map Prod.fst, p)
  next : ∀ {i r}, rs i = some r → ∀ p, ops.next r.1 p = some ((rs (i + 1)).map Prod.fst, p)
  render : ∀ {i r}, rs i = some r → ops.render r.1 = some r.2

/-- The text of the first `k` records. -/
def firstText (rs : Nat → Option (γ × Record)) (k : Nat) : List Char :=
  ((List.range k).filterMap fun i => (rs i).map (·.2.1)).flatten

/-- `k` records are what a read prints that wants `want` bytes: they are there, and those before the
    last one do not suffice. -/
def Wanted (rs : Nat → Option (γ × Record)) (want k : Nat) : Prop :=
  0 < k ∧ rs (k - 1) ≠ none ∧ (firstText rs (k - 1)).length < want

/-- What has been delivered and printed so far are texts of first records, printed one after the
    other. -/
def Restarted (rs : Nat → Option (γ × Record)) (want : Nat) (m : SeqFile) (out : List Char) :
    Prop :=
  ∃ ks : List Nat, out ++ m.pending = (ks.map (firstText rs)).flatten ∧ ∀ k ∈ ks, Wanted rs want k

section
variable {ops : SeqOps γ} {rs : Nat → Option (γ × Record)} {m : SeqFile}

/-- One more record adds its text. -/
lemma firstText_succ {k r} (at_ : rs k = some r) :
    firstText rs (k + 1) = firstText rs k ++ r.2.1 := by
  simp [firstText, List.range_succ, at_]

/-- The text of the first record. -/
lemma firstText_one {r} (at_ : rs 0 = some r) : firstText rs 1 = r.2.1 := firstText_succ at_

/-- More records begin with the text of fewer. -/
lemma firstText_mono (rs : Nat → Option (γ × Record)) {j k} (le : j ≤ k) :
    firstText rs j <+: firstText rs k := by
  obtain ⟨d, rfl⟩ := Nat.exists_eq_add_of_le le
  rw [firstText, firstText, List.range_add, List.filterMap_append, List.flatten_append]
  exact List.prefix_append _ _

/-- Records that are not too many for a read are not too many for a larger one. -/
lemma Wanted.mono {want want' k} (wanted : Wanted rs want k) (le : want ≤ want') :
    Wanted rs want' k :=
  ⟨wanted.1, wanted.2.1, Nat.lt_of_lt_of_le wanted.2.2 le⟩

/-- The fill loop adds a record only while those before it do not suffice. -/
lemma fill_restarting {n i r want} (pos size : Nat) (re : Restarting ops rs) (at_ : rs i = some r)
    (enough : want ≤ (firstText rs (i + 1)).length + n) (here : (firstText rs i).length < want) :
    ∃ k, fill ops size want n r.1 pos (firstText rs (i + 1)) = some (firstText rs k, pos) ∧
      Wanted rs want k := by
  have wanted : Wanted rs want (i + 1) := ⟨Nat.succ_pos i, at_ ▸ Option.some_ne_none r, here⟩
  induction n generalizing i r with
  | zero =>
    refine ⟨i + 1, ?_, wanted⟩
    rw [fill, if_pos (show want ≤ (firstText rs (i + 1)).length from enough)]
  | succ n ih =>
    rw [fill]
    split
    case isTrue => exact ⟨i + 1, rfl, wanted⟩
    case isFalse more =>
      rw [re.next at_ pos]
      cases at' : rs (i + 1) with
      | none => exact ⟨i + 1, rfl, wanted⟩
      | some r' =>
        simp only [Option.map_some, Option.bind_eq_bind, Option.bind_some, re.render at']
        split
        case isTrue => exact ⟨i + 1, rfl, wanted⟩
        case isFalse =>
          have pos_ := List.length_pos_of_ne_nil r'.2.2
          have lt := Nat.lt_of_not_le more
          rw [← firstText_succ at']
          refine ih at' ?_ lt ⟨Nat.succ_pos _, at' ▸ Option.some_ne_none r', lt⟩
          rw [firstText_succ at', List.length_append]
          omega

/-- A batch prints first records again, whatever the position is. -/
lemma batch_restarted {out want} (max : Nat) (re : Restarting ops rs) (pos : 0 < want)
    (le : want ≤ max) (del : Restarted rs max m out) (done : m.pending = []) :
    ∃ m' t, batch ops m want = some (m', t) ∧ Restarted rs max m' (out ++ t) := by
  cases first : rs 0 with
  | none =>
    refine ⟨m, [], ?_, ?_⟩
    · rw [batch, re.start, first]
      rfl
    · rwa [List.append_nil]
  | some r =>
    obtain ⟨ks, txt, wanted⟩ := del
    rw [done, List.append_nil] at txt
    obtain ⟨k, st, wanted'⟩ :=
      fill_restarting m.index (grow r.2.1.length r.2.1.length m.size) re first
      (Nat.le_add_left want _) pos
    rw [firstText_one first] at st
    rw [batch, re.start, first]
    simp only [Option.map_some, Option.bind_eq_bind, Option.bind_some, re.render first, st]
    refine ⟨_, _, rfl, ks ++ [k], ?_, ?_⟩
    · rw [List.append_assoc, List.take_append_drop, txt]
      simp
    · exact List.forall_mem_append.mpr ⟨wanted, List.forall_mem_singleton.mpr (wanted'.mono le)⟩

/-- So does a read, once what was left over has been handed out. -/
lemma seqRead_restarted {out n} (max : Nat) (re : Restarting ops rs) (pos : 0 < n) (le : n ≤ max)
    (del : Restarted rs max m out) :
    ∃ m' t, seqRead ops m n = some (m', t) ∧ Restarted rs max m' (out ++ t) := by
  rw [seqRead]
  split
  case isTrue done => exact batch_restarted max re pos le del done
  case isFalse more =>
    obtain ⟨ks, txt, wanted⟩ := del
    split
    case isTrue lt =>
      refine ⟨_, _, rfl, ks, ?_, wanted⟩
      rw [List.append_assoc, List.take_append_drop]
      exact txt
    case isFalse ge =>
      have del' :
          Restarted rs max { m with pending := [], index := m.index + 1 } (out ++ m.pending) :=
        ⟨ks, by rw [List.append_nil]; exact txt, wanted⟩
      split
      case isTrue => exact ⟨_, _, rfl, del'⟩
      case isFalse neq =>
        obtain ⟨m', t, st, del''⟩ := batch_restarted max re (Nat.sub_pos_of_lt (by omega))
          ((Nat.sub_le n m.pending.length).trans le) del' rfl
        refine ⟨m', m.pending ++ t, ?_, ?_⟩
        · rw [st]
          rfl
        · rw [← List.append_assoc]
          exact del''

/-- A restarting iterator prints its first records again and again, as many of them as a read
    wants. -/
theorem Restarting.reads {size ns} (max : Nat) (re : Restarting ops rs)
    (pos : ∀ n ∈ ns, 0 < n ∧ n ≤ max) :
    ∃ m out, reads ops (opened size) ns = some (m, out) ∧ Restarted rs max m out := by
  suffices all : ∀ {m out}, Restarted rs max m out →
      ∃ m' ts, SeqFile.reads ops m ns = some (m', ts) ∧ Restarted rs max m' (out ++ ts) by
    have fresh : Restarted rs max (opened size) [] :=
      ⟨[], rfl, fun _ mem => absurd mem List.not_mem_nil⟩
    exact all fresh
  induction ns with
  | nil =>
    intro m out del
    refine ⟨m, [], rfl, ?_⟩
    rw [List.append_nil]
    exact del
  | cons n ns ih =>
    intro m out del
    obtain ⟨here, rest⟩ := List.forall_mem_cons.mp pos
    obtain ⟨m1, t, st, del1⟩ := seqRead_restarted max re here.1 here.2 del
    obtain ⟨m2, ts, st', del2⟩ := ih rest del1
    refine ⟨m2, t ++ ts, ?_, ?_⟩
    · simp only [SeqFile.reads, st, Option.bind_eq_bind, Option.bind_some, st']
    · rw [← List.append_assoc]
      exact del2

/-- Unless there is no record, the next read returns something. -/
lemma Restarting.seqRead_ne_nil {max out n} (re : Restarting ops rs) (some_ : rs 0 ≠ none)
    (del : Restarted rs max m out) (pos : 0 < n) :
    ∃ m' t, seqRead ops m n = some (m', t) ∧ t ≠ [] := by
  have live : ∀ p q pos, ops.start p = some (q, pos) → q ≠ none := by
    intro p q pos st
    cases (re.start p).symm.trans st
    exact mt Option.map_eq_none_iff.mp some_
  obtain ⟨ks, txt, wanted⟩ := del
  have del' : Restarted rs (Nat.max max n) m out :=
    ⟨ks, txt, fun k mem => (wanted k mem).mono (Nat.le_max_left ..)⟩
  obtain ⟨m', t, st, -⟩ := seqRead_restarted (Nat.max max n) re pos (Nat.le_max_right ..) del'
  exact ⟨m', t, st, SeqFile.seqRead_ne_nil live pos st⟩

end

end SeqFile

end KernelModules
