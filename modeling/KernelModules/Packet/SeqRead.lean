import KernelModules.Packet.Accounting
import KernelModules.Base.SeqFile

/-!
# Reading /proc/net_proc

The file operations of `network_procfs.c` read the list through `seq_read` with the iterator
`my_start`, `my_next`, `my_show` (C `swaps_op`, here `swapsOp`). `my_start` ignores the position it
is given and `my_next` does not advance it, so every batch begins again with the first source and
the file has no end. The position contract holds exactly for the empty list
(`positioned_iff_empty`). What reads deliver instead are batches that all begin with the first
source (`sources_repeat`).
-/

namespace KernelModules.Packet

open SeqFile

/-- A record has a text. -/
lemma Node.record_ne_nil (n : Node) : n.record ≠ [] := by
  intro nil
  have last := (List.append_eq_nil_iff.mp nil).2
  revert last
  decide

/-- The record of a node. -/
def Node.toRecord (n : Node) : Record := ⟨n.record, n.record_ne_nil⟩

/-- The iterator behind the file (C `swaps_op`). -/
def swapsOp (s : Net) : SeqOps Loc where
  start := myStart s
  next v pos := myNext s (some v) pos
  render v := (s.load (some v)).map Node.toRecord

/-- What is printed for a node is what `my_show` prints. -/
lemma swapsOp_render {s : Net} {v} :
    ((swapsOp s).render v).map Subtype.val = myShow s (some v) := by
  rw [myShow]
  show ((s.load (some v)).map Node.toRecord).map Subtype.val = _
  cases s.load (some v) with
  | none => rfl
  | some n => rfl

/-- The records of the cells of a list. -/
def records (cs : List (Loc × Node)) : List (Loc × Record) := cs.map fun c => (c.1, c.2.toRecord)

section
variable {s : Net} {r : Loc × Node} {cs : List (Loc × Node)}

/-- Without a source there is nothing to iterate, so the position does not matter. -/
lemma Rep.positioned_nil (rep : Rep s r []) : Positioned (swapsOp s) [] :=
  ⟨fun p => rep.myStart p, nofun, nofun⟩

/-- The position contract, and what it gives the reader: both hold exactly when no source has been
    recorded. -/
theorem positioned_iff_empty (rep : Rep s r cs) (size : Nat) :
    (ReadsOnce (swapsOp s) size (text (records cs)) ↔ cs = []) ∧
      (Positioned (swapsOp s) (records cs) ↔ cs = []) := by
  cases cs with
  | nil =>
    have ps := rep.positioned_nil
    exact ⟨⟨fun _ => rfl, fun _ => ps.readsOnce⟩, ⟨fun _ => rfl, fun _ => ps⟩⟩
  | cons c cs =>
    have live : ∀ p q pos, (swapsOp s).start p = some (q, pos) → q ≠ none := by
      intro p q pos st
      have st' := (rep.myStart p).symm.trans st
      cases st'
      exact nofun
    refine ⟨⟨fun once => absurd once (not_readsOnce live), nofun⟩, ⟨fun ps => ?_, nofun⟩⟩
    -- behind the last record `start` should answer null
    have st := ps.start (records (c :: cs)).length
    rw [List.getElem?_eq_none_iff.mpr (Nat.le_refl _)] at st
    exact absurd rfl (live _ _ _ st)

/-! ## What reads deliver -/

/-- `my_start` begins with the first source for every position. -/
lemma Rep.restarting (rep : Rep s r cs) : Restarting (swapsOp s) fun i => (records cs)[i]? := by
  have at_ : ∀ {i : Nat} {x : Loc × Record}, (records cs)[i]? = some x →
      ∃ v, cs[i]? = some (x.1, v) ∧ s.heap.get x.1 = some v ∧ x.2 = v.toRecord := by
    intro i x e
    rw [records, List.getElem?_map] at e
    obtain ⟨⟨l, v⟩, here, rfl⟩ := Option.map_eq_some_iff.mp e
    exact ⟨v, here, rep.chain.get (List.mem_cons_of_mem r (List.mem_of_getElem? here)), rfl⟩
  have cursors : ∀ i : Nat, (records cs)[i]?.map Prod.fst = cs[i]?.map Prod.fst := by
    intro i
    rw [records, List.getElem?_map, Option.map_map]
    rfl
  refine ⟨fun p => ?_, fun {i x} e p => ?_, fun {i x} e => ?_⟩
  · rw [cursors, ← List.head?_eq_getElem?]
    exact rep.myStart p
  · obtain ⟨v, e, get, -⟩ := at_ e
    obtain ⟨lt, here⟩ := List.getElem?_eq_some_iff.mp e
    have chain := rep.chain
    rw [← List.take_append_drop i cs, List.drop_eq_getElem_cons lt, here,
      ← List.cons_append] at chain
    rw [cursors, ← List.head?_drop, ← chain.next_eq]
    show (s.load (some x.1)).bind _ = _
    rw [Net.load_eq, get]
    rfl
  · obtain ⟨v, -, get, rec⟩ := at_ e
    show (s.heap.get x.1).map Node.toRecord = _
    rw [get, rec]
    rfl

/-- For every list, and for every sequence of reads: all of them go through, and unless the list is
    empty none returns 0. What they deliver are batches of records, each of which starts again with
    the first source and has no more records than it takes to reach the size of a read. -/
theorem sources_repeat {max ns} (size : Nat) (rep : Rep s r cs)
    (sizes : ∀ n ∈ ns, 0 < n ∧ n ≤ max) :
    ∃ m out, reads (swapsOp s) (opened size) ns = some (m, out) ∧
      Restarted (fun i => (records cs)[i]?) max m out ∧
      (cs ≠ [] → ∀ n, 0 < n → ∃ m' t, seqRead (swapsOp s) m n = some (m', t) ∧ t ≠ []) := by
  obtain ⟨m, out, go, del⟩ := rep.restarting.reads max sizes
  refine ⟨m, out, go, del, fun ne n pos => rep.restarting.seqRead_ne_nil ?_ del pos⟩
  show (records cs)[0]? ≠ none
  rw [Ne, List.getElem?_eq_none_iff, records, List.length_map]
  exact Nat.not_le_of_lt (List.length_pos_of_ne_nil ne)

end

/-- The node of a source 10.0.0.1 that has sent one packet of 50 bytes. -/
def oneNode : Node := ⟨"10.0.0.1".toList, 1, 50, none⟩

/-- The list after this packet. -/
def oneSource : Net :=
  ⟨⟨[(1, oneNode), (0, ⟨[], 0, 0, some 1⟩)], by decide⟩, some 0, some 1⟩

/-- The list of one source is represented. -/
lemma oneSource_rep : Rep oneSource (0, ⟨[], 0, 0, some 1⟩) [(1, oneNode)] := by
  refine ⟨.cons rfl (.cons rfl .nil), ⟨[_], _, rfl, rfl⟩, rfl, by decide, ?_⟩
  intro l v g
  have mem := Heap.mem_of_get g
  cases mem with
  | head => exact List.mem_cons_of_mem _ List.mem_cons_self
  | tail _ mem =>
    cases mem with
    | head => exact List.mem_cons_self
    | tail _ mem => cases mem

/-- A list of one source is not read once. -/
theorem positioned_oneSource :
    Rep oneSource (0, ⟨[], 0, 0, some 1⟩) [(1, oneNode)] ∧
      (ReadsOnce (swapsOp oneSource) 4096 (text (records [(1, oneNode)])) ↔ [(1, oneNode)] = []) :=
  ⟨oneSource_rep, (positioned_iff_empty oneSource_rep 4096).1⟩

/-- Reads of a list of one source go on without an end. -/
theorem sources_repeat_oneSource :
    ∃ m out, reads (swapsOp oneSource) (opened 4096) [64, 10] = some (m, out) ∧
      Restarted (fun i => (records [(1, oneNode)])[i]?) 64 m out ∧
      ∀ n, 0 < n → ∃ m' t, seqRead (swapsOp oneSource) m n = some (m', t) ∧ t ≠ [] := by
  have sizes : ∀ n ∈ [64, 10], 0 < n ∧ n ≤ 64 := by
    decide
  obtain ⟨m, out, go, del, more⟩ := sources_repeat 4096 oneSource_rep sizes
  exact ⟨m, out, go, del, more (List.cons_ne_nil _ _)⟩

/-- Loading the module and one packet lead to a list whose only record is read twice, so the reads
    do not deliver each record once. -/
theorem oneSource_read_twice :
    (∃ m, run InitOp.exec .boot (initPacket 0 ⟨[], 0, 0, none⟩ true) = some m ∧
      run step m.net [.packet ⟨0x0A000001, 50⟩ 1 ⟨[], 0, 0, none⟩] = some oneSource) ∧
    (reads (swapsOp oneSource) (opened 4096) [64, 64]).map Prod.snd =
      some ("10.0.0.1\t:\t1 Packets\t:\t0 KB\n10.0.0.1\t:\t1 Packets\t:\t0 KB\n".toList) ∧
    ¬ ReadsOnce (swapsOp oneSource) 4096 (text (records [(1, oneNode)])) := by
  refine ⟨⟨_, rfl, rfl⟩, by decide +kernel, ?_⟩
  apply not_readsOnce
  intro p q pos st
  cases st
  exact nofun

end KernelModules.Packet
