import KernelModules.Packet.Rep

/-!
# Packet accounting

The running module of `network_procfs.c` sees packets (`hook_func`) and writes to `/proc/net_proc`
(`my_write`), in any order; each holds `net_lock` and is one step. The history alone says what a
dump of the list shows: one node for every source that has sent a packet since load, in order of
first appearance, with the packets and bytes it has sent since the most recent clear
(`accounting_refines_history`).

The proof goes through the ledger of `Rep`: every step is a posting (`step_rep`), a ledger is a
function of its postings (`Posting.foldl_apply`), and the source texts are faithful keys
(`pI4_injective`).
-/

namespace KernelModules.Packet

/-- What happens to the running module. A packet comes with the address and the old contents of the
    node that `kmem_cache_alloc` returns, should the packet need one. -/
inductive Event where
  | packet (skb : SkBuff) (l : Loc) (junk : Node)
  | clear (len : BitVec 64)

/-- One critical section. -/
def step (s : Net) : Event → Option Net
  | .packet skb l junk => (hookFunc s (some skb) (some (l, junk))).map Prod.fst
  | .clear len => (myWrite s len).map Prod.fst

/-- `kmem_cache_alloc` succeeds: it returns a free address. -/
def AllocOk (s : Net) : Event → Prop
  | .packet _ l _ => s.heap.get l = none
  | .clear _ => True

namespace Event

/-- The source of a packet. -/
def saddr? : Event → Option (BitVec 32)
  | packet skb _ _ => some skb.saddr
  | clear _ => none

/-- The `data_len` of a packet from `a`. -/
def dataLen? (a : BitVec 32) : Event → Option (BitVec 32)
  | packet skb _ _ => if skb.saddr = a then some skb.dataLen else none
  | clear _ => none

/-- Whether an event is a packet. -/
def isPacket : Event → Bool
  | packet _ _ _ => true
  | clear _ => false

/-- An event as an entry of the ledger's history. -/
def posting : Event → Posting (List Char) Amount
  | packet skb _ _ => .post (pI4 skb.saddr) (1, skb.dataLen.signExtend 64)
  | clear _ => .reset

end Event

/-- The sources of a history, in order of first appearance. -/
def sources (evs : List Event) : List (BitVec 32) := (evs.filterMap Event.saddr?).eraseDups

/-- The `data_len` of each packet from `a` since the most recent clear. -/
def packetsFrom (a : BitVec 32) (evs : List Event) : List (BitVec 32) :=
  (evs.rtakeWhile Event.isPacket).filterMap (Event.dataLen? a)

/-- What one node shows: its text, its packet count and its byte sum. -/
def Node.shown (n : Node) : List Char × Int × Int := (n.addr, n.count.toInt, n.dataUsed.toInt)

/-- Every step does to the ledger what its posting says. -/
lemma step_rep {s e r cs} (rep : Rep s r cs) (ok : AllocOk s e) :
    ∃ s' r' cs', step s e = some s' ∧ Rep s' r' cs' ∧
      entries cs' = Posting.apply (entries cs) e.posting := by
  cases e with
  | packet skb l junk =>
    obtain ⟨s', r', cs', st, rep', ents⟩ :=
      rep.addToListNetwork junk skb.dataLen key_ne_nil key_length fun _ => ok
    refine ⟨s', r', cs', ?_, rep', ?_⟩
    · rw [step, hookFunc_eq, st]
      rfl
    · rw [ents, Event.posting, key_eq]
  | clear len =>
    obtain ⟨s', r', cs', st, rep', ents⟩ := rep.myWrite len
    refine ⟨s', r', cs', ?_, rep', ents⟩
    rw [step, st]
    rfl

/-- The keys of the ledger are the texts of the sources. -/
lemma keys_posting {evs : List Event} :
    Posting.keys (evs.map Event.posting) = (sources evs).map pI4 := by
  rw [Posting.keys, sources, ← Posting.eraseDups_map pI4_injective, List.filterMap_map,
    List.map_filterMap]
  congr 2
  funext e
  cases e with
  | packet skb l junk => rfl
  | clear len => rfl

/-- The amounts add up in the widths of the two counters. -/
lemma sum_amounts {ds : List (BitVec 32)} :
    (ds.map fun d => ((1 : BitVec 32), d.signExtend 64)).sum =
      (BitVec.ofNat 32 ds.length, BitVec.ofInt 64 (ds.map BitVec.toInt).sum) := by
  induction ds with
  | nil => rfl
  | cons d ds ih =>
    rw [List.map_cons, List.sum_cons, ih, List.map_cons, List.sum_cons, List.length_cons,
      BitVec.ofInt_add, BitVec.ofNat_add, add_comm (BitVec.ofNat 32 ds.length)]
    rfl

/-- The balance of a source counts its packets since the last clear. -/
lemma balance_posting {a} {evs : List Event} :
    Posting.balance (pI4 a) (evs.map Event.posting) =
      (BitVec.ofNat 32 (packetsFrom a evs).length,
        BitVec.ofInt 64 ((packetsFrom a evs).map BitVec.toInt).sum) := by
  have since : Posting.sinceReset (evs.map Event.posting) =
      (evs.rtakeWhile Event.isPacket).map Event.posting := by
    rw [Posting.sinceReset, List.rtakeWhile, List.rtakeWhile, ← List.map_reverse,
      List.takeWhile_map, List.map_reverse]
    congr 3
    funext e
    cases e with
    | packet skb l junk => rfl
    | clear len => rfl
  have amounts : Posting.amount? (pI4 a) ∘ Event.posting =
      fun e => (Event.dataLen? a e).map fun d => ((1 : BitVec 32), d.signExtend 64) := by
    funext e
    cases e with
    | packet skb l junk =>
      by_cases e : skb.saddr = a
      · simp [Event.posting, Posting.amount?, Event.dataLen?, e]
      · have ne : pI4 skb.saddr ≠ pI4 a := fun h => e (pI4_injective h)
        simp [Event.posting, Posting.amount?, Event.dataLen?, e, ne]
    | clear len => rfl
  rw [Posting.balance, since, List.filterMap_map, amounts, ← List.map_filterMap]
  exact sum_amounts

/-- What a node shows of the packets counted in it. -/
def counters (ds : List (BitVec 32)) : Int × Int :=
  ((ds.length : Int).bmod (2 ^ 32), (ds.map BitVec.toInt).sum.bmod (2 ^ 64))

/-- From an empty list on, the history says what the ledger of the list is. -/
lemma rep_of_history {s r evs} (rep : Rep s r []) (ad : Admits AllocOk step s evs) :
    ∃ s' r' cs, run step s evs = some s' ∧ Rep s' r' cs ∧
      entries cs = (sources evs).map fun a =>
        (pI4 a, Posting.balance (pI4 a) (evs.map Event.posting)) := by
  -- the ledger of the list is the ledger of the postings so far
  let P : List Event → Net → Prop := fun evs s =>
    ∃ r cs, Rep s r cs ∧ entries cs = (evs.map Event.posting).foldl Posting.apply []
  have next : ∀ {es s e}, P es s → AllocOk s e → ∃ s', step s e = some s' ∧ P (es ++ [e]) s' := by
    rintro es s e ⟨r, cs, rep, ents⟩ ok
    obtain ⟨s', r', cs', st, rep', ents'⟩ := step_rep rep ok
    refine ⟨s', st, r', cs', rep', ?_⟩
    rw [ents', ents, List.map_append, List.foldl_append]
    rfl
  obtain ⟨s', rn, r', cs, rep', ents⟩ := run_total (P := P) next [] ⟨r, [], rep, rfl⟩ ad
  rw [List.nil_append, Posting.foldl_apply, keys_posting, List.map_map] at ents
  exact ⟨s', r', cs, rn, rep', ents⟩

/-- From an empty list on, the search finds a node for the sources of the history. -/
lemma search_of_history {s r evs s'} (rep : Rep s r []) (ad : Admits AllocOk step s evs)
    (go : run step s evs = some s') (a : BitVec 32) :
    ∃ found, searchLoop s'.heap (key a) (s'.heap.size + 1) s'.root = some found ∧
      (found.isSome ↔ a ∈ sources evs) := by
  obtain ⟨s1, r', cs, go', rep', ents⟩ := rep_of_history rep ad
  cases go.symm.trans go'
  have texts : cs.map (·.2.addr) = (sources evs).map pI4 := by
    have e := congrArg (List.map Prod.fst) ents
    rw [entries, List.map_map, List.map_map] at e
    exact e
  rw [key_eq]
  by_cases mem : a ∈ sources evs
  · have known : pI4 a ∈ cs.map (·.2.addr) := texts ▸ List.mem_map_of_mem mem
    obtain ⟨c, mc, e⟩ := List.mem_map.mp known
    exact ⟨some c.1, rep'.search (List.mem_cons_of_mem _ mc) e, iff_of_true rfl mem⟩
  · have out : pI4 a ∉ cs.map (·.2.addr) := by
      rw [texts, List.mem_map_of_injective pI4_injective]
      exact mem
    exact ⟨none, rep'.search_none (rep'.not_mem_cons pI4_ne_nil out), by simpa using mem⟩

/-- From an empty list on, the history says what a dump shows. -/
lemma dump_of_history {s r evs} (rep : Rep s r []) (ad : Admits AllocOk step s evs) :
    ∃ s' vs, run step s evs = some s' ∧ dump s' = some vs ∧
      vs.map Node.shown = (sources evs).map fun a => (pI4 a, counters (packetsFrom a evs)) := by
  obtain ⟨s', r', cs, rn, rep', ents⟩ := rep_of_history rep ad
  refine ⟨s', cs.map Prod.snd, rn, rep'.dump, ?_⟩
  have shown : (cs.map Prod.snd).map Node.shown =
      (entries cs).map fun e => (e.1, e.2.1.toInt, e.2.2.toInt) := by
    rw [List.map_map, entries, List.map_map]
    rfl
  rw [shown, ents, List.map_map]
  apply List.map_congr_left
  intro a _
  rw [Function.comp_apply, balance_posting, BitVec.toInt_ofInt]
  rw [show (BitVec.ofNat 32 (packetsFrom a evs).length).toInt = _ from BitVec.toInt_ofNat _]
  rfl

/-- A dump of the list is a function of the history since load. -/
theorem accounting_refines_history (l : Loc) (junk : Node) :
    ∃ m, run InitOp.exec .boot (initPacket l junk true) = some m ∧
      ∀ evs, Admits AllocOk step m.net evs →
        ∃ s vs, run step m.net evs = some s ∧ dump s = some vs ∧
          vs.map Node.shown = (sources evs).map fun a =>
            (pI4 a, ((packetsFrom a evs).length : Int).bmod (2 ^ 32),
              ((packetsFrom a evs).map BitVec.toInt).sum.bmod (2 ^ 64)) := by
  obtain ⟨m, r, init, rep⟩ := Rep.initPacket l junk true
  exact ⟨m, init, fun evs ad => dump_of_history rep ad⟩

/-- Two packets of 10.0.0.1, a clear, then one packet of 10.0.0.2 with the longest `data_len` and
    one more of 10.0.0.1. -/
def mixedTraffic : List Event :=
  [.packet ⟨0x0A000001, 100⟩ 1 ⟨[], 7, 7, none⟩, .packet ⟨0x0A000001, 50⟩ 2 ⟨[], 0, 0, none⟩,
    .clear 1, .packet ⟨0x0A000002, 0xFFFFFFFF⟩ 3 ⟨[], 0, 0, some 1⟩,
    .packet ⟨0x0A000001, 8⟩ 4 ⟨[], 0, 0, none⟩]

/-- After a clear both sources show one packet; the longest `data_len` counts as -1. -/
theorem accounting_of_mixedTraffic :
    ∃ m, run InitOp.exec .boot (initPacket 0 ⟨['x'], 3, 3, some 9⟩ true) = some m ∧
      Admits AllocOk step m.net mixedTraffic ∧
      ∃ s vs, run step m.net mixedTraffic = some s ∧ dump s = some vs ∧
        vs.map Node.shown =
          [("10.0.0.1".toList, 1, 8), ("10.0.0.2".toList, 1, -1)] := by
  obtain ⟨m, init, acc⟩ := accounting_refines_history 0 ⟨['x'], 3, 3, some 9⟩
  have ad : Admits AllocOk step m.net mixedTraffic := by
    cases init
    refine ⟨rfl, fun s1 st1 => ?_⟩
    cases st1
    refine ⟨rfl, fun s2 st2 => ?_⟩
    cases st2
    refine ⟨trivial, fun s3 st3 => ?_⟩
    cases st3
    refine ⟨rfl, fun s4 st4 => ?_⟩
    cases st4
    exact ⟨rfl, fun _ _ => trivial⟩
  obtain ⟨s, vs, rn, dp, shown⟩ := acc mixedTraffic ad
  refine ⟨m, init, ad, s, vs, rn, dp, ?_⟩
  rw [shown]
  decide +kernel

end KernelModules.Packet
