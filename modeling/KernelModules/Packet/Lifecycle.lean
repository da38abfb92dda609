import KernelModules.Packet.Accounting

/-!
# Loading and unloading the packet module

The life of the module of `network_procfs.c`: the statements of `init_packet` and of
`cleanup_packet` run one at a time, packets reach `hook_func` whenever the hook is registered, and
the list can be cleared while `/proc/net_proc` exists. `free(root)` is a recursion; it is kept as
its pointer argument and the nodes of the calls that have not returned (`freeing`), and `run_free`
says that its steps do what `free` does as a whole.

`Contract` is what the module owes at every step: while the hook is registered the nodes that `root`
leads to and the cache are allocated, and once `init_packet` has failed or `cleanup_packet` has
finished nothing is left. Two statements break it, and nothing else does (`contract_iff`):

* `proc_create_data` fails: `init_packet` returns `-ENOMEM` with the hook registered and the root
  allocated.
* `cleanup_packet` frees a node: it calls `nf_unregister_hook` last.
-/

namespace KernelModules.Packet

/-- How far the module is. -/
inductive Phase where
  | loading (pc : Nat)                                 -- in `init_packet`, before statement `pc`
  | loaded                                             -- `init_packet` returned 0
  | failed                                             -- `init_packet` returned `-ENOMEM`
  | freeing (node : Option Loc) (frames : List Loc)    -- in `free(node)`, called from `frames`
  | unregistering                                      -- before `nf_unregister_hook`
  | unloaded                                           -- `cleanup_packet` returned
  deriving DecidableEq

/-- The module and how far it is. -/
structure Life where
  mod : Module
  phase : Phase

/-- The module before its first statement. -/
def Life.boot : Life := ⟨.boot, .loading 0⟩

/-- What can happen: a statement of `init_packet`, a packet or a clear, a statement of
    `cleanup_packet`. -/
inductive LifeEvent where
  | init (op : InitOp)
  | net (e : Event)
  | removeProcEntry       -- remove_proc_entry("net_proc", NULL), then the call free(root)
  | freeNext              -- a call free(node) goes on to free(node->next)
  | kmemCacheFree         -- kmem_cache_free(packet_node_cache, node) in the call that returned last
  | kmemCacheDestroy      -- kmem_cache_destroy(packet_node_cache)
  | nfUnregisterHook      -- nf_unregister_hook(&nfho)

/-- Where a statement of `init_packet` leads. -/
def InitOp.leads : InitOp → Phase
  | procCreate true => .loaded
  | procCreate false => .failed
  | op => .loading (op.index + 1)

/-- Whether the module can see a packet or a clear. -/
def Module.sees (m : Module) : Event → Bool
  | .packet _ _ _ => m.hooked
  | .clear _ => m.proc

/-- One step in the life of the module. -/
def lifeStep (m : Life) : LifeEvent → Option Life
  | .init op =>
    if m.phase = .loading op.index then (op.exec m.mod).map fun mod => ⟨mod, op.leads⟩ else none
  | .net e =>
    if m.mod.sees e then (step m.mod.net e).map fun net => { m with mod := { m.mod with net } }
    else none
  | .removeProcEntry =>
    if m.phase = .loaded then some ⟨{ m.mod with proc := false }, .freeing m.mod.net.root []⟩
    else none
  | .freeNext =>
    match m.phase with
    | .freeing (some l) frames => do
      let v ← m.mod.net.heap.get l
      some { m with phase := .freeing v.next (l :: frames) }
    | _ => none
  | .kmemCacheFree =>
    match m.phase with
    | .freeing none (l :: frames) => do
      let _ ← m.mod.net.heap.get l
      let net := { m.mod.net with heap := m.mod.net.heap.free l }
      some ⟨{ m.mod with net }, .freeing none frames⟩
    | _ => none
  | .kmemCacheDestroy =>
    if m.phase = .freeing none [] then some ⟨{ m.mod with cache := false }, .unregistering⟩
    else none
  | .nfUnregisterHook =>
    if m.phase = .unregistering then some ⟨{ m.mod with hooked := false }, .unloaded⟩ else none

/-- The calls of `free` step by step do what the recursion does as a whole: they go down to the end
    of the list, and each frees its node on the way back. -/
theorem run_free {mod : Module} {n p s' freed frames} (go : free n mod.net p = some (s', freed)) :
    run lifeStep ⟨mod, .freeing p frames⟩ (List.replicate freed.length .freeNext ++
        List.replicate freed.length .kmemCacheFree) =
      some ⟨{ mod with net := s' }, .freeing none frames⟩ := by
  induction n generalizing p frames s' freed with
  | zero => cases go
  | succ n ih =>
    cases p with
    | none =>
      cases go
      rfl
    | some l =>
      obtain ⟨v, load, go1⟩ := Option.bind_eq_some_iff.mp go
      obtain ⟨⟨s1, freed1⟩, nested, go2⟩ := Option.bind_eq_some_iff.mp go1
      obtain ⟨s2, back, e⟩ := Option.bind_eq_some_iff.mp go2
      obtain ⟨w, live, e2⟩ := Option.bind_eq_some_iff.mp back
      cases e
      cases e2
      have down : lifeStep ⟨mod, .freeing (some l) frames⟩ .freeNext =
          some ⟨mod, .freeing v.next (l :: frames)⟩ := Option.bind_eq_some_iff.mpr ⟨v, load, rfl⟩
      have up : lifeStep ⟨{ mod with net := s1 }, .freeing none (l :: frames)⟩ .kmemCacheFree =
          some ⟨{ mod with net := { s1 with heap := s1.heap.free l } }, .freeing none frames⟩ :=
        Option.bind_eq_some_iff.mpr ⟨w, live, rfl⟩
      rw [List.length_append, List.length_singleton, List.replicate_succ, List.replicate_succ',
        List.cons_append, ← List.append_assoc, run_cons, down, Option.bind_some]
      exact run_snoc.mpr ⟨_, ih nested, up⟩

/-- What the module owes at every step. -/
structure Contract (m : Life) : Prop where
  live : m.mod.hooked = true → m.mod.cache = true ∧
    ∀ l, Reaches Node.next m.mod.net.heap m.mod.net.root l → m.mod.net.heap.get l ≠ none
  clean : m.phase = .failed ∨ m.phase = .unloaded →
    m.mod.hooked = false ∧ (∀ l, m.mod.net.heap.get l = none) ∧ m.mod.cache = false

/-- The events other than a failing `proc_create_data` and a `kmem_cache_free` of
    `cleanup_packet`. -/
def Harmless : LifeEvent → Prop
  | .init (.procCreate false) => False
  | .kmemCacheFree => False
  | _ => True

/-- The module is up: cache, hook and a well-formed list. -/
def Up (m : Module) : Prop := m.cache = true ∧ m.hooked = true ∧ ∃ r cs, Rep m.net r cs

/-- What holds after harmless events, phase by phase. -/
def LifeInv (m : Life) : Prop :=
  match m.phase with
  | .loading pc => pc ≤ 7 ∧ InitInv m.mod pc ∨ pc = 8 ∧ Up m.mod
  | .loaded => Up m.mod
  | .freeing node frames => Up m.mod ∧ (node = none → frames ≠ [])
  | .failed => False
  | .unregistering => False
  | .unloaded => False

/-- Packets and clears keep the list well-formed. -/
lemma Rep.step {s s' : Net} {r cs e} (rep : Rep s r cs) (st : Packet.step s e = some s') :
    ∃ r' cs', Rep s' r' cs' := by
  cases e with
  | packet skb l junk =>
    obtain ⟨⟨s1, verdict⟩, st1, rfl⟩ := Option.map_eq_some_iff.mp st
    obtain ⟨s2, st2, e⟩ := Option.map_eq_some_iff.mp (hookFunc_eq.symm.trans st1)
    cases e
    obtain ⟨s3, r', cs', st3, rep', -⟩ := rep.addToListNetwork junk skb.dataLen key_ne_nil
      key_length (rep.free_of_addToListNetwork key_ne_nil st2)
    cases st2.symm.trans st3
    exact ⟨r', cs', rep'⟩
  | clear len =>
    obtain ⟨⟨s1, ret⟩, st1, rfl⟩ := Option.map_eq_some_iff.mp st
    obtain ⟨s2, r', cs', st2, rep', -⟩ := rep.myWrite len
    cases st1.symm.trans st2
    exact ⟨r', cs', rep'⟩

/-- So they keep the module up. -/
lemma Up.step {m : Module} {e net} (up : Up m) (st : Packet.step m.net e = some net) :
    Up { m with net } := by
  obtain ⟨ca, ho, r, cs, rep⟩ := up
  obtain ⟨r', cs', rep'⟩ := rep.step st
  exact ⟨ca, ho, r', cs', rep'⟩

/-- While the module is up, what a reader reaches is live. -/
lemma Up.live {m : Module} {l} (up : Up m) (re : Reaches Node.next m.net.heap m.net.root l) :
    m.net.heap.get l ≠ none := by
  obtain ⟨_, _, r, cs, rep⟩ := up
  obtain ⟨c, mem, rfl⟩ := List.mem_map.mp (rep.chain.mem_of_reaches re)
  rw [rep.chain.get mem]
  exact nofun

/-- Phase by phase, the invariant gives what the module owes. -/
lemma LifeInv.contract {m} (inv : LifeInv m) : Contract m := by
  obtain ⟨mod, phase⟩ := m
  cases phase with
  | loading pc =>
    rcases inv with ⟨_, inv⟩ | ⟨_, up⟩
    · refine ⟨fun ho => ?_, by simp⟩
      rw [inv.unseen.1] at ho
      cases ho
    · exact ⟨fun _ => ⟨up.1, fun _ => up.live⟩, by simp⟩
  | loaded => exact ⟨fun _ => ⟨inv.1, fun _ => inv.live⟩, by simp⟩
  | freeing node frames => exact ⟨fun _ => ⟨inv.1.1, fun _ => inv.1.live⟩, by simp⟩
  | failed => exact inv.elim
  | unregistering => exact inv.elim
  | unloaded => exact inv.elim

/-- A statement of `init_packet` leads to the next phase. -/
lemma LifeInv.init {mod mod' : Module} {op : InitOp} (inv : LifeInv ⟨mod, .loading op.index⟩)
    (ok : Harmless (.init op)) (st : op.exec mod = some mod') : LifeInv ⟨mod', op.leads⟩ := by
  have early : op.index < 7 → op.leads = .loading (op.index + 1) → LifeInv ⟨mod', op.leads⟩ := by
    intro lt leads
    rcases inv with ⟨_, inv⟩ | ⟨e, _⟩
    · obtain ⟨m, st', inv'⟩ := op.exec_inv inv lt
      cases st.symm.trans st'
      rw [leads]
      exact .inl ⟨lt, inv'⟩
    · omega
  cases op with
  | cacheCreate => exact early (by decide) rfl
  | rootAlloc l junk => exact early (by simp [InitOp.index]) rfl
  | rootCount => exact early (by decide) rfl
  | rootDataUsed => exact early (by decide) rfl
  | rootNext => exact early (by decide) rfl
  | rootAddr => exact early (by decide) rfl
  | tailRoot => exact early (by decide) rfl
  | registerHook =>
    cases st
    rcases inv with ⟨_, inv⟩ | ⟨e, _⟩
    · obtain ⟨r, rep⟩ := inv.rep
      exact .inr ⟨rfl, inv.1, rfl, r, [], rep⟩
    · cases e
  | procCreate b =>
    cases st
    cases b with
    | false => exact ok.elim
    | true =>
      rcases inv with ⟨le, _⟩ | ⟨_, up⟩
      · exact absurd le (by decide)
      · exact up

/-- A packet or a clear that the module sees keeps its phase. -/
lemma LifeInv.net {m : Life} {e net} (inv : LifeInv m) (sees : m.mod.sees e = true)
    (st : step m.mod.net e = some net) : LifeInv { m with mod := { m.mod with net } } := by
  obtain ⟨mod, phase⟩ := m
  cases phase with
  | loading pc =>
    rcases inv with ⟨_, inv⟩ | ⟨e8, up⟩
    · obtain ⟨ho, pr⟩ := inv.unseen
      cases e with
      | packet skb l junk => exact absurd (ho.symm.trans sees) (by decide)
      | clear len => exact absurd (pr.symm.trans sees) (by decide)
    · exact .inr ⟨e8, up.step st⟩
  | loaded => exact Up.step inv st
  | freeing node frames => exact ⟨inv.1.step st, inv.2⟩
  | failed => exact inv.elim
  | unregistering => exact inv.elim
  | unloaded => exact inv.elim

/-- Every harmless event keeps the invariant. -/
lemma LifeInv.step {m m' e} (inv : LifeInv m) (ok : Harmless e) (st : lifeStep m e = some m') :
    LifeInv m' := by
  cases e with
  | init op =>
    rw [lifeStep] at st
    split at st
    case isTrue ph =>
      obtain ⟨mod', st1, rfl⟩ := Option.map_eq_some_iff.mp st
      obtain ⟨mod, phase⟩ := m
      cases ph
      exact inv.init ok st1
    case isFalse => cases st
  | net e =>
    rw [lifeStep] at st
    split at st
    case isTrue sees =>
      obtain ⟨net, st1, rfl⟩ := Option.map_eq_some_iff.mp st
      exact inv.net sees st1
    case isFalse => cases st
  | removeProcEntry =>
    rw [lifeStep] at st
    split at st
    case isTrue ph =>
      cases st
      obtain ⟨mod, phase⟩ := m
      cases ph
      refine ⟨inv, fun null => ?_⟩
      -- the root has been allocated
      obtain ⟨_, _, r, cs, rep⟩ := inv
      have head := rep.chain.head
      rw [show mod.net.root = none from null] at head
      cases head
    case isFalse => cases st
  | freeNext =>
    obtain ⟨mod, phase⟩ := m
    cases phase with
    | freeing node frames =>
      cases node with
      | none => cases st
      | some l =>
        obtain ⟨v, _, e⟩ := Option.bind_eq_some_iff.mp st
        cases e
        exact ⟨inv.1, fun _ => List.cons_ne_nil _ _⟩
    | _ => cases st
  | kmemCacheFree => exact ok.elim
  | kmemCacheDestroy =>
    rw [lifeStep] at st
    split at st
    case isTrue ph =>
      obtain ⟨mod, phase⟩ := m
      cases ph
      exact absurd rfl (inv.2 rfl)
    case isFalse => cases st
  | nfUnregisterHook =>
    rw [lifeStep] at st
    split at st
    case isTrue ph =>
      obtain ⟨mod, phase⟩ := m
      cases ph
      exact inv.elim
    case isFalse => cases st

/-- Each of the other events breaks the contract at once. -/
lemma LifeInv.broken {m m' e} (inv : LifeInv m) (bad : ¬ Harmless e)
    (st : lifeStep m e = some m') : ¬ Contract m' := by
  intro con
  obtain ⟨mod, phase⟩ := m
  cases e with
  | init op =>
    cases op with
    | procCreate b =>
      cases b with
      | true => exact bad trivial
      | false =>
        rw [lifeStep] at st
        split at st
        case isTrue ph =>
          cases ph
          cases st
          rcases inv with ⟨le, _⟩ | ⟨_, up⟩
          · exact absurd le (by decide)
          · -- the hook is still registered
            have off := (con.clean (.inl rfl)).1
            exact absurd (up.2.1.symm.trans off) (by decide)
        case isFalse => cases st
    | _ => exact bad trivial
  | kmemCacheFree =>
    cases phase with
    | freeing node frames =>
      cases node with
      | some l => cases st
      | none =>
        cases frames with
        | nil => cases st
        | cons l frames =>
          obtain ⟨v, g, e⟩ := Option.bind_eq_some_iff.mp st
          cases e
          obtain ⟨⟨_, ho, r, cs, rep⟩, -⟩ := inv
          -- the node is in the list, so `root` still leads to it
          have mem := List.mem_map_of_mem (f := Prod.fst) (rep.all g)
          exact (con.live ho).2 l (rep.chain.reaches_free mem) Heap.get_free_self
    | _ => cases st
  | _ => exact bad trivial

/-- The contract holds along a run exactly when all its events are harmless. -/
theorem contract_iff {evs m} (r : run lifeStep .boot evs = some m) :
    (∀ pre, pre <+: evs → ∀ m', run lifeStep .boot pre = some m' → Contract m') ↔
      ∀ e ∈ evs, Harmless e := by
  have base : LifeInv .boot := .inl ⟨Nat.zero_le _, rfl⟩
  constructor
  · intro all
    rcases all_or_first (q := Harmless) evs with ok | ⟨pre, e, post, rfl, ok, bad⟩
    · exact ok
    · obtain ⟨m1, r1, r2⟩ := run_split r
      obtain ⟨m2, st, -⟩ := Option.bind_eq_some_iff.mp r2
      have inv := run_invariant LifeInv.step base ok r1
      have con := all (pre ++ [e]) ⟨post, by simp⟩ m2 (run_snoc.mpr ⟨m1, r1, st⟩)
      exact absurd con (inv.broken bad st)
  · rintro ok pre ⟨post, rfl⟩ m' r'
    have ok' : ∀ e ∈ pre, Harmless e := fun e mem => ok e (List.mem_append_left post mem)
    exact (run_invariant LifeInv.step base ok' r').contract

/-- A load with a packet in the middle, before `proc_create_data`. -/
def busyLoad (ok : Bool) : List LifeEvent :=
  ((initPacket 0 ⟨[], 0, 0, none⟩ ok).take 8).map .init ++
    [.net (.packet ⟨0x0A000001, 50⟩ 1 ⟨[], 0, 0, none⟩), .init (.procCreate ok)]

/-- A load that a packet interrupts keeps to what the module owes. -/
theorem contract_of_busyLoad :
    ∃ m, run lifeStep .boot (busyLoad true) = some m ∧
      ∀ pre, pre <+: busyLoad true → ∀ m', run lifeStep .boot pre = some m' → Contract m' := by
  refine ⟨_, rfl, (contract_iff rfl).mpr ?_⟩
  simp [busyLoad, initPacket, Harmless]

/-- A failed load leaves the hook registered; and an unload without any packet frees the root while
    the hook is registered. -/
theorem contract_broken :
    (∃ m, run lifeStep .boot (busyLoad false) = some m ∧ m.phase = .failed ∧
      m.mod.hooked = true ∧ ¬ Contract m) ∧
    ∃ m, run lifeStep .boot ((initPacket 0 ⟨[], 0, 0, none⟩ true).map .init ++
        [.removeProcEntry, .freeNext, .kmemCacheFree]) = some m ∧
      m.mod.hooked = true ∧ m.mod.net.root = some 0 ∧ m.mod.net.heap.get 0 = none ∧
      ¬ Contract m := by
  constructor
  · refine ⟨_, rfl, rfl, rfl, fun con => ?_⟩
    have off := (con.clean (.inl rfl)).1
    cases off
  · refine ⟨_, rfl, rfl, rfl, rfl, fun con => ?_⟩
    exact (con.live rfl).2 0 .here rfl

end KernelModules.Packet
