import KernelModules.Netfilter.Source
import KernelModules.Packet.Accounting
import KernelModules.Packet.Teardown

/-!
# What the netfilter modules do to a packet

The four modules that hook into the way of a packet, loaded and unloaded in any order. All of them
register with the priority `NF_IP_PRI_FIRST`, so that the hooks at one place stand in the order in
which their modules were loaded (`Stacked.hooks`).

* `packets_judged`: a packet is dropped exactly when it is an ICMP packet for this host and
  `packet_block_protocol.c` is loaded, and the log says so. No run reaches an invalid memory access.
* `network_procfs_counts`: `packet_block_protocol.c` and `network_procfs.c` hook the same place. The
  list of `network_procfs.c` counts the packets for this host since its load, apart from the ICMP
  packets that came while `packet_block_protocol.c` was loaded and stood in front of it.
-/

namespace KernelModules.Netfilter

open Packet (nfAccept Rep)

/-! ## The history -/

/-- The loaded modules after an event, in the order of their loads. -/
def track (ms : List Mod) : Event → List Mod
  | .load m _ _ => ms ++ [m]
  | .unload m => ms.erase m
  | .packet _ _ _ _ => ms
  | .clear _ => ms

/-- The loaded modules after some events. -/
def loaded (es : List Event) : List Mod := es.foldl track []

/-- The packets that `network_procfs.c` gets to see: those for this host, apart from ICMP packets
    when `packet_block_protocol.c` has been loaded before it. -/
def Counts (ms : List Mod) (route : Route) (skb : SkBuff) : Prop :=
  route = .localIn ∧ .networkProcfs ∈ ms ∧
    (skb.protocol = 1 → .packetBlockProtocol ∉ ms.takeWhile (· ≠ .networkProcfs))

instance {ms route skb} : Decidable (Counts ms route skb) := inferInstanceAs (Decidable (_ ∧ _ ∧ _))

/-- What `network_procfs.c` has seen since its load, after one more event. -/
def observe (ms : List Mod) (seen : List Packet.Event) : Event → List Packet.Event
  | .load m _ _ => if m = .networkProcfs then [] else seen
  | .unload _ => seen
  | .packet route skb l junk =>
    if Counts ms route skb then seen ++ [.packet skb.toSkBuff l junk] else seen
  | .clear len => seen ++ [.clear len]

/-- What `network_procfs.c` has seen since its last load. -/
def seen (es : List Event) : List Packet.Event :=
  (es.foldl (fun x e => (track x.1 e, observe x.1 x.2 e)) ([], [])).2

/-- An event that the environment can bring about: a module is loaded once before it is unloaded,
    `/proc/net_proc` exists while `network_procfs.c` is loaded, and `kmem_cache_alloc` returns a
    free address. -/
def EventOk (s : Kernel) : Event → Prop
  | .load m _ _ => ¬ s.Registered m
  | .unload m => s.Registered m
  | .packet _ _ l _ => s.net.heap.get l = none
  | .clear _ => s.Registered .networkProcfs

instance {s : Kernel} : ∀ e, Decidable (EventOk s e)
  | .load m _ _ => inferInstanceAs (Decidable (¬ s.Registered m))
  | .unload m => inferInstanceAs (Decidable (s.Registered m))
  | .packet _ _ l _ => inferInstanceAs (Decidable (s.net.heap.get l = none))
  | .clear _ => inferInstanceAs (Decidable (s.Registered .networkProcfs))

/-- Whether the hook of a module drops a packet. -/
def Mod.drops (skb : SkBuff) (m : Mod) : Bool := m = .packetBlockProtocol ∧ skb.protocol = 1

/-- What the hook of a module logs, when `network_procfs.c` has seen the events `sn`. -/
def Mod.lines (sn : List Packet.Event) (skb : SkBuff) : Mod → List Line
  | packetFilter => [.packetGoingOut]
  | packetBlockProtocol =>
    if skb.protocol = 1 then [.sourceAddress (Packet.pI4 skb.saddr), .droppingPingPacket] else []
  | packetHello => [.helloPacket]
  | networkProcfs => .hasData (Packet.key skb.saddr) skb.dataLen ::
    if (Packet.sources sn).contains skb.saddr then []
    else [.caller, .newNode (Packet.key skb.saddr)]

/-- The modules whose hooks are on a route. -/
def path (ms : List Mod) (route : Route) : List Mod :=
  route.hooknums.flatMap fun num => ms.filter (·.nfho.hooknum = num)

/-- The loaded modules after one more event. -/
lemma loaded_concat {es e} : loaded (es ++ [e]) = track (loaded es) e := List.foldl_concat ..

/-- What `network_procfs.c` has seen after one more event. -/
lemma seen_concat {es e} : seen (es ++ [e]) = observe (loaded es) (seen es) e := by
  have fst : ∀ (es : List Event) ms sn,
      (es.foldl (fun x e => (track x.1 e, observe x.1 x.2 e)) (ms, sn)).1 = es.foldl track ms := by
    intro es
    induction es with
    | nil => exact fun _ _ => rfl
    | cons e es ih => exact fun ms sn => ih _ _
  rw [seen, List.foldl_concat]
  exact congrArg (fun ms => observe ms (seen es) e) (fst es [] [])

/-! ## The hooks -/

/-- The modules register different hooks. -/
lemma nfho_injective : Function.Injective Mod.nfho := by
  intro m m' e
  have hook : ∀ m : Mod, m.nfho.hook = m := by
    intro m
    cases m with
    | _ => rfl
  rw [← hook m, e, hook m']

/-- All of them hook IPv4. -/
lemma Mod.nfho_pf {m : Mod} : m.nfho.pf = pfInet := by
  cases m with
  | _ => rfl

/-- All of them have the first priority, so the order of the loads decides. -/
lemma Mod.nfho_priority {m : Mod} : m.nfho.priority = nfIpPriFirst := by
  cases m with
  | _ => rfl

/-- The modules that are loaded are those whose hooks are registered, at their places and in the
    order of their loads. -/
structure Hooked (ms : List Mod) (hooks : NfHooks) : Prop where
  nodup : ms.Nodup
  chain : ∀ pf num, hooks pf num =
    if pf = pfInet then (ms.filter (·.nfho.hooknum = num)).map Mod.nfho else []

namespace Hooked
variable {ms : List Mod} {hooks : NfHooks}

/-- A module is registered when it is loaded. -/
lemma registered {s : Kernel} {m} (ok : Hooked ms s.hooks) : s.Registered m ↔ m ∈ ms := by
  rw [Kernel.Registered, ok.chain, Mod.nfho_pf, if_pos rfl,
    List.mem_map_of_injective nfho_injective, List.mem_filter]
  simp

/-- A new hook goes behind those that are registered, as the priorities are equal. -/
lemma register {m} (ok : Hooked ms hooks) (new : m ∉ ms) :
    Hooked (ms ++ [m]) (nfRegisterHook hooks m.nfho) := by
  refine ⟨List.nodup_append.mpr ⟨ok.nodup, List.nodup_singleton m, ?_⟩, fun pf num => ?_⟩
  · rintro a mem b single rfl
    exact new (List.mem_singleton.mp single ▸ mem)
  · rw [nfRegisterHook, Mod.nfho_pf, ok.chain]
    by_cases ip : pf = pfInet
    · rw [if_pos ip, if_pos ip, List.filter_append, List.map_append]
      by_cases here : num = m.nfho.hooknum
      · rw [if_pos ⟨ip, here⟩, orderedInsert_eq_append]
        · rw [List.filter_cons_of_pos (by simp [here])]
          rfl
        · -- no hook has a greater priority number
          intro ops mem
          obtain ⟨m', -, rfl⟩ := List.mem_map.mp mem
          rw [Mod.nfho_priority, Mod.nfho_priority]
          exact lt_irrefl _
      · rw [if_neg (fun both => here both.2), List.filter_cons_of_neg (by simpa using Ne.symm here)]
        simp
    · rw [if_neg ip, if_neg ip, if_neg (fun both => ip both.1)]

/-- Unregistering takes out the hook of the module only. -/
lemma unregister {m} (ok : Hooked ms hooks) :
    Hooked (ms.erase m) (nfUnregisterHook hooks m.nfho) := by
  refine ⟨ok.nodup.erase m, fun pf num => ?_⟩
  rw [nfUnregisterHook, Mod.nfho_pf, ok.chain]
  by_cases ip : pf = pfInet
  · rw [if_pos ip, if_pos ip, ok.nodup.erase_eq_filter, List.filter_comm]
    by_cases here : num = m.nfho.hooknum
    · rw [if_pos ⟨ip, here⟩, ← List.map_erase nfho_injective,
        (ok.nodup.filter _).erase_eq_filter]
    · have kept : ∀ d ∈ ms.filter (·.nfho.hooknum = num), (d != m) = true := by
        intro d mem
        rw [bne_iff_ne]
        rintro rfl
        exact here (of_decide_eq_true (List.mem_filter.mp mem).2).symm
      rw [if_neg (fun both => here both.2), List.filter_eq_self.mpr kept]
  · rw [if_neg ip, if_neg ip, if_neg (fun both => ip both.1)]

/-- The hooks that a packet meets on its route. -/
lemma path_eq (ok : Hooked ms hooks) (route : Route) :
    route.hooknums.flatMap (hooks pfInet) = (path ms route).map Mod.nfho := by
  rw [path, List.map_flatMap]
  congr 1
  funext num
  rw [ok.chain, if_pos rfl]

end Hooked

/-! ## The route of a packet -/

/-- Only `packet_block_protocol.c` drops, and only ICMP. -/
lemma drops_iff {skb m} : Mod.drops skb m = true ↔ m = .packetBlockProtocol ∧ skb.protocol = 1 :=
  decide_eq_true_iff

/-- The modules on a route. -/
lemma mem_path {ms route m} : m ∈ path ms route ↔ m ∈ ms ∧ m.nfho.hooknum ∈ route.hooknums := by
  rw [path, List.mem_flatMap]
  constructor
  · rintro ⟨num, place, mem⟩
    obtain ⟨mem, e⟩ := List.mem_filter.mp mem
    rw [of_decide_eq_true e]
    exact ⟨mem, place⟩
  · rintro ⟨mem, place⟩
    exact ⟨_, place, List.mem_filter.mpr ⟨mem, decide_eq_true rfl⟩⟩

/-- None of them is on it twice. -/
lemma nodup_path {ms} (nodup : ms.Nodup) (route : Route) : (path ms route).Nodup := by
  refine List.nodup_flatMap.mpr ⟨fun num _ => nodup.filter _, ?_⟩
  have places : route.hooknums.Nodup := by
    cases route with
    | _ => decide
  refine places.imp fun ne => List.disjoint_left.mpr ?_
  intro m mem mem'
  obtain ⟨-, e⟩ := List.mem_filter.mp mem
  obtain ⟨-, e'⟩ := List.mem_filter.mp mem'
  exact ne ((of_decide_eq_true e).symm.trans (of_decide_eq_true e'))

/-- The only place where a packet can be dropped is the one for packets for this host. -/
lemma exists_drops_path {ms route skb} :
    (∃ m ∈ path ms route, Mod.drops skb m = true) ↔
      .packetBlockProtocol ∈ ms ∧ route = .localIn ∧ skb.protocol = 1 := by
  constructor
  · rintro ⟨m, mem, drop⟩
    obtain ⟨rfl, icmp⟩ := drops_iff.mp drop
    obtain ⟨mem, place⟩ := mem_path.mp mem
    refine ⟨mem, ?_, icmp⟩
    cases route with
    | localIn => rfl
    | forward => exact absurd place (by decide)
    | localOut => exact absurd place (by decide)
  · rintro ⟨mem, rfl, icmp⟩
    exact ⟨_, mem_path.mpr ⟨mem, by decide⟩, drops_iff.mpr ⟨rfl, icmp⟩⟩

/-- In front of `m` on a route are the modules in front of it that are on the route. -/
lemma takeWhile_filter_mem {ms : List Mod} {p : Mod → Bool} {m d : Mod} (keep : p m = true) :
    d ∈ (ms.filter p).takeWhile (· ≠ m) ↔ d ∈ ms.takeWhile (· ≠ m) ∧ p d = true := by
  induction ms with
  | nil => simp
  | cons a ms ih =>
    by_cases same : a = m
    · subst same
      rw [List.filter_cons_of_pos keep]
      simp
    · rw [List.takeWhile_cons_of_pos (by simpa using same)]
      by_cases pa : p a = true
      · rw [List.filter_cons_of_pos pa, List.takeWhile_cons_of_pos (by simpa using same),
          List.mem_cons, List.mem_cons, ih]
        constructor
        · rintro (rfl | ⟨mem, pd⟩)
          · exact ⟨.inl rfl, pa⟩
          · exact ⟨.inr mem, pd⟩
        · rintro ⟨rfl | mem, pd⟩
          · exact .inl rfl
          · exact .inr ⟨mem, pd⟩
      · rw [List.filter_cons_of_neg pa, ih, List.mem_cons]
        constructor
        · rintro ⟨mem, pd⟩
          exact ⟨.inr mem, pd⟩
        · rintro ⟨rfl | mem, pd⟩
          · exact absurd pd pa
          · exact ⟨mem, pd⟩

/-- `network_procfs.c` is called for the packets that it counts. -/
lemma networkProcfs_called {ms route skb} :
    .networkProcfs ∈ called (Mod.drops skb) (path ms route) ↔ Counts ms route skb := by
  have away : ∀ route, route ≠ .localIn → .networkProcfs ∉ path ms route := by
    intro route ne mem
    have place := (mem_path.mp mem).2
    cases route with
    | localIn => exact ne rfl
    | forward => exact absurd place (by decide)
    | localOut => exact absurd place (by decide)
  by_cases here : route = .localIn
  · subst here
    -- no hook in front of the place drops anything
    have first : ∀ m ∈ ms.filter (·.nfho.hooknum = 0), Mod.drops skb m = false := by
      intro m mem
      have place := of_decide_eq_true (List.mem_filter.mp mem).2
      refine Bool.eq_false_iff.mpr fun drop => ?_
      rw [(drops_iff.mp drop).1] at place
      exact absurd place (by decide)
    have split : path ms .localIn =
        ms.filter (·.nfho.hooknum = 0) ++ ms.filter (·.nfho.hooknum = 1) := by
      simp [path, Route.hooknums]
    have outside : Mod.networkProcfs ∉ ms.filter (·.nfho.hooknum = 0) := by
      intro mem
      exact absurd (of_decide_eq_true (List.mem_filter.mp mem).2) (by decide)
    rw [split, called_append first, List.mem_append, or_iff_right outside, mem_called, Counts,
      List.mem_filter]
    refine ⟨fun ⟨mem, clear⟩ => ⟨rfl, mem.1, fun icmp before => ?_⟩,
      fun ⟨_, mem, clear⟩ => ⟨⟨mem, by decide⟩, fun d before => ?_⟩⟩
    · have stop := clear .packetBlockProtocol
        ((takeWhile_filter_mem (by decide)).mpr ⟨before, by decide⟩)
      rw [drops_iff.mpr ⟨rfl, icmp⟩] at stop
      cases stop
    · refine Bool.eq_false_iff.mpr fun drop => ?_
      obtain ⟨rfl, icmp⟩ := drops_iff.mp drop
      exact clear icmp ((takeWhile_filter_mem (by decide)).mp before).1
  · refine ⟨fun mem => ?_, fun counts => absurd counts.1 here⟩
    refine absurd ?_ (away route here)
    exact (mem_called.mp mem).1

/-- What the hook of `packet_block_protocol.c` answers. -/
lemma hookFunc_block (sn : List Packet.Event) {skb} : PacketBlockProtocol.hookFunc (some skb) =
    some (Mod.lines sn skb .packetBlockProtocol,
      if skb.protocol = 1 then nfDrop else nfAccept) := by
  rw [PacketBlockProtocol.hookFunc, Mod.lines, Option.bind_eq_bind, Option.bind_some]
  split
  case isTrue => rfl
  case isFalse => rfl

/-- The hook of `network_procfs.c` has seen the packet when it answers. -/
lemma step_of_hookFunc {net net' : Packet.Net} {skb l junk lines verdict}
    (hook : NetworkProcfs.hookFunc net (some skb) (some (l, junk)) = some (net', lines, verdict)) :
    Packet.step net (.packet skb l junk) = some net' := by
  obtain ⟨found, -, hook⟩ := Option.bind_eq_some_iff.mp hook
  obtain ⟨⟨net1, v⟩, go, e⟩ := Option.bind_eq_some_iff.mp hook
  cases e
  exact congrArg (Option.map Prod.fst) go

/-- Giving a packet to a list of hooks, with the list of `network_procfs.c` ready for it. -/
lemma consult_mods {s : Kernel} {sn skb l junk ms} (nodup : ms.Nodup)
    (ready : .networkProcfs ∈ called (Mod.drops skb) ms →
      ∃ net, NetworkProcfs.hookFunc s.net (some skb.toSkBuff) (some (l, junk)) =
        some (net, Mod.lines sn skb .networkProcfs, nfAccept)) :
    ∃ net, consult nfAccept (call skb (some (l, junk))) (ms.map Mod.nfho) s =
        some (⟨s.hooks, net, s.log ++ (called (Mod.drops skb) ms).flatMap (Mod.lines sn skb)⟩,
          if ∃ m ∈ ms, Mod.drops skb m = true then nfDrop else nfAccept) ∧
      if .networkProcfs ∈ called (Mod.drops skb) ms then
        Packet.step s.net (.packet skb.toSkBuff l junk) = some net
      else net = s.net := by
  induction ms generalizing s with
  | nil => exact ⟨s.net, by simp [consult, called], by simp [called]⟩
  | cons m ms ih =>
    obtain ⟨fresh, nodup'⟩ := List.nodup_cons.mp nodup
    cases drop : Mod.drops skb m with
    | true =>
      obtain ⟨rfl, icmp⟩ := drops_iff.mp drop
      have here : call skb (some (l, junk)) (Mod.nfho .packetBlockProtocol) s =
          some (⟨s.hooks, s.net, s.log ++ Mod.lines sn skb .packetBlockProtocol⟩, nfDrop) := by
        simp only [call, Mod.nfho, hookFunc_block sn, if_pos icmp, Option.map_some]
      refine ⟨s.net, ?_, ?_⟩
      · rw [List.map_cons, consult_stop here (by decide), called_cons_of_pos drop,
          List.flatMap_singleton, if_pos ⟨_, List.mem_cons_self, drop⟩]
      · rw [called_cons_of_pos drop, if_neg (by decide)]
    | false =>
      have others : (∃ d ∈ m :: ms, Mod.drops skb d = true) ↔ ∃ d ∈ ms, Mod.drops skb d = true := by
        simp [drop]
      rw [called_cons_of_neg drop] at ready ⊢
      simp only [others, List.map_cons, List.flatMap_cons]
      by_cases own : m = .networkProcfs
      · subst own
        -- this hook takes the packet, and there is no second one
        obtain ⟨net, hook⟩ := ready List.mem_cons_self
        let s1 : Kernel := ⟨s.hooks, net, s.log ++ Mod.lines sn skb .networkProcfs⟩
        have here : call skb (some (l, junk)) (Mod.nfho .networkProcfs) s =
            some (s1, nfAccept) := by
          show (NetworkProcfs.hookFunc s.net (some skb.toSkBuff) (some (l, junk))).bind _ = _
          rw [hook]
          rfl
        have absent : Mod.networkProcfs ∉ called (Mod.drops skb) ms := fun mem =>
          fresh (mem_called.mp mem).1
        obtain ⟨net2, go, rest⟩ := ih (s := s1) nodup' fun mem => absurd mem absent
        rw [if_neg absent] at rest
        subst rest
        refine ⟨s1.net, ?_, ?_⟩
        · rw [consult_accept here, go, List.append_assoc]
        · rw [if_pos List.mem_cons_self]
          exact step_of_hookFunc hook
      · have here : call skb (some (l, junk)) m.nfho s =
            some (⟨s.hooks, s.net, s.log ++ m.lines sn skb⟩, nfAccept) := by
          cases m with
          | packetFilter => rfl
          | packetBlockProtocol =>
            have other : skb.protocol ≠ 1 := fun icmp => by
              rw [drops_iff.mpr ⟨rfl, icmp⟩] at drop
              cases drop
            simp only [call, Mod.nfho, hookFunc_block sn, if_neg other, Option.map_some]
          | packetHello => rfl
          | networkProcfs => exact absurd rfl own
        have same : .networkProcfs ∈ m :: called (Mod.drops skb) ms ↔
            .networkProcfs ∈ called (Mod.drops skb) ms := by
          rw [List.mem_cons, or_iff_right (Ne.symm own)]
        simp only [same] at ready ⊢
        obtain ⟨net, go, rest⟩ :=
          ih (s := ⟨s.hooks, s.net, s.log ++ m.lines sn skb⟩) nodup' ready
        refine ⟨net, ?_, rest⟩
        rw [consult_accept here, go, List.append_assoc]

/-! ## Runs -/

/-- What a history of loads, unloads, packets and clears leaves behind: the hooks of the loaded
    modules, and, while `network_procfs.c` is loaded, the list that it has after what it has
    seen. -/
structure Stacked (es : List Event) (s : Kernel) : Prop where
  hooked : Hooked (loaded es) s.hooks
  list : .networkProcfs ∈ loaded es → ∃ l junk m,
    run Packet.InitOp.exec .boot (Packet.initPacket l junk true) = some m ∧
      Admits Packet.AllocOk Packet.step m.net (seen es) ∧
      run Packet.step m.net (seen es) = some s.net

namespace Stacked
variable {es : List Event} {s : Kernel}

/-- While `network_procfs.c` is loaded, its list is well formed and has a node for every source that
    it has seen. -/
lemma rep (inv : Stacked es s) (mem : .networkProcfs ∈ loaded es) :
    (∃ r cs, Rep s.net r cs) ∧ ∀ a, ∃ found,
      Packet.searchLoop s.net.heap (Packet.key a) (s.net.heap.size + 1) s.net.root = some found ∧
      (found.isSome ↔ a ∈ Packet.sources (seen es)) := by
  obtain ⟨l, junk, m, init, ad, go⟩ := inv.list mem
  obtain ⟨m', r, init', rep⟩ := Rep.initPacket l junk true
  cases init.symm.trans init'
  obtain ⟨s', r', cs, go', rep', -⟩ := Packet.rep_of_history rep ad
  cases go.symm.trans go'
  exact ⟨⟨r', cs, rep'⟩, Packet.search_of_history rep ad go⟩

/-- The hook of `network_procfs.c` takes a packet, and its lines say whether the source is new. -/
lemma hookFunc {l} (inv : Stacked es s) (mem : .networkProcfs ∈ loaded es) (skb : SkBuff)
    (junk : Packet.Node) (free : s.net.heap.get l = none) :
    ∃ net, NetworkProcfs.hookFunc s.net (some skb.toSkBuff) (some (l, junk)) =
      some (net, Mod.lines (seen es) skb .networkProcfs, nfAccept) := by
  obtain ⟨⟨r, cs, rep⟩, search⟩ := inv.rep mem
  obtain ⟨found, search, known⟩ := search skb.saddr
  obtain ⟨net, _, _, st, -⟩ := Packet.step_rep (e := .packet skb.toSkBuff l junk) rep free
  obtain ⟨⟨net', verdict⟩, hook, rfl⟩ := Option.map_eq_some_iff.mp st
  obtain ⟨net1, add, e⟩ := Option.map_eq_some_iff.mp (Packet.hookFunc_eq.symm.trans hook)
  cases e
  refine ⟨net', ?_⟩
  simp only [NetworkProcfs.hookFunc, Mod.lines, search, hook, known, List.contains_iff_mem,
    Option.bind_eq_bind, Option.bind_some]

/-- Giving a packet to the hooks on its route. -/
lemma deliver {l} (inv : Stacked es s) (route : Route) (skb : SkBuff) (junk : Packet.Node)
    (free : s.net.heap.get l = none) :
    ∃ net, Netfilter.deliver s route skb (some (l, junk)) =
        some (⟨s.hooks, net,
          s.log ++ (called (Mod.drops skb) (path (loaded es) route)).flatMap
            (Mod.lines (seen es) skb)⟩,
          if .packetBlockProtocol ∈ loaded es ∧ route = .localIn ∧ skb.protocol = 1 then nfDrop
          else nfAccept) ∧
      if Counts (loaded es) route skb then
        Packet.step s.net (.packet skb.toSkBuff l junk) = some net
      else net = s.net := by
  obtain ⟨net, go, list⟩ := consult_mods (nodup_path inv.hooked.nodup route) fun mem =>
    inv.hookFunc (networkProcfs_called.mp mem).2.1 skb junk free
  simp only [networkProcfs_called, exists_drops_path] at go list
  refine ⟨net, ?_, list⟩
  rw [Netfilter.deliver, inv.hooked.path_eq]
  exact go

/-- A load. -/
lemma load {m root junk} (inv : Stacked es s) (ok : ¬ s.Registered m) :
    ∃ s', step s (.load m root junk) = some s' ∧ Stacked (es ++ [.load m root junk]) s' := by
  have new : m ∉ loaded es := mt inv.hooked.registered.mpr ok
  have hooked := inv.hooked.register new
  by_cases own : m = .networkProcfs
  · subst own
    obtain ⟨mod, r, init, -⟩ := Rep.initPacket root junk true
    refine ⟨⟨nfRegisterHook s.hooks (Mod.nfho .networkProcfs), mod.net, s.log ++ [.caller]⟩, ?_, ?_,
      fun _ => ?_⟩
    · rw [step, if_neg ok, Mod.init, init]
      rfl
    · rw [loaded_concat]
      exact hooked
    · rw [seen_concat]
      exact ⟨root, junk, mod, init, trivial, rfl⟩
  · obtain ⟨log, st⟩ : ∃ log, m.init s root junk = some { s with log } := by
      cases m with
      | packetFilter => exact ⟨s.log, rfl⟩
      | packetBlockProtocol => exact ⟨s.log, rfl⟩
      | packetHello => exact ⟨_, rfl⟩
      | networkProcfs => exact absurd rfl own
    refine ⟨⟨nfRegisterHook s.hooks m.nfho, s.net, log⟩, ?_, ?_, fun mem => ?_⟩
    · rw [step, if_neg ok, st]
      rfl
    · rw [loaded_concat]
      exact hooked
    · rw [loaded_concat, track, List.mem_append, List.mem_singleton,
        or_iff_left (Ne.symm own)] at mem
      rw [seen_concat, observe, if_neg own]
      exact inv.list mem

/-- An unload. -/
lemma unload {m} (inv : Stacked es s) (ok : s.Registered m) :
    ∃ s', step s (.unload m) = some s' ∧ Stacked (es ++ [.unload m]) s' := by
  have hooked := inv.hooked.unregister (m := m)
  have mem := inv.hooked.registered.mp ok
  by_cases own : m = .networkProcfs
  · subst own
    obtain ⟨⟨r, cs, rep⟩, -⟩ := inv.rep mem
    have enough := Nat.lt_succ_of_le rep.chain.length_le
    obtain ⟨h, freed, -, -⟩ := Packet.free_chain rep.chain enough
    refine ⟨⟨nfUnregisterHook s.hooks (Mod.nfho .networkProcfs), { s.net with heap := h },
      s.log ++ ((r :: cs).map Prod.snd).map fun v => .freeNode v.addr⟩, ?_, ?_, fun still => ?_⟩
    · simp only [step, if_pos ok, Mod.exit, Packet.iterate_chain rep.chain enough, freed,
        Option.bind_eq_bind, Option.bind_some]
    · rw [loaded_concat]
      exact hooked
    · rw [loaded_concat] at still
      exact absurd still inv.hooked.nodup.not_mem_erase
  · obtain ⟨log, st⟩ : ∃ log, m.exit s = some { s with log } := by
      cases m with
      | packetFilter => exact ⟨s.log, rfl⟩
      | packetBlockProtocol => exact ⟨s.log, rfl⟩
      | packetHello => exact ⟨_, rfl⟩
      | networkProcfs => exact absurd rfl own
    refine ⟨⟨nfUnregisterHook s.hooks m.nfho, s.net, log⟩, ?_, ?_, fun still => ?_⟩
    · rw [step, if_pos ok, st]
      rfl
    · rw [loaded_concat]
      exact hooked
    · rw [loaded_concat] at still
      rw [seen_concat]
      exact inv.list (List.mem_of_mem_erase still)

/-- `network_procfs.c` sees one more event. -/
lemma grow {e net log} (inv : Stacked es s) (ev : Packet.Event)
    (same : track (loaded es) e = loaded es)
    (sees : seen (es ++ [e]) = seen es ++ [ev]) (ok : Packet.AllocOk s.net ev)
    (st : Packet.step s.net ev = some net) : Stacked (es ++ [e]) ⟨s.hooks, net, log⟩ := by
  refine ⟨?_, fun mem => ?_⟩
  · rw [loaded_concat, same]
    exact inv.hooked
  · rw [loaded_concat, same] at mem
    obtain ⟨l, junk, m, init, ad, go⟩ := inv.list mem
    rw [sees]
    exact ⟨l, junk, m, init, ad.concat go ok, run_snoc.mpr ⟨s.net, go, st⟩⟩

/-- Every event that the environment can bring about takes place. -/
lemma step {e} (inv : Stacked es s) (ok : EventOk s e) :
    ∃ s', Netfilter.step s e = some s' ∧ Stacked (es ++ [e]) s' := by
  cases e with
  | load m root junk => exact inv.load ok
  | unload m => exact inv.unload ok
  | packet route skb l junk =>
    obtain ⟨net, go, list⟩ := inv.deliver route skb junk ok
    refine ⟨_, congrArg (Option.map Prod.fst) go, ?_⟩
    by_cases counts : Counts (loaded es) route skb
    · rw [if_pos counts] at list
      refine inv.grow (.packet skb.toSkBuff l junk) rfl ?_ ok list
      rw [seen_concat, observe, if_pos counts]
    · rw [if_neg counts] at list
      subst list
      refine ⟨?_, fun mem => ?_⟩
      · rw [loaded_concat]
        exact inv.hooked
      · rw [seen_concat, observe, if_neg counts]
        rw [loaded_concat] at mem
        exact inv.list mem
  | clear len =>
    have loaded_ : s.Registered .networkProcfs := ok
    obtain ⟨⟨r, cs, rep⟩, -⟩ := inv.rep (inv.hooked.registered.mp loaded_)
    obtain ⟨net, _, _, st, -⟩ := Packet.step_rep (e := .clear len) rep trivial
    obtain ⟨⟨net', ret⟩, write, rfl⟩ := Option.map_eq_some_iff.mp st
    refine ⟨⟨s.hooks, net', s.log ++ [.tryToClearList]⟩, ?_,
      inv.grow (.clear len) rfl seen_concat trivial st⟩
    rw [Netfilter.step, if_pos loaded_, write]
    rfl

end Stacked

/-- Nothing is loaded at first. -/
lemma stacked_boot : Stacked [] .boot := by
  refine ⟨⟨List.nodup_nil, fun pf num => ?_⟩, fun mem => absurd mem List.not_mem_nil⟩
  split
  case isTrue => rfl
  case isFalse => rfl

/-- Every admissible history goes through and is explained by what was loaded and seen. -/
lemma run_stacked {es} (ad : Admits EventOk step .boot es) :
    ∃ s, run step .boot es = some s ∧ Stacked es s :=
  run_total (P := Stacked) (fun inv ok => inv.step ok) [] stacked_boot ad

/-- In every run of loads, unloads, packets and clears, one at a time and with `kmem_cache_alloc`
    returning a node, every packet is given to its hooks without an invalid access. It is dropped
    exactly when `packet_block_protocol.c` is loaded and it is an ICMP packet for this host; and the
    log gets the lines of the hooks on its route, up to the one that drops it. `network_procfs.c`
    logs a new node exactly for the sources that it has not seen since its load. -/
theorem packets_judged {es} (ad : Admits EventOk step .boot es) :
    ∃ s, run step .boot es = some s ∧ ∀ pre route skb l junk post,
      es = pre ++ .packet route skb l junk :: post →
      ∃ s1 s2 verdict, run step .boot pre = some s1 ∧
        deliver s1 route skb (some (l, junk)) = some (s2, verdict) ∧
        (verdict = nfDrop ↔
          .packetBlockProtocol ∈ loaded pre ∧ route = .localIn ∧ skb.protocol = 1) ∧
        (verdict = nfDrop ∨ verdict = nfAccept) ∧
        s2.log = s1.log ++ (called (Mod.drops skb) (path (loaded pre) route)).flatMap
          (Mod.lines (seen pre) skb) := by
  obtain ⟨s, go, -⟩ := run_stacked ad
  refine ⟨s, go, ?_⟩
  rintro pre route skb l junk post rfl
  obtain ⟨s1, go1, inv⟩ := run_stacked ad.of_append
  have free : s1.net.heap.get l = none := (ad.rest go1).1
  obtain ⟨net, sent, -⟩ := inv.deliver route skb junk free
  refine ⟨s1, _, _, go1, sent, ?_, ?_, rfl⟩
  · split
    case isTrue drop => exact ⟨fun _ => drop, fun _ => rfl⟩
    case isFalse keep => exact ⟨fun e => absurd e (by decide), fun drop => absurd drop keep⟩
  · split
    case isTrue => exact .inl rfl
    case isFalse => exact .inr rfl

/-- `network_procfs.c` is loaded behind `packet_block_protocol.c`, and an ICMP packet of 10.0.0.1
    and a TCP packet of 10.0.0.2 come in. `packet_block_protocol.c` is loaded once more and another
    ICMP packet of 10.0.0.1 comes in. -/
def reloaded : List Event :=
  [.load .packetBlockProtocol 0 ⟨[], 0, 0, none⟩, .load .networkProcfs 0 ⟨[], 0, 0, none⟩,
    .packet .localIn ⟨⟨0x0A000001, 84⟩, 1⟩ 1 ⟨[], 0, 0, none⟩,
    .packet .localIn ⟨⟨0x0A000002, 40⟩, 6⟩ 1 ⟨[], 0, 0, none⟩, .unload .packetBlockProtocol,
    .load .packetBlockProtocol 0 ⟨[], 0, 0, none⟩,
    .packet .localIn ⟨⟨0x0A000001, 84⟩, 1⟩ 2 ⟨[], 0, 0, none⟩]

/-- A ping after a reload is counted and then dropped, with the lines of both modules. -/
theorem packets_judged_reloaded :
    ∃ s1 s2, run step .boot (reloaded.take 6) = some s1 ∧
      deliver s1 .localIn ⟨⟨0x0A000001, 84⟩, 1⟩ (some (2, ⟨[], 0, 0, none⟩)) = some (s2, nfDrop) ∧
      s2.log = s1.log ++ [.hasData "10.0.0.1".toList 84, .caller, .newNode "10.0.0.1".toList,
        .sourceAddress "10.0.0.1".toList, .droppingPingPacket] := by
  have ad : Admits EventOk step .boot reloaded := by decide +kernel
  obtain ⟨s, -, all⟩ := packets_judged ad
  obtain ⟨s1, s2, verdict, go, sent, drop, -, log⟩ :=
    all (reloaded.take 6) .localIn ⟨⟨0x0A000001, 84⟩, 1⟩ 2 ⟨[], 0, 0, none⟩ [] rfl
  rw [drop.mpr ⟨by decide +kernel, rfl, rfl⟩] at sent
  refine ⟨s1, s2, go, sent, ?_⟩
  rw [log]
  exact congrArg (s1.log ++ ·) (by decide +kernel)

/-- In every such run that ends with `network_procfs.c` loaded, a dump of its list is a function of
    the packets that it has seen since its load: one node for each source, with the packets and the
    bytes since the last clear. -/
theorem network_procfs_counts {es} (ad : Admits EventOk step .boot es)
    (mem : .networkProcfs ∈ loaded es) :
    ∃ s vs, run step .boot es = some s ∧ Packet.dump s.net = some vs ∧
      vs.map Packet.Node.shown = (Packet.sources (seen es)).map fun a =>
        (Packet.pI4 a, Packet.counters (Packet.packetsFrom a (seen es))) := by
  obtain ⟨s, go, inv⟩ := run_stacked ad
  obtain ⟨l, junk, m, init, ad', go'⟩ := inv.list mem
  obtain ⟨m', r, init', rep⟩ := Rep.initPacket l junk true
  cases init.symm.trans init'
  obtain ⟨s', vs, go'', dump, shown⟩ := Packet.dump_of_history rep ad'
  cases go'.symm.trans go''
  exact ⟨s, vs, go, dump, shown⟩

/-- The first ICMP packet is not counted and the last one is, though both are dropped. -/
theorem network_procfs_counts_reloaded :
    ∃ s vs, run step .boot reloaded = some s ∧ Packet.dump s.net = some vs ∧
      vs.map Packet.Node.shown = [("10.0.0.2".toList, 1, 40), ("10.0.0.1".toList, 1, 84)] := by
  have ad : Admits EventOk step .boot reloaded := by decide +kernel
  obtain ⟨s, vs, go, dump, shown⟩ := network_procfs_counts ad (by decide +kernel)
  refine ⟨s, vs, go, dump, shown.trans ?_⟩
  decide +kernel

end KernelModules.Netfilter
