import KernelModules.Base.Hooks
import KernelModules.Packet.Source

/-!
# The netfilter modules together

Model of the modules that register a hook for IPv4 packets, as parts of one system:
`packet_filter.c`, `packet_block_protocol.c`, `packet_hello.c` and `network_procfs.c`. Each fills
its own `nfho` and calls `nf_register_hook` when it is loaded and `nf_unregister_hook` when it is
unloaded.

The kernel keeps a list of hooks for each protocol family and each place (C
`nf_hooks[pf][hooknum]`). A new hook goes in front of the first one with a greater priority number,
and so behind those with its own. A packet passes the places of its route one after the other. At
each of them it is given to the hooks of the list in turn; the first one that does not answer
`NF_ACCEPT` decides.

`network_procfs.c` is the model of `Packet.Source`, here with the lines that it logs. The events
come one at a time: a load, an unload, a packet on its whole route and a write to `/proc/net_proc`
each end before the next one begins. In particular no packet comes in while `cleanup_packet` is
between `free(root)` and `nf_unregister_hook`, and calls of a hook do not overlap
(`Packet.Lifecycle` and `Netfilter.Globals` are about what happens otherwise). `kmem_cache_create`
and `proc_create_data` succeed, and `kmem_cache_alloc` returns a node. The hooks are called with a
packet, never with `NULL`; `hook_func` of `packet_block_protocol.c` and `my_hook` look into the
packet before anything else.

C → Lean naming: `nf_register_hook` → `nfRegisterHook`, `nf_unregister_hook` → `nfUnregisterHook`;
the hook functions are `PacketFilter.hookFunc`, `PacketBlockProtocol.hookFunc`, `PacketHello.myHook`
and `NetworkProcfs.hookFunc`; `init_module` / `init_packet` / `hello_init` → `Mod.init` and the
event `load`, `cleanup_module` / `cleanup_packet` / `hello_cleanup` → `Mod.exit` and the event
`unload`.
-/

namespace KernelModules.Netfilter

/-- The modules that register a hook. -/
inductive Mod where
  | packetFilter
  | packetBlockProtocol
  | packetHello
  | networkProcfs
  deriving Repr, DecidableEq

/-- `PF_INET` -/
def pfInet : Nat := 2

/-- `NF_IP_PRI_FIRST` -/
def nfIpPriFirst : Int := -2147483648

/-- What a module registers (C `struct nf_hook_ops`); `hook` is the hook function of a module. -/
structure NfHookOps where
  hook : Mod
  hooknum : Nat
  pf : Nat
  priority : Int
  deriving Repr, DecidableEq

/-- The `nfho` of each module. -/
def Mod.nfho : Mod → NfHookOps
  | packetFilter => ⟨.packetFilter, 3, pfInet, nfIpPriFirst⟩
  | packetBlockProtocol => ⟨.packetBlockProtocol, 1, pfInet, nfIpPriFirst⟩
  | packetHello => ⟨.packetHello, 0, pfInet, nfIpPriFirst⟩
  | networkProcfs => ⟨.networkProcfs, 1, pfInet, nfIpPriFirst⟩

/-- The lists of registered hooks (C `nf_hooks[pf][hooknum]`). -/
abbrev NfHooks := Nat → Nat → List NfHookOps

/-- Registers a hook (C `nf_register_hook`). -/
def nfRegisterHook (hooks : NfHooks) (ops : NfHookOps) : NfHooks := fun pf num =>
  if pf = ops.pf ∧ num = ops.hooknum then
    (hooks pf num).orderedInsert (fun a b => a.priority < b.priority) ops
  else hooks pf num

/-- Removes a hook (C `nf_unregister_hook`). -/
def nfUnregisterHook (hooks : NfHooks) (ops : NfHookOps) : NfHooks := fun pf num =>
  if pf = ops.pf ∧ num = ops.hooknum then (hooks pf num).erase ops else hooks pf num

/-- What the hooks read of a packet. -/
structure SkBuff extends Packet.SkBuff where
  protocol : BitVec 8
  deriving Repr, DecidableEq

/-- The verdict `NF_DROP`. -/
def nfDrop : BitVec 32 := 0

/-- The lines that the modules log. -/
inductive Line where
  | packetGoingOut                      -- Packet Going out
  | sourceAddress (saddr : List Char)   -- SOURCE ADDRESS %pI4
  | droppingPingPacket                  -- Dropping ping packet
  | helloPacket                         -- Hello packet!
  | helloWorld                          -- Hello world!
  | cleaningUpModule                    -- Cleaning up module.
  | hasData (source : List Char) (dataLen : BitVec 32)   -- %s has %u data
  | caller                              -- %pS of a return address, whatever its name is
  | newNode (saddr : List Char)         -- New node for source %s
  | tryToClearList                      -- TRY TO CLEAR LIST
  | freeNode (addr : List Char)         -- free node for %s
  deriving Repr, DecidableEq

/-- The hook of `packet_filter.c` (C `hook_func`), which does not look at the packet. -/
def PacketFilter.hookFunc : List Line × BitVec 32 := ([.packetGoingOut], Packet.nfAccept)

/-- The hook of `packet_block_protocol.c` (C `hook_func`); 1 is the protocol number of ICMP. -/
def PacketBlockProtocol.hookFunc (skb : Option SkBuff) : Option (List Line × BitVec 32) := do
  let skb ← skb
  if skb.protocol = 1 then
    some ([.sourceAddress (Packet.pI4 skb.saddr), .droppingPingPacket], nfDrop)
  else some ([], Packet.nfAccept)

/-- The hook of `packet_hello.c` (C `my_hook`). -/
def PacketHello.myHook (skb : Option SkBuff) : Option (List Line × BitVec 32) := do
  let _ ← skb
  some ([.helloPacket], Packet.nfAccept)

/-- The hook of `network_procfs.c` (C `hook_func`) with its lines: one for the packet, and two in
    `add_to_list_network` when the search has found no node. -/
def NetworkProcfs.hookFunc (net : Packet.Net) (skb : Option Packet.SkBuff) (ans : Packet.Answer) :
    Option (Packet.Net × List Line × BitVec 32) := do
  let p ← skb
  let source := Packet.key p.saddr
  let found ← Packet.searchLoop net.heap source (net.heap.size + 1) net.root
  let (net, verdict) ← Packet.hookFunc net skb ans
  some (net, .hasData source p.dataLen :: (if found.isSome then [] else [.caller, .newNode source]),
    verdict)

/-- The registered hooks, the list of `network_procfs.c` and the log. -/
structure Kernel where
  hooks : NfHooks
  net : Packet.Net
  log : List Line

/-- No module is loaded. -/
def Kernel.boot : Kernel := ⟨fun _ _ => [], Packet.Module.boot.net, []⟩

/-- Calls a registered hook with a packet. The last argument is the answer of `kmem_cache_alloc`,
    should `network_procfs.c` need a node. -/
def call (skb : SkBuff) (ans : Packet.Answer) (ops : NfHookOps) (s : Kernel) :
    Option (Kernel × BitVec 32) :=
  let logged : List Line × BitVec 32 → Kernel × BitVec 32 := fun x =>
    ({ s with log := s.log ++ x.1 }, x.2)
  match ops.hook with
  | .packetFilter => some (logged PacketFilter.hookFunc)
  | .packetBlockProtocol => (PacketBlockProtocol.hookFunc (some skb)).map logged
  | .packetHello => (PacketHello.myHook (some skb)).map logged
  | .networkProcfs => do
    let (net, lines, verdict) ← NetworkProcfs.hookFunc s.net (some skb.toSkBuff) ans
    some ({ s with net, log := s.log ++ lines }, verdict)

/-- The way of a packet: received for this host, received for another one, or sent by a local
    process. -/
inductive Route where
  | localIn
  | forward
  | localOut
  deriving Repr, DecidableEq

/-- The places on a route: `NF_IP_PRE_ROUTING` is 0, `NF_IP_LOCAL_IN` 1, `NF_IP_FORWARD` 2,
    `NF_IP_LOCAL_OUT` 3 and `NF_IP_POST_ROUTING` 4. -/
def Route.hooknums : Route → List Nat
  | localIn => [0, 1]
  | forward => [0, 2, 4]
  | localOut => [3, 4]

/-- Gives a packet to the hooks on its route. -/
def deliver (s : Kernel) (route : Route) (skb : SkBuff) (ans : Packet.Answer) :
    Option (Kernel × BitVec 32) :=
  consult Packet.nfAccept (call skb ans) (route.hooknums.flatMap (s.hooks pfInet)) s

/-- Whether a module has its hook registered. -/
def Kernel.Registered (s : Kernel) (m : Mod) : Prop := m.nfho ∈ s.hooks m.nfho.pf m.nfho.hooknum

instance {s : Kernel} {m : Mod} : Decidable (s.Registered m) := inferInstanceAs (Decidable (_ ∈ _))

/-- What a module does at load, up to the registration of its hook. For `network_procfs.c` the root
    of its list is allocated at `root`, where the memory holds `junk`. -/
def Mod.init (s : Kernel) (root : Loc) (junk : Packet.Node) : Mod → Option Kernel
  | packetFilter => some s
  | packetBlockProtocol => some s
  | packetHello => some { s with log := s.log ++ [.helloWorld] }
  | networkProcfs => do
    let m ← run Packet.InitOp.exec .boot (Packet.initPacket root junk true)
    some { s with net := m.net, log := s.log ++ [.caller] }

/-- What a module does at unload, apart from the removal of its hook. In `network_procfs.c`, `free`
    logs a node before it goes on to the next one. -/
def Mod.exit (s : Kernel) : Mod → Option Kernel
  | packetFilter => some s
  | packetBlockProtocol => some s
  | packetHello => some { s with log := s.log ++ [.cleaningUpModule] }
  | networkProcfs => do
    let nodes ← Packet.iterate s.net (s.net.heap.size + 1) s.net.root
    let (net, _) ← Packet.free (s.net.heap.size + 1) s.net s.net.root
    some { s with net, log := s.log ++ nodes.map fun v => .freeNode v.addr }

/-- What can happen. A packet comes with the address and the old contents of the node that
    `kmem_cache_alloc` returns, should it need one. -/
inductive Event where
  | load (m : Mod) (root : Loc) (junk : Packet.Node)
  | unload (m : Mod)
  | packet (route : Route) (skb : SkBuff) (l : Loc) (junk : Packet.Node)
  | clear (len : BitVec 64)             -- write to /proc/net_proc

/-- One event. -/
def step (s : Kernel) : Event → Option Kernel
  | .load m root junk =>
    if s.Registered m then none else do
      let s ← m.init s root junk
      some { s with hooks := nfRegisterHook s.hooks m.nfho }
  | .unload m =>
    if s.Registered m then do
      let s ← m.exit s
      some { s with hooks := nfUnregisterHook s.hooks m.nfho }
    else none
  | .packet route skb l junk => (deliver s route skb (some (l, junk))).map Prod.fst
  | .clear len =>
    if s.Registered .networkProcfs then
      (Packet.myWrite s.net len).map fun x =>
        { s with net := x.1, log := s.log ++ [.tryToClearList] }
    else none

end KernelModules.Netfilter
