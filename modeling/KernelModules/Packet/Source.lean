import KernelModules.Base.Heap
import KernelModules.Base.Run
import KernelModules.Packet.Addr

/-!
# The packet list

Model of the list code of `network_procfs.c`: the nodes (C `struct network_list`) live in a heap,
the globals `root` and `tail` point into it, and a pointer is `none` when it is `NULL`. Every
function works through `Net.load` and `Net.store`; an access through a pointer that is `NULL` or
points to no live node has no result (`none`), and so has a loop over a list that never ends.

`kmem_cache_alloc` answers either `NULL` or a free address with arbitrary contents; the answer is an
argument of the functions that allocate. `atomic_t` and `atomic64_t` are 32-bit and 64-bit words.

C → Lean naming: `add_to_list_network` → `addToListNetwork`, `hook_func` → `hookFunc`, `my_start` /
`my_next` / `my_show` → `myStart` / `myNext` / `myShow`, `my_write` → `myWrite`. The loops of
`add_to_list_network` and `my_write` are `searchLoop` and `clearLoop`; their first argument bounds
the number of iterations, and the callers pass one more than there are live nodes, which a list that
ends never uses up. The first argument of `free` bounds the depth of its recursion.
-/

namespace KernelModules.Packet

/-- A node of the list (C `struct network_list`); `addr` is the text up to its NUL. -/
structure Node where
  addr : List Char
  count : BitVec 32
  dataUsed : BitVec 64
  next : Option Loc
  deriving Repr, DecidableEq

/-- The heap of nodes with the globals `root` and `tail`. -/
structure Net where
  heap : Heap Node
  root : Option Loc
  tail : Option Loc

/-- The answer of `kmem_cache_alloc`: `NULL`, or an address and what the memory there holds. -/
abbrev Answer := Option (Loc × Node)

/-- What `hook_func` reads of a packet: the source address and `sk_buff::data_len`. -/
structure SkBuff where
  saddr : BitVec 32
  dataLen : BitVec 32
  deriving Repr, DecidableEq

/-- The verdict `NF_ACCEPT` of a netfilter hook. -/
def nfAccept : BitVec 32 := 1

namespace Net

/-- Reads the node a pointer points to. -/
def load (s : Net) (p : Option Loc) : Option Node := p.bind s.heap.get

/-- Writes the node a pointer points to. -/
def store (s : Net) (p : Option Loc) (f : Node → Node) : Option Net := do
  let l ← p
  let v ← s.heap.get l
  some { s with heap := s.heap.set l (f v) }

/-- Allocates a node (C `kmem_cache_alloc`); the allocator never hands out a live address. -/
def kmemCacheAlloc (s : Net) : Answer → Option (Net × Option Loc)
  | none => some (s, none)
  | some (l, junk) =>
    if free : s.heap.get l = none then some ({ s with heap := s.heap.alloc l junk free }, some l)
    else none

/-- Frees a node (C `kmem_cache_free`); the address must hold one. -/
def kmemCacheFree (s : Net) (l : Loc) : Option Net := do
  let _ ← s.heap.get l
  some { s with heap := s.heap.free l }

end Net

/-- The search loop of `add_to_list_network`: the node whose `addr` equals `saddr`, if there is
    one. -/
def searchLoop (h : Heap Node) (saddr : List Char) : Nat → Option Loc → Option (Option Loc)
  | 0, _ => none
  | _ + 1, none => some none
  | n + 1, some l => do
    let v ← h.get l
    if v.addr ≠ saddr then searchLoop h saddr n v.next else some (some l)

/-- The assignments that append a node in `add_to_list_network`, in source order. -/
inductive Assign where
  | linkAlloc (ans : Answer)  -- tail->next = kmem_cache_alloc(packet_node_cache, GFP_KERNEL)
  | tailNext                  -- tail = tail->next
  | setCount                  -- atomic_set(&(tail->count), 1)
  | setDataUsed               -- atomic64_set(&(tail->data_used), data_size)
  | strcpyAddr                -- strcpy(tail->addr, saddr)
  | nextNull                  -- tail->next = NULL

/-- One assignment. The array `addr` has 16 bytes, so a longer text runs over its end. -/
def Assign.exec (saddr : List Char) (dataSize : BitVec 32) (s : Net) : Assign → Option Net
  | linkAlloc ans => do
    let (s', p) ← s.kmemCacheAlloc ans
    s'.store s'.tail fun v => { v with next := p }
  | tailNext => do
    let v ← s.load s.tail
    some { s with tail := v.next }
  | setCount => s.store s.tail fun v => { v with count := 1 }
  | setDataUsed => s.store s.tail fun v => { v with dataUsed := dataSize.signExtend 64 }
  | strcpyAddr =>
    if saddr.length < 16 then s.store s.tail fun v => { v with addr := saddr } else none
  | nextNull => s.store s.tail fun v => { v with next := none }

/-- The branch `if (!added)` of `add_to_list_network`. -/
def addAssigns (ans : Answer) : List Assign :=
  [.linkAlloc ans, .tailNext, .setCount, .setDataUsed, .strcpyAddr, .nextNull]

/-- Counts a packet for its source, in a new node at the end when the source has none
    (C `add_to_list_network`). -/
def addToListNetwork (s : Net) (saddr : List Char) (dataSize : BitVec 32) (ans : Answer) :
    Option Net := do
  match ← searchLoop s.heap saddr (s.heap.size + 1) s.root with
  | some l => do
    let s ← s.store (some l) fun v => { v with count := v.count + 1 }
    s.store (some l) fun v => { v with dataUsed := v.dataUsed + dataSize.signExtend 64 }
  | none => run (Assign.exec saddr dataSize) s (addAssigns ans)

/-- The netfilter hook (C `hook_func`). The header of the packet is read before the test for a
    `NULL` packet, and `data_len` becomes an `int`. -/
def hookFunc (s : Net) (skb : Option SkBuff) (ans : Answer) : Option (Net × BitVec 32) := do
  let skb ← skb
  let source := key skb.saddr
  let s ← addToListNetwork s source skb.dataLen ans
  some (s, nfAccept)

/-- A packet is counted under the text of its source, and accepted. -/
lemma hookFunc_eq {s skb ans} : hookFunc s (some skb) ans =
    (addToListNetwork s (key skb.saddr) skb.dataLen ans).map fun s => (s, nfAccept) :=
  Option.map_eq_bind.symm

/-- Starts an iteration of the list (C `my_start`); `*pos` is neither read nor written. -/
def myStart (s : Net) (pos : Nat) : Option (Option Loc × Nat) := do
  let v ← s.load s.root
  some (v.next, pos)

/-- The node after a node (C `my_next`); `*pos` is neither read nor written. -/
def myNext (s : Net) (v : Option Loc) (pos : Nat) : Option (Option Loc × Nat) := do
  let n ← s.load v
  some (n.next, pos)

/-- The text `%d` prints. -/
def formatInt (i : Int) : List Char :=
  if i < 0 then '-' :: Nat.toDigits 10 i.natAbs else Nat.toDigits 10 i.natAbs

/-- The line `my_show` prints for a node. -/
def Node.record (n : Node) : List Char :=
  n.addr ++ "\t:\t".toList ++ formatInt n.count.toInt ++ " Packets\t:\t".toList ++
    formatInt (n.dataUsed.toInt.tdiv 1024) ++ " KB\n".toList

/-- Prints one node (C `my_show`). -/
def myShow (s : Net) (v : Option Loc) : Option (List Char) := do
  let n ← s.load v
  some n.record

/-- The loop of `my_write`. -/
def clearLoop : Nat → Net → Option Loc → Option Net
  | 0, _, _ => none
  | _ + 1, s, none => some s
  | n + 1, s, some l => do
    let s ← s.store (some l) fun v => { v with count := 0 }
    let s ← s.store (some l) fun v => { v with dataUsed := 0 }
    let v ← s.load (some l)
    clearLoop n s v.next

/-- Clears the counters of all nodes (C `my_write`) and returns `len` as an `int`. -/
def myWrite (s : Net) (len : BitVec 64) : Option (Net × BitVec 32) := do
  let s ← clearLoop (s.heap.size + 1) s s.root
  some (s, len.setWidth 32)

/-- Frees a list from its end on (C `free`), and the nodes passed to `kmem_cache_free`, in order. A
    node is read (`node->addr`, `node->next`) before the nested call and freed after it. -/
def free : Nat → Net → Option Loc → Option (Net × List Loc)
  | 0, _, _ => none
  | _ + 1, s, none => some (s, [])
  | n + 1, s, some l => do
    let v ← s.load (some l)
    let (s, freed) ← free n s v.next
    let s ← s.kmemCacheFree l
    some (s, freed ++ [l])

/-- The nodes one iteration visits: `my_start`, then `my_next` until it returns `NULL`. -/
def iterate (s : Net) : Nat → Option Loc → Option (List Node)
  | 0, _ => none
  | _ + 1, none => some []
  | n + 1, some l => do
    let v ← s.load (some l)
    let (p, _) ← myNext s (some l) 0
    let vs ← iterate s n p
    some (v :: vs)

/-- A whole iteration of the list. -/
def dump (s : Net) : Option (List Node) := do
  let (p, _) ← myStart s 0
  iterate s (s.heap.size + 1) p

/-- What the module's state is made of: the list, and whether the slab cache, the netfilter hook and
    the file `/proc/net_proc` exist. -/
structure Module where
  net : Net
  cache : Bool
  hooked : Bool
  proc : Bool

/-- The state when the module is inserted. -/
def Module.boot : Module := ⟨⟨.empty, none, none⟩, false, false, false⟩

/-- The statements of `init_packet`, in source order. `proc_create_data` succeeds or fails; the
    other calls succeed. -/
inductive InitOp where
  | cacheCreate                          -- packet_node_cache = kmem_cache_create(...)
  | rootAlloc (l : Loc) (junk : Node)    -- root = kmem_cache_alloc(packet_node_cache, GFP_KERNEL)
  | rootCount                            -- atomic_set(&(root->count), 0)
  | rootDataUsed                         -- atomic64_set(&(root->data_used), 0)
  | rootNext                             -- root->next = NULL
  | rootAddr                             -- strcpy(root->addr, "")
  | tailRoot                             -- tail = root
  | registerHook                         -- nf_register_hook(&nfho)
  | procCreate (ok : Bool)               -- net_file = proc_create_data("net_proc", ...)

/-- The place of a statement in `init_packet`. -/
def InitOp.index : InitOp → Nat
  | cacheCreate => 0
  | rootAlloc _ _ => 1
  | rootCount => 2
  | rootDataUsed => 3
  | rootNext => 4
  | rootAddr => 5
  | tailRoot => 6
  | registerHook => 7
  | procCreate _ => 8

/-- One statement of `init_packet`. -/
def InitOp.exec (m : Module) : InitOp → Option Module
  | cacheCreate => some { m with cache := true }
  | rootAlloc l junk => do
    let (s, p) ← m.net.kmemCacheAlloc (some (l, junk))
    some { m with net := { s with root := p } }
  | rootCount => do
    let s ← m.net.store m.net.root fun v => { v with count := 0 }
    some { m with net := s }
  | rootDataUsed => do
    let s ← m.net.store m.net.root fun v => { v with dataUsed := 0 }
    some { m with net := s }
  | rootNext => do
    let s ← m.net.store m.net.root fun v => { v with next := none }
    some { m with net := s }
  | rootAddr => do
    let s ← m.net.store m.net.root fun v => { v with addr := [] }
    some { m with net := s }
  | tailRoot => some { m with net := { m.net with tail := m.net.root } }
  | registerHook => some { m with hooked := true }
  | procCreate ok => some { m with proc := ok }

/-- The statements of `init_packet` when the root is allocated at `l`. -/
def initPacket (l : Loc) (junk : Node) (ok : Bool) : List InitOp :=
  [.cacheCreate, .rootAlloc l junk, .rootCount, .rootDataUsed, .rootNext, .rootAddr, .tailRoot,
    .registerHook, .procCreate ok]

end KernelModules.Packet
