import KernelModules.Base.Run
import KernelModules.Kernel

/-!
# The netlink module `netlink_module.c`

The module answers every message that a process sends to its netlink socket with a broadcast to a
multicast group. `State` is the module while it is loaded, with the sockets of its protocol:
processes bind sockets, join and leave groups, receive, close, and send messages, which
`hello_nl_recv_msg` handles.

A message is a list of bytes, as the process has written them: nothing checks that there is a
header. A read behind the end of a message has no result (`none`). What the kernel provides is given
with its own checks:

* `netlinkBind`, `addMembership`: `bind` takes the groups 1 to 32 from a mask, and
  `NETLINK_ADD_MEMBERSHIP` takes the groups up to the number of groups of the protocol, which
  `netlink_kernel_create` sets to at least 32.
* `nlmsgNew`, `nlmsgPut`: a buffer with room for a message, and the header, with zeros behind the
  payload up to a multiple of four.
* `netlinkBroadcast`: a copy for every member of the group, except for the socket with the given
  port. A socket takes a copy if its queue has room, which comes with the event. Sockets that ask
  for the error `-ENOBUFS` (`NETLINK_BROADCAST_ERROR`) are left out.

C → Lean naming: `hello_nl_recv_msg` → `helloNlRecvMsg`, `nlmsg_new` / `nlmsg_put` / `nlmsg_data` →
`nlmsgNew` / `nlmsgPut` / `nlmsgData`, `netlink_kernel_create` → `netlinkKernelCreate`,
`MULTICAST_GROUP` → `multicastGroup`.
-/

namespace KernelModules.Netlink

/-- `-ESRCH` -/
def eSrch : Int := -3

/-- `-EADDRINUSE` -/
def eAddrInUse : Int := -98

/-- C `MULTICAST_GROUP` -/
def multicastGroup : Nat := 0x21

/-- C `NLMSG_HDRLEN` -/
def nlmsgHdrLen : Nat := 16

/-- C `NLMSG_DONE` -/
def nlmsgDone : BitVec 16 := 3

/-- C `NLMSG_ALIGN` -/
def nlmsgAlign (len : Nat) : Nat := (len + 3) / 4 * 4

/-! ## Messages -/

/-- C `struct nlmsghdr` -/
structure NlMsgHdr where
  nlmsgLen : BitVec 32
  nlmsgType : BitVec 16
  nlmsgFlags : BitVec 16
  nlmsgSeq : BitVec 32
  nlmsgPid : BitVec 32
  deriving Repr, DecidableEq

/-- The `n` bytes of a number, the lowest one first. -/
def bytesOf (n : Nat) {w : Nat} (x : BitVec w) : List UInt8 :=
  (List.range n).map fun i => UInt8.ofBitVec ((x >>> (8 * i)).setWidth 8)

/-- The number with these bytes, the lowest one first. -/
def ofBytes (w : Nat) : List UInt8 → BitVec w
  | [] => 0
  | b :: bs => b.toBitVec.setWidth w ||| ofBytes w bs <<< 8

/-- The header in memory. -/
def NlMsgHdr.bytes (h : NlMsgHdr) : List UInt8 :=
  bytesOf 4 h.nlmsgLen ++ bytesOf 2 h.nlmsgType ++ bytesOf 2 h.nlmsgFlags ++ bytesOf 4 h.nlmsgSeq ++
    bytesOf 4 h.nlmsgPid

/-- A number of `n` bytes at an offset of a message. -/
def readAt (data : List UInt8) (off n : Nat) (w : Nat) : Option (BitVec w) :=
  if off + n ≤ data.length then some (ofBytes w (slice data off (off + n))) else none

/-- The member `nlmsg_pid` of the header of a message. -/
def nlmsgPid (data : List UInt8) : Option (BitVec 32) := readAt data 12 4 32

/-- What is behind the header (C `nlmsg_data`). -/
def nlmsgData (data : List UInt8) : List UInt8 := data.drop nlmsgHdrLen

/-- The string at the beginning of the payload. Without a NUL it is read beyond the message. -/
def payloadString (data : List UInt8) : Option (List UInt8) :=
  if 0 ∈ nlmsgData data then some (cstring (nlmsgData data)) else none

/-- A buffer for a message with a payload of `payload` bytes (C `nlmsg_new`), unless the allocation
    fails. Its bytes are not set. -/
def nlmsgNew (payload : Nat) (memory : Option (Nat → UInt8)) :
    Option (Buf UInt8 (nlmsgAlign (nlmsgHdrLen + payload))) :=
  memory.map fun junk => ⟨(List.range _).map junk, by rw [List.length_map, List.length_range]⟩

/-- Writes the header, and zeros behind the payload (C `nlmsg_put`). A buffer that is too small
    gives `NULL`. -/
def nlmsgPut {n : Nat} (skb : Buf UInt8 n) (portid seq : BitVec 32) (type : BitVec 16)
    (payload : Nat) (flags : BitVec 16) : Option (Buf UInt8 n) :=
  if n < nlmsgAlign (nlmsgHdrLen + payload) then none else
    let size := nlmsgHdrLen + payload
    let hdr : NlMsgHdr := ⟨BitVec.ofNat 32 size, type, flags, seq, portid⟩
    some ((skb.overlay 0 hdr.bytes).overlay size (List.replicate (nlmsgAlign size - size) 0))

/-! ## Sockets -/

/-- A socket of a process: its port, the groups it is a member of, and the messages it has not
    read. -/
structure Sock where
  portid : BitVec 32
  groups : List Nat
  queue : List (List UInt8)
  deriving Repr, DecidableEq

/-- The number of groups of a protocol (C `netlink_kernel_create`). -/
def netlinkKernelCreate (cfgGroups : Nat) : Nat := if cfgGroups < 32 then 32 else cfgGroups

/-- The groups of a mask: bit 0 is group 1. -/
def maskGroups (mask : BitVec 32) : List Nat :=
  ((List.range 32).filter fun i => mask.getLsbD i).map (· + 1)

/-- A new socket. A port is bound only once. -/
def netlinkBind (socks : List Sock) (portid mask : BitVec 32) : List Sock × Int :=
  if portid ∈ socks.map Sock.portid then (socks, eAddrInUse) else
    (socks ++ [⟨portid, maskGroups mask, []⟩], 0)

/-- Changes the socket with a port. -/
def update (socks : List Sock) (portid : BitVec 32) (f : Sock → Sock) : List Sock :=
  socks.map fun s => if s.portid = portid then f s else s

/-- The socket option `NETLINK_ADD_MEMBERSHIP`. -/
def addMembership (ngroups : Nat) (socks : List Sock) (portid : BitVec 32) (group : Nat) :
    List Sock × Int :=
  if group = 0 ∨ ngroups ≤ group - 1 then (socks, eInval) else
    (update socks portid fun s => { s with groups := group :: s.groups }, 0)

/-- The socket option `NETLINK_DROP_MEMBERSHIP`. -/
def dropMembership (ngroups : Nat) (socks : List Sock) (portid : BitVec 32) (group : Nat) :
    List Sock × Int :=
  if group = 0 ∨ ngroups ≤ group - 1 then (socks, eInval) else
    (update socks portid fun s => { s with groups := s.groups.filter (· ≠ group) }, 0)

/-- Whether a broadcast reaches a socket. -/
def Sock.takes (portid : BitVec 32) (group : Nat) (room : BitVec 32 → Bool) (s : Sock) : Bool :=
  s.portid ≠ portid && s.groups.contains group && room s.portid

/-- A message to all members of a group (C `netlink_broadcast`). -/
def netlinkBroadcast (socks : List Sock) (msg : List UInt8) (portid : BitVec 32) (group : Nat)
    (room : BitVec 32 → Bool) : List Sock × Int :=
  (socks.map fun s => if s.takes portid group room then { s with queue := s.queue ++ [msg] } else s,
    if socks.any (Sock.takes portid group room) then 0 else eSrch)

/-! ## The module -/

/-- What the module logs. -/
inductive Line where
  | entering                          -- Entering: %s
  | payload (msg : List UInt8)        -- Netlink received msg payload: %s
  | sendingBack (pid : BitVec 32)     -- Sending data back to task no. %d
  | failedToAllocate                  -- Failed to allocate new skb
  | noMessageHeader                   -- nlmsg_put() : No netlink message header
  | errorSending (res : Int)          -- Error while sending back to user : %d
  deriving Repr, DecidableEq

/-- The string `"Hello from kernel"`. -/
def msg : List UInt8 :=
  [72, 101, 108, 108, 111, 32, 102, 114, 111, 109, 32, 107, 101, 114, 110, 101, 108]

/-- C `hello_nl_recv_msg` -/
def helloNlRecvMsg (socks : List Sock) (data : List UInt8) (memory : Option (Nat → UInt8))
    (room : BitVec 32 → Bool) : Option (List Sock × List Line) := do
  let msgSize := msg.length
  let payload ← payloadString data
  let pid ← nlmsgPid data
  let lines := [.entering, .payload payload, .sendingBack pid]
  match nlmsgNew msgSize memory with
  | none => some (socks, lines ++ [.failedToAllocate])
  | some skbOut =>
    match nlmsgPut skbOut 0 1 nlmsgDone msgSize 0 with
    | none => some (socks, lines ++ [.noMessageHeader])
    | some skbOut =>
      -- strncpy of the 17 characters, without a NUL
      let skbOut := skbOut.overlay nlmsgHdrLen (msg.take msgSize)
      let (socks, res) := netlinkBroadcast socks skbOut.toList pid multicastGroup room
      some (socks, lines ++ if res < 0 then [.errorSending res] else [])

/-- The loaded module: the sockets of its protocol, and the log. -/
structure State where
  ngroups : Nat
  socks : List Sock
  log : List Line

/-- After `hello_init`: `netlink_cfg` does not set the number of groups. -/
def State.start : State := ⟨netlinkKernelCreate 0, [], []⟩

/-- What processes do. A message comes with the answer of the allocation, and with the room in the
    queues. -/
inductive Event where
  | bind (portid mask : BitVec 32)
  | addMembership (portid : BitVec 32) (group : Nat)
  | dropMembership (portid : BitVec 32) (group : Nat)
  | send (data : List UInt8) (memory : Option (Nat → UInt8)) (room : BitVec 32 → Bool)
  | recv (portid : BitVec 32)
  | close (portid : BitVec 32)

/-- One step. -/
def step (s : State) : Event → Option State
  | .bind portid mask => some { s with socks := (netlinkBind s.socks portid mask).1 }
  | .addMembership portid group =>
    some { s with socks := (addMembership s.ngroups s.socks portid group).1 }
  | .dropMembership portid group =>
    some { s with socks := (dropMembership s.ngroups s.socks portid group).1 }
  | .send data memory room => do
    let (socks, lines) ← helloNlRecvMsg s.socks data memory room
    some { s with socks := socks, log := s.log ++ lines }
  | .recv portid =>
    some { s with socks := update s.socks portid fun k => { k with queue := k.queue.tail } }
  | .close portid => some { s with socks := s.socks.filter fun k => k.portid ≠ portid }

end KernelModules.Netlink
