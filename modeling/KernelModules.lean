import KernelModules.Base.Run
import KernelModules.Base.Calls
import KernelModules.Base.Rmw
import KernelModules.Base.SpinLock
import KernelModules.Base.Heap
import KernelModules.Base.Ring
import KernelModules.Base.ListHead
import KernelModules.Base.Hooks
import KernelModules.Base.Ledger
import KernelModules.Base.Setup
import KernelModules.Base.SeqFile
import KernelModules.Base.Bytes
import KernelModules.Base.ByteFile
import KernelModules.Base.Digits
import KernelModules.Base.Runs
import KernelModules.Base.Scanf
import KernelModules.Kernel
import KernelModules.Packet.Addr
import KernelModules.Packet.Source
import KernelModules.Packet.Rep
import KernelModules.Packet.Teardown
import KernelModules.Packet.Traversal
import KernelModules.Packet.Publish
import KernelModules.Packet.Keys
import KernelModules.Packet.Accounting
import KernelModules.Packet.Counters
import KernelModules.Packet.Locking
import KernelModules.Packet.SeqRead
import KernelModules.Packet.Lifecycle
import KernelModules.Netfilter.Source
import KernelModules.Netfilter.Chain
import KernelModules.Netfilter.Globals
import KernelModules.Keylog.Source
import KernelModules.Keylog.Steps
import KernelModules.Keylog.Delivery
import KernelModules.Keylog.Sessions
import KernelModules.Keylog.Indices
import KernelModules.Keylog.Unload
import KernelModules.Keylog.Idle
import KernelModules.Keylog.Handlers
import KernelModules.Keylog.Ownership
import KernelModules.KernBuff.Source
import KernelModules.KernBuff.Verdict
import KernelModules.KernBuff.Terminator
import KernelModules.KernBuff.Writers
import KernelModules.Vram.Source
import KernelModules.Vram.Transfer
import KernelModules.Vram.Faults
import KernelModules.Vram.Clamp
import KernelModules.Vram.Setup
import KernelModules.Simacc.Source
import KernelModules.Simacc.History
import KernelModules.Simacc.Bounds
import KernelModules.Simacc.Runs
import KernelModules.SysfsExample.Source
import KernelModules.SysfsExample.Foo
import KernelModules.SysfsExample.Lifetime
import KernelModules.SysfsExample.Ident
import KernelModules.Mouse.Source
import KernelModules.Mouse.Polling
import KernelModules.Vfs.Source
import KernelModules.Vfs.Runs
import KernelModules.Debugfs.Sum
import KernelModules.Lifecycle.Drivers
import KernelModules.Netlink.Source
import KernelModules.Netlink.Replies
import KernelModules.LinkedList.Source
import KernelModules.LinkedList.Reload
import KernelModules.Tasks.Source
import KernelModules.Tasks.Iterator
import KernelModules.Tasks.SeqRead
import KernelModules.Tasks.Tree
import KernelModules.Chardev.Source
import KernelModules.Chardev.Clients
import KernelModules.Chardev.Footprint
import KernelModules.Kobjects.Source
import KernelModules.Kobjects.Attributes
import KernelModules.Kobjects.Memory
