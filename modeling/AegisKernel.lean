import AegisKernel.Library.Runs
import AegisKernel.Library.Links
import AegisKernel.Sched.Definitions
import AegisKernel.Sched.Queues
import AegisKernel.Sched.Chains
import AegisKernel.Sched.Agreement
import AegisKernel.Library.Unwinding
import AegisKernel.Ipc.Definitions
import AegisKernel.Ipc.Mailboxes
import AegisKernel.Ipc.Isolation
import AegisKernel.Library.Words
import AegisKernel.Mm.Definitions
import AegisKernel.Mm.Heap
import AegisKernel.Mm.Paging
import AegisKernel.Irq.Definitions
import AegisKernel.Irq.Dispatch
import AegisKernel.Library.Bytes
import AegisKernel.Ramdisk.Definitions
import AegisKernel.Ramdisk.RoundTrip
import AegisKernel.Vfs.Definitions
import AegisKernel.Vfs.Table
import AegisKernel.Vfs.Namespace
import AegisKernel.Vfs.Reuse
import AegisKernel.Library.Stamps
import AegisKernel.Vfs.Storable
import AegisKernel.Library.Ring
import AegisKernel.Keyboard.Definitions
import AegisKernel.Keyboard.Buffer
import AegisKernel.Library.Latest
import AegisKernel.Keyboard.Modifiers
import AegisKernel.Keyboard.Text
import AegisKernel.Proc.Definitions
import AegisKernel.Proc.Slots
import AegisKernel.Proc.Exhaustion
import AegisKernel.Proc.Unknown
import AegisKernel.Proc.Arguments
import AegisKernel.Ipc.Layout
import AegisKernel.Vfs.Messages
import AegisKernel.Vfs.Server
import AegisKernel.Ramdisk.CBuilder
import AegisKernel.Sched.Arrival
import AegisKernel.Sched.RoundRobin
import AegisKernel.Sched.PriorityOrder
import AegisKernel.Vfs.Exact
import AegisKernel.Library.Cuts
import AegisKernel.Vfs.Truncate
import AegisKernel.Library.Prefixes
import AegisKernel.Library.Stores
import AegisKernel.Vfs.Listing
import AegisKernel.Vfs.Strncpy
import AegisKernel.Sched.Sane
import AegisKernel.Sched.Sleep
import AegisKernel.Library.Checked
import AegisKernel.Sched.Bounds
import AegisKernel.Sched.TaskSlots
import AegisKernel.Mm.Failure
import AegisKernel.Mm.Encoding
import AegisKernel.Library.Cells
import AegisKernel.Mm.VmaList
import AegisKernel.Mm.VmaOverlap
import AegisKernel.Library.Spans
import AegisKernel.Library.Overlay
import AegisKernel.Ramdisk.Pointers
import AegisKernel.Ramdisk.Bridge
import AegisKernel.Ramdisk.Lookup
import AegisKernel.Ramdisk.Rejected
import AegisKernel.Elf.Definitions
import AegisKernel.Elf.Segments
import AegisKernel.Elf.Image
import AegisKernel.Elf.Loading
import AegisKernel.Elf.Bounds
import AegisKernel.Elf.Frame
import AegisKernel.Elf.Exhaustion
import AegisKernel.Library.CStrings
import AegisKernel.Shell.Definitions
import AegisKernel.Shell.LineEditing
import AegisKernel.Shell.Tokens
import AegisKernel.Console.Definitions
import AegisKernel.Console.Printers
import AegisKernel.Library.Memory
import AegisKernel.Virtio.Queue
import AegisKernel.Virtio.Blk
import AegisKernel.Virtio.BlkRequests
import AegisKernel.Virtio.BlkWaiting
import AegisKernel.Virtio.BlkData
import AegisKernel.Virtio.BlkStatus
import AegisKernel.Virtio.BlkExhaustion
import AegisKernel.Virtio.Net
import AegisKernel.Virtio.NetSteps
import AegisKernel.Virtio.NetTransmit
import AegisKernel.Virtio.NetReceive
import AegisKernel.Virtio.Chains
import AegisKernel.Virtio.Handshake
import AegisKernel.Library.Flow
import AegisKernel.Sched.Service
import AegisKernel.Sched.Lost
import AegisKernel.Sched.Starvation
import AegisKernel.Elf.Position
import AegisKernel.Boot.Definitions
import AegisKernel.Boot.Servers
import AegisKernel.Irq.Return
import AegisKernel.Irq.Transparency
import AegisKernel.Irq.Gates
import AegisKernel.Irq.Timer
import AegisKernel.Vfs.FileSystem
import AegisKernel.Vfs.PathIsolation
import AegisKernel.Proc.History
import AegisKernel.Virtio.BlkClipboard
import AegisKernel.Virtio.NetWire
import AegisKernel.Mm.BootTable
import AegisKernel.Library.Terminal
import AegisKernel.Shell.Screen
import AegisKernel.Keyboard.Typewriter
import AegisKernel.Library.Forest
import AegisKernel.Mm.Spaces
import AegisKernel.Mm.AddressSpaces
import AegisKernel.Mm.SpaceIsolation
import AegisKernel.Mm.Manager
import AegisKernel.Mm.ManagerIsolation
import AegisKernel.Ramdisk.Builders
import AegisKernel.Library.Copies
import AegisKernel.Elf.Copying
import AegisKernel.Sched.Contexts
