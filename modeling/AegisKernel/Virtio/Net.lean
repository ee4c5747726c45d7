import AegisKernel.Mm.Definitions
import AegisKernel.Virtio.Queue

/-!
# Virtio — executable model of `kernel/src/virtio_net.c`, and of a device

The state is memory, the allocator of `mm.c`, and the static variables of the
driver; `tx_buffer` and `rx_buffer` have the addresses the linker gave them.
`tx_ready` and `rx_ready` only ever hold 0 and 1.

`virtio_net_send` spins until `tx_ready` is set, and has no result before. In a
run an attempt to send is one look at `tx_ready`: it goes through, or it leaves
everything as it is.

The device is not part of the repository. `transmitted` and `received` are what
the driver is written for: the device takes the next chain of a queue, for a
receive chain stores a header and a packet where its two descriptors say, and
publishes a used element. A packet fits into the buffer the driver offers.

What the code writes to device registers (for `virtio_net_init` see
`Virtio.Handshake`), `net_config` and the console are left out.
-/

namespace AegisKernel.Virtio.Net

open Library

/-- `sizeof(virtio_net_hdr_t)` -/
def HDR_SIZE : Nat := 12

/-- `sizeof(tx_buffer)` and `sizeof(rx_buffer)` -/
def BUFFER_SIZE : Nat := 2048

structure State where
  mem : Memory
  heap : Mm.State
  -- `virtio_net_mmio` is not NULL
  mmio : Bool
  txQueue : Nat
  rxQueue : Nat
  txBuffer : Nat
  rxBuffer : Nat
  txReady : Bool
  rxReady : Bool
  rxLen : Nat

/-! ## Initialisation -/

/-- `virtio_net_queue_setup`: the queue, or NULL, with memory and heap after it. -/
def virtioNetQueueSetup (mem : Memory) (heap : Mm.State) : Nat × Memory × Mm.State :=
  match Mm.mmAlloc heap Mm.AEGIS_PAGE_SIZE Mm.AEGIS_PAGE_SIZE with
  | (none, heap') => (0, mem, heap')
  | (some start, heap') =>
    let q := (heap.heapArea + start).toNat
    (q, clearQueue mem q, heap')

/-- `virtio_net_setup_rx` -/
def virtioNetSetupRx (s : State) : State :=
  if s.rxQueue = 0 then s
  else
    let m₁ := writeDesc s.mem s.rxQueue 0 ⟨s.rxBuffer, HDR_SIZE, VIRTIO_DESC_F_NEXT, 1⟩
    -- the second descriptor leads back to the first
    let m₂ := writeDesc m₁ s.rxQueue 1 ⟨s.rxBuffer + HDR_SIZE, BUFFER_SIZE - HDR_SIZE,
      VIRTIO_DESC_F_WRITE ||| VIRTIO_DESC_F_NEXT, 0⟩
    { s with mem := post m₂ s.rxQueue }

/-- The two calls of `virtio_net_queue_setup` in `virtio_net_init`. -/
def setupQueues (s : State) : State :=
  let tx := virtioNetQueueSetup s.mem s.heap
  let rx := virtioNetQueueSetup tx.2.1 tx.2.2
  { s with mem := rx.2.1, heap := rx.2.2, txQueue := tx.1, rxQueue := rx.1 }

/-- `virtio_net_init`, where `regs` gives the values of the device registers. -/
def virtioNetInit (s : State) (base : Nat) (regs : Nat → Nat) : Int × State :=
  let s₁ := { s with mmio := base ≠ 0 }
  -- the register is compared with its own offset, not with `VIRTIO_MAGIC`
  if regs VIRTIO_MMIO_MAGIC_VALUE ≠ VIRTIO_MMIO_MAGIC_VALUE then (-1, s₁)
  else if regs VIRTIO_MMIO_VERSION ≠ 1 ∧ regs VIRTIO_MMIO_VERSION ≠ 2 then (-1, s₁)
  else if regs VIRTIO_MMIO_DEVICE_ID ≠ 1 then (-1, s₁)
  else if regs VIRTIO_MMIO_VENDOR_ID ≠ 0x1af4 then (-1, s₁)
  else (0, virtioNetSetupRx (setupQueues s₁))

/-! ## The driver's calls -/

/-- `virtio_net_send` with the bytes `data`; nothing while it spins. -/
def virtioNetSend (s : State) (data : Bytes) : Option (Int × State) :=
  if !s.mmio || s.txQueue = 0 then some (-1, s)
  else if data.length > BUFFER_SIZE - HDR_SIZE then some (-1, s)
  else if !s.txReady then none
  else
    -- a header of zeros, but for `num_buffers = 1`
    let m₁ := write s.mem s.txBuffer [0, 0, 0, 0, 0, 0, 0, 0, 0, 0, 1, 0]
    let m₂ := write m₁ (s.txBuffer + HDR_SIZE) data
    let m₃ := writeDesc m₂ s.txQueue 0 ⟨s.txBuffer, HDR_SIZE, VIRTIO_DESC_F_NEXT, 1⟩
    let m₄ := writeDesc m₃ s.txQueue 1 ⟨s.txBuffer + HDR_SIZE, data.length, 0, 0⟩
    some (0, { s with mem := post m₄ s.txQueue, txReady := false })

/-- `virtio_net_recv`: its result, and what it copies to the caller's buffer. -/
def virtioNetRecv (s : State) (maxLen : Nat) : Int × Bytes × State :=
  if !s.mmio || s.rxQueue = 0 then (-1, [], s)
  else if !s.rxReady then (0, [], s)
  else
    let dataLen := if s.rxLen > maxLen then maxLen else s.rxLen
    let data := read s.mem (s.rxBuffer + HDR_SIZE) dataLen
    (dataLen, data, virtioNetSetupRx { s with rxReady := false })

/-- `virtio_net_handle_irq`, where `status` is the interrupt status register. -/
def virtioNetHandleIrq (s : State) (status : Nat) : State :=
  if !s.mmio then s
  else if status = 0 then s
  else
    let s₁ :=
      if s.txQueue ≠ 0 ∧ usedIdx s.mem s.txQueue > 0 then { s with txReady := true } else s
    if s.rxQueue ≠ 0 ∧ usedIdx s.mem s.rxQueue > 0 then
      let idx := (usedIdx s.mem s.rxQueue - 1) % VIRTIO_QUEUE_SIZE
      let len := load s.mem (usedRingAt s.rxQueue idx + 4) 4
      { s₁ with rxLen := if len > HDR_SIZE then len - HDR_SIZE else 0, rxReady := true }
    else s₁

/-! ## The device -/

/-- A packet that fits into `rx_buffer`. -/
abbrev Packet := { p : Bytes // p.length ≤ BUFFER_SIZE - HDR_SIZE }

/-- The device completes the next transmit chain, if there is one. -/
def transmitted (s : State) (len : Nat) : State :=
  if usedIdx s.mem s.txQueue = availIdx s.mem s.txQueue then s
  else { s with mem := publish s.mem s.txQueue (nextHead s.mem s.txQueue) len }

/-- The device fills the next receive chain with a packet, if there is one. -/
def received (s : State) (header : Bytes) (p : Packet) : State :=
  let q := s.rxQueue
  if usedIdx s.mem q = availIdx s.mem q then s
  else
    let head := nextHead s.mem q
    let hdr := readDesc s.mem q head
    let data := readDesc s.mem q hdr.next
    let m₁ := put s.mem hdr.addr HDR_SIZE fun i => header.getD i 0
    let m₂ := write m₁ data.addr p.val
    { s with mem := publish m₂ q head (HDR_SIZE + p.val.length) }

/-! ## Runs -/

inductive Op
  | send (data : Bytes)
  | recv (maxLen : Nat)
  | irq (status : Nat)
  | transmitted (len : Nat)
  | received (header : Bytes) (p : Packet)

def step (s : State) : Op → State
  | .send data =>
    match virtioNetSend s data with
    | none => s
    | some (_, s') => s'
  | .recv maxLen => (virtioNetRecv s maxLen).2.2
  | .irq status => virtioNetHandleIrq s status
  | .transmitted len => transmitted s len
  | .received header p => received s header p

/-- A state with the packets the device has written, and what calls of
`virtio_net_recv` have copied to their callers, with the lengths they asked for. -/
structure Trace where
  state : State
  packets : List Packet
  results : List (Nat × Bytes)

def Trace.step (t : Trace) (op : Op) : Trace where
  state := Net.step t.state op
  packets :=
    match op with
    | .received _ p =>
      if usedIdx t.state.mem t.state.rxQueue = availIdx t.state.mem t.state.rxQueue then t.packets
      else t.packets ++ [p]
    | _ => t.packets
  results :=
    match op with
    | .recv maxLen =>
      let data := (virtioNetRecv t.state maxLen).2.1
      -- only results that are not empty count
      if data = [] then t.results else t.results ++ [(maxLen, data)]
    | _ => t.results

end AegisKernel.Virtio.Net
