import AegisKernel.Mm.Definitions
import AegisKernel.Virtio.Queue

/-!
# Virtio — executable model of `kernel/src/virtio_blk.c`, and of a device

The driver and the device share memory. `heap` is the state of the allocator of
`mm.c`; the two `static virtio_blk_req_t req` have the addresses the linker gave
them. A pointer is an address, and NULL is 0.

The three calls end alike: they wait in a loop for `used.idx` to move, and then
look at `used.ring[0].id`. `Begun` is what a call has done when it comes to that
loop. In the loop the device acts between two evaluations of the condition:
`polls` lists what it completes before each of them, and a call that is still in
the loop when the list ends has no result.

The device is not part of the repository. `complete` is the behaviour the driver
is written for: it takes the next chain of the available ring, transfers a sector
from or to the data buffer, stores the status byte and publishes a used element.

The device registers are read in `virtio_init` only. What the code writes to
them (for `virtio_init` see `Virtio.Handshake`), `blk_config`, the console, and
`virtio_handle_irq`, which changes nothing else, are left out.
-/

namespace AegisKernel.Virtio.Blk

open Library

def VIRTIO_BLK_T_IN : Nat := 0
def VIRTIO_BLK_T_OUT : Nat := 1
def VIRTIO_BLK_T_FLUSH : Nat := 4

def VIRTIO_BLK_S_OK : UInt8 := 0

/-- `sizeof(virtio_blk_req_t)` -/
def REQ_SIZE : Nat := 529

/-- Memory, the static variables of `virtio_blk.c`, and the sectors of the disk. -/
structure State where
  mem : Memory
  heap : Mm.State
  -- `virtio_mmio` is not NULL
  mmio : Bool
  queue : Nat
  writeReq : Nat
  flushReq : Nat
  disk : Nat → Nat → UInt8

/-! ## Initialisation -/

/-- `virtio_queue_setup` -/
def virtioQueueSetup (s : State) : State :=
  match Mm.mmAlloc s.heap Mm.AEGIS_PAGE_SIZE Mm.AEGIS_PAGE_SIZE with
  | (none, heap) => { s with heap, queue := 0 }
  | (some start, heap) =>
    let q := (s.heap.heapArea + start).toNat
    { s with heap, queue := q, mem := clearQueue s.mem q }

/-- `virtio_init`, where `regs` gives the values of the device registers. -/
def virtioInit (s : State) (base : Nat) (regs : Nat → Nat) : Int × State :=
  let s₁ := { s with mmio := base ≠ 0 }
  -- the register is compared with its own offset, not with `VIRTIO_MAGIC`
  if regs VIRTIO_MMIO_MAGIC_VALUE ≠ VIRTIO_MMIO_MAGIC_VALUE then (-1, s₁)
  else if regs VIRTIO_MMIO_VERSION ≠ 1 ∧ regs VIRTIO_MMIO_VERSION ≠ 2 then (-1, s₁)
  else if regs VIRTIO_MMIO_DEVICE_ID ≠ 2 then (-1, s₁)
  else if regs VIRTIO_MMIO_VENDOR_ID ≠ 0x1af4 then (-1, s₁)
  else (0, virtioQueueSetup s₁)

/-! ## Requests -/

/-- `virtio_submit_request` -/
def virtioSubmitRequest (s : State) (req type sector : Nat) : State :=
  let q := s.queue
  let m₁ := store s.mem req 4 type
  let m₂ := store m₁ (req + 4) 4 0
  let m₃ := store m₂ (req + 8) 8 sector
  let m₄ := writeDesc m₃ q 0 ⟨req, REQ_SIZE, VIRTIO_DESC_F_NEXT, 1⟩
  -- the data buffer is descriptors 32 to 63 of the queue itself
  let m₅ := writeDesc m₄ q 1 ⟨q + 512, 512,
    (if type = VIRTIO_BLK_T_OUT then VIRTIO_DESC_F_WRITE else 0) ||| VIRTIO_DESC_F_NEXT, 2⟩
  -- and the status byte is the first byte of `used.ring[0].id`
  let m₆ := writeDesc m₅ q 2 ⟨usedRingAt q 0, 1, VIRTIO_DESC_F_WRITE, 0⟩
  { s with mem := post m₆ q }

/-- A call at the loop it waits in, or already at its end. -/
inductive Begun
  | done (code : Int) (s : State)
  | waiting (s : State)

/-- `virtio_blk_read` up to its loop; `buf` is not used. -/
def virtioBlkRead (s : State) (sector _buf count : Nat) : Begun :=
  if !s.mmio then .done (-1) s
  else if count = 0 then .done 0 s
  else
    match Mm.mmAlloc s.heap 529#64 16#64 with
    | (none, heap) => .done (-1) { s with heap }
    | (some start, heap) =>
      .waiting (virtioSubmitRequest { s with heap } (s.heap.heapArea + start).toNat
        VIRTIO_BLK_T_IN sector)

/-- `virtio_blk_write` up to its loop; `buf` is not used. -/
def virtioBlkWrite (s : State) (sector _buf count : Nat) : Begun :=
  if !s.mmio then .done (-1) s
  else if count = 0 then .done 0 s
  else .waiting (virtioSubmitRequest s s.writeReq VIRTIO_BLK_T_OUT sector)

/-- `virtio_blk_flush` up to its loop. -/
def virtioBlkFlush (s : State) : Begun :=
  if !s.mmio then .done (-1) s
  else .waiting (virtioSubmitRequest s s.flushReq VIRTIO_BLK_T_FLUSH 0)

inductive Call
  | read (sector buf count : Nat)
  | write (sector buf count : Nat)
  | flush

def begin (s : State) : Call → Begun
  | .read sector buf count => virtioBlkRead s sector buf count
  | .write sector buf count => virtioBlkWrite s sector buf count
  | .flush => virtioBlkFlush s

/-! ## The device -/

/-- What the device reports for a request. -/
structure Completion where
  status : UInt8
  len : Nat

/-- A sector from or to the buffer at `buf`. -/
def transfer (s : State) (type sector buf : Nat) : Memory × (Nat → Nat → UInt8) :=
  if type = VIRTIO_BLK_T_IN then (put s.mem buf 512 (s.disk sector), s.disk)
  else if type = VIRTIO_BLK_T_OUT then
    (s.mem, Function.update s.disk sector fun i => s.mem (buf + i))
  else (s.mem, s.disk)

/-- The device completes the next request, if there is one. -/
def complete (s : State) (c : Completion) : State :=
  let q := s.queue
  if usedIdx s.mem q = availIdx s.mem q then s
  else
    let head := nextHead s.mem q
    let header := readDesc s.mem q head
    let data := readDesc s.mem q header.next
    let status := readDesc s.mem q data.next
    let type := load s.mem header.addr 4
    let sector := load s.mem (header.addr + 8) 8
    let (m₁, disk) := transfer s type sector data.addr
    let m₂ := put m₁ status.addr 1 fun _ => c.status
    { s with mem := publish m₂ q head c.len, disk }

/-! ## Calls -/

/-- `while (used.idx == avail.idx - 1)`, compared as `int`. -/
def wait (s : State) : List (List Completion) → Option State
  | [] => none
  | cs :: polls =>
    let s₁ := cs.foldl complete s
    if (usedIdx s₁.mem s₁.queue : Int) = availIdx s₁.mem s₁.queue - 1 then wait s₁ polls
    else some s₁

/-- A call with its loop and the test of `used.ring[0].id` after it. -/
def Begun.finish (polls : List (List Completion)) : Begun → Option (Int × State)
  | .done code s => some (code, s)
  | .waiting s =>
    (wait s polls).map fun s' =>
      (if load s'.mem (usedRingAt s'.queue 0) 4 ≠ 0 then -1 else 0, s')

def exec (s : State) (c : Call) (polls : List (List Completion)) : Option (Int × State) :=
  (begin s c).finish polls

/-! ## Histories -/

/-- A call; the device between two calls; a store of the caller to its own memory. -/
inductive Op
  | call (c : Call) (polls : List (List Completion))
  | device (c : Completion)
  | caller (a : Nat) (bs : Bytes)

/-- There is no next state while a call is in its loop. -/
def step : Option State → Op → Option State
  | none, _ => none
  | some s, .call c polls => (exec s c polls).map Prod.snd
  | some s, .device c => some (complete s c)
  | some s, .caller a bs => some { s with mem := write s.mem a bs }

end AegisKernel.Virtio.Blk
