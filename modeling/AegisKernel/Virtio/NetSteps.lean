import AegisKernel.Mm.Heap
import AegisKernel.Virtio.Net

/-!
# Virtio — steps of the network driver and its device

Sending and receiving use separate queues and buffers, and no step on one side
touches the memory of the other.

* `TxArea`, `RxArea` — the memory of the two sides.
* `Inv` — where the queues and buffers lie, and what the receive queue holds;
  every step keeps it.
* `send_cases`, `recv_ready`, `irq_eq`, `transmitted_cases`, `received_cases` —
  everything a step can do.
* `init_spec` — the state `virtio_net_init` leaves.
-/

namespace AegisKernel.Virtio.Net

open Library

-- ---------------------------------------------------------------------------
-- Placement
-- ---------------------------------------------------------------------------

def TxArea (s : State) (x : Nat) : Prop :=
  (s.txQueue ≤ x ∧ x < s.txQueue + 4096) ∨ (s.txBuffer ≤ x ∧ x < s.txBuffer + 2048)

def RxArea (s : State) (x : Nat) : Prop :=
  (s.rxQueue ≤ x ∧ x < s.rxQueue + 4096) ∨ (s.rxBuffer ≤ x ∧ x < s.rxBuffer + 2048)

/-- Two blocks that do not overlap. -/
def Disjoint (a n b k : Nat) : Prop := a + n ≤ b ∨ b + k ≤ a

/-- Where the queues and buffers lie. -/
structure Placed (txQueue rxQueue txBuffer rxBuffer : Nat) : Prop where
  tx_pos : txQueue ≠ 0
  rx_pos : rxQueue ≠ 0
  queues : Disjoint txQueue 4096 rxQueue 4096
  buffers : Disjoint txBuffer 2048 rxBuffer 2048
  tx_tx : Disjoint txQueue 4096 txBuffer 2048
  tx_rx : Disjoint txQueue 4096 rxBuffer 2048
  rx_tx : Disjoint rxQueue 4096 txBuffer 2048
  rx_rx : Disjoint rxQueue 4096 rxBuffer 2048
  rx_buffer : rxBuffer + 2048 ≤ 2 ^ 64

/-- Every slot of the receive ring holds the head 0, and descriptors 0 and 1 lead
to `rx_buffer`. -/
structure Inv (s : State) : Prop where
  mmio : s.mmio = true
  placed : Placed s.txQueue s.rxQueue s.txBuffer s.rxBuffer
  ring : ∀ i < 128, availRing s.mem s.rxQueue i = 0
  header : (readDesc s.mem s.rxQueue 0).addr = s.rxBuffer
  header_next : (readDesc s.mem s.rxQueue 0).next = 1
  data : (readDesc s.mem s.rxQueue 1).addr = s.rxBuffer + HDR_SIZE

/-- The two sides have no memory in common. -/
theorem Inv.apart {s : State} (h : Inv s) (x : Nat) : TxArea s x → ¬ RxArea s x := by
  have hq := h.placed.queues
  have hb := h.placed.buffers
  have htr := h.placed.tx_rx
  have hrt := h.placed.rx_tx
  unfold Disjoint at hq hb htr hrt
  unfold TxArea RxArea
  omega

section Frames

variable {s : State} {m : Memory}

/-- The invariant says nothing of memory but the ring of heads and two descriptors. -/
theorem Inv.congr (h : Inv s)
    (hring : ∀ i < 128, availRing m s.rxQueue i = availRing s.mem s.rxQueue i)
    (hdesc : ∀ i < 2, readDesc m s.rxQueue i = readDesc s.mem s.rxQueue i) :
    Inv { s with mem := m } := by
  refine ⟨h.mmio, h.placed, fun i hi => (hring i hi).trans (h.ring i hi), ?_, ?_, ?_⟩
  · exact (congrArg Desc.addr (hdesc 0 (by decide))).trans h.header
  · exact (congrArg Desc.next (hdesc 0 (by decide))).trans h.header_next
  · exact (congrArg Desc.addr (hdesc 1 (by decide))).trans h.data

/-- It says nothing of the flags. -/
theorem Inv.flags (h : Inv s) (txReady rxReady : Bool) (rxLen : Nat) :
    Inv { s with txReady, rxReady, rxLen } :=
  ⟨h.mmio, h.placed, h.ring, h.header, h.header_next, h.data⟩

/-- A step of the transmit side. -/
theorem Inv.of_txArea (h : Inv s) (hm : Within (TxArea s) s.mem m) (txReady : Bool) :
    Inv { s with mem := m, txReady } ∧ availIdx m s.rxQueue = availIdx s.mem s.rxQueue ∧
      usedIdx m s.rxQueue = usedIdx s.mem s.rxQueue := by
  have hpage : ∀ x, s.rxQueue ≤ x → x < s.rxQueue + 4096 → ¬ TxArea s x :=
    fun x hlo hhi htx => h.apart x htx (.inl ⟨hlo, hhi⟩)
  have hdesc : ∀ i < 2, readDesc m s.rxQueue i = readDesc s.mem s.rxQueue i := by
    intro i hi
    refine readDesc_of_within hm fun x hx => ?_
    unfold DescArea at hx
    exact hpage x (by omega) (by omega)
  have havail : ∀ x, AvailArea s.rxQueue x → ¬ TxArea s x := by
    intro x hx
    unfold AvailArea at hx
    exact hpage x (by omega) (by omega)
  have hinv := h.congr (fun i hi => availRing_of_within hm havail hi) hdesc
  refine ⟨hinv.flags txReady s.rxReady s.rxLen, availIdx_of_within hm havail, ?_⟩
  refine usedIdx_of_within hm fun x hx => ?_
  unfold UsedArea at hx
  exact hpage x (by omega) (by omega)

/-- A step of the receive side. -/
theorem Inv.of_rxArea (h : Inv s) (hm : Within (RxArea s) s.mem m) :
    availIdx m s.txQueue = availIdx s.mem s.txQueue ∧
      usedIdx m s.txQueue = usedIdx s.mem s.txQueue := by
  have hpage : ∀ x, s.txQueue ≤ x → x < s.txQueue + 4096 → ¬ RxArea s x :=
    fun x hlo hhi => h.apart x (.inl ⟨hlo, hhi⟩)
  constructor
  · refine availIdx_of_within hm fun x hx => ?_
    unfold AvailArea at hx
    exact hpage x (by omega) (by omega)
  · refine usedIdx_of_within hm fun x hx => ?_
    unfold UsedArea at hx
    exact hpage x (by omega) (by omega)

end Frames

-- ---------------------------------------------------------------------------
-- Sending
-- ---------------------------------------------------------------------------

section Send

variable {s : State}

/-- What a send that is not refused and does not spin stores. -/
theorem send_ready (hmmio : s.mmio = true) (htx : s.txQueue ≠ 0) {data : Bytes}
    (hlen : data.length ≤ BUFFER_SIZE - HDR_SIZE) (hready : s.txReady = true) :
    ∃ m, virtioNetSend s data = some (0, { s with mem := post m s.txQueue, txReady := false }) ∧
      Within (fun x => (s.txQueue ≤ x ∧ x < s.txQueue + 32) ∨
        (s.txBuffer ≤ x ∧ x < s.txBuffer + 2048)) s.mem m ∧
      readDesc m s.txQueue 0 = Desc.stored ⟨s.txBuffer, HDR_SIZE, VIRTIO_DESC_F_NEXT, 1⟩ ∧
      readDesc m s.txQueue 1 = Desc.stored ⟨s.txBuffer + HDR_SIZE, data.length, 0, 0⟩ := by
  unfold virtioNetSend
  rw [if_neg (by simp [hmmio, htx]), if_neg (by omega), if_neg (by simp [hready])]
  unfold BUFFER_SIZE HDR_SIZE at *
  refine ⟨_, rfl, ?_, ?_, readDesc_writeDesc⟩
  · -- the two descriptors, and before them header and data
    refine Within.trans ?_ ((within_writeDesc _ _ 1 _).mono fun x hx => .inl ?_)
    · refine Within.trans ?_ ((within_writeDesc _ _ 0 _).mono fun x hx => .inl ?_)
      · refine ((Within.refl _ _).put fun i hi => .inr ?_).put fun i hi => .inr ?_
        · omega
        · have hi : i < 12 := hi
          omega
      · unfold DescArea at hx
        omega
    · unfold DescArea at hx
      omega
  · rw [readDesc_writeDesc_of_ne (by decide), readDesc_writeDesc]

/-- An attempt to send changes nothing, or it fills `tx_buffer` and posts it. -/
theorem send_cases (h : Inv s) (data : Bytes) :
    step s (.send data) = s ∨
      s.txReady = true ∧ ∃ m, step s (.send data) = { s with mem := m, txReady := false } ∧
        Within (TxArea s) s.mem m ∧
        availIdx m s.txQueue = (availIdx s.mem s.txQueue + 1) % 65536 ∧
        usedIdx m s.txQueue = usedIdx s.mem s.txQueue := by
  have hspin : virtioNetSend s data = none → step s (.send data) = s := by
    intro hnone
    unfold step
    dsimp only
    rw [hnone]
  have hdone : ∀ code s', virtioNetSend s data = some (code, s') → step s (.send data) = s' := by
    intro code s' hsome
    unfold step
    dsimp only
    rw [hsome]
  have hon : ¬ (!s.mmio || decide (s.txQueue = 0)) = true := by simp [h.mmio, h.placed.tx_pos]
  -- too long for the buffer
  by_cases hlong : data.length > BUFFER_SIZE - HDR_SIZE
  · refine .inl (hdone (-1) s ?_)
    rw [virtioNetSend, if_neg hon, if_pos hlong]
  have hlen : data.length ≤ BUFFER_SIZE - HDR_SIZE := Nat.le_of_not_lt hlong
  by_cases hready : s.txReady = true
  rotate_left
  · -- one more round of the loop
    refine .inl (hspin ?_)
    rw [virtioNetSend, if_neg hon, if_neg hlong, if_pos (by simp [hready])]
  obtain ⟨m, hsend, hwithin, -, -⟩ := send_ready h.mmio h.placed.tx_pos hlen hready
  have htx := h.placed.tx_tx
  unfold Disjoint at htx
  refine .inr ⟨hready, post m s.txQueue, hdone 0 _ hsend, ?_, ?_, ?_⟩
  · refine Within.trans (hwithin.mono fun x hx => ?_)
      ((within_post m s.txQueue).mono fun x hx => .inl ?_)
    · unfold TxArea
      omega
    · unfold AvailArea at hx
      omega
  · rw [availIdx_post, availIdx_of_within hwithin fun x hx => by unfold AvailArea at hx; omega]
  · rw [usedIdx_post, usedIdx_of_within hwithin fun x hx => by unfold UsedArea at hx; omega]

end Send

-- ---------------------------------------------------------------------------
-- Re-arming and receiving
-- ---------------------------------------------------------------------------

section Recv

variable {s : State}

/-- `virtio_net_setup_rx` fills in two descriptors and posts them. -/
theorem setupRx_spec (hrx : s.rxQueue ≠ 0) :
    ∃ m, virtioNetSetupRx s = { s with mem := post m s.rxQueue } ∧
      Within (fun x => s.rxQueue ≤ x ∧ x < s.rxQueue + 32) s.mem m ∧
      readDesc m s.rxQueue 0 = Desc.stored ⟨s.rxBuffer, HDR_SIZE, VIRTIO_DESC_F_NEXT, 1⟩ ∧
      readDesc m s.rxQueue 1 = Desc.stored ⟨s.rxBuffer + HDR_SIZE, BUFFER_SIZE - HDR_SIZE,
        VIRTIO_DESC_F_WRITE ||| VIRTIO_DESC_F_NEXT, 0⟩ := by
  unfold virtioNetSetupRx
  rw [if_neg hrx]
  refine ⟨_, rfl, ?_, ?_, readDesc_writeDesc⟩
  · refine Within.trans ((within_writeDesc _ _ 0 _).mono fun x hx => ?_)
      ((within_writeDesc _ _ 1 _).mono fun x hx => ?_)
    · unfold DescArea at hx
      omega
    · unfold DescArea at hx
      omega
  · rw [readDesc_writeDesc_of_ne (by decide), readDesc_writeDesc]

/-- What re-arming does: one more chain is posted, in the descriptors and the
available ring of the receive queue. -/
theorem setupRx_cases (hmmio : s.mmio = true)
    (hplaced : Placed s.txQueue s.rxQueue s.txBuffer s.rxBuffer)
    (hring : ∀ i < 128, availRing s.mem s.rxQueue i = 0) :
    ∃ m, virtioNetSetupRx s = { s with mem := m } ∧ Inv { s with mem := m } ∧
      Within (fun x => s.rxQueue ≤ x ∧ x < s.rxQueue + 2308) s.mem m ∧
      availIdx m s.rxQueue = (availIdx s.mem s.rxQueue + 1) % 65536 ∧
      usedIdx m s.rxQueue = usedIdx s.mem s.rxQueue := by
  obtain ⟨m, heq, hwithin, h₀, h₁⟩ := setupRx_spec hplaced.rx_pos
  have hlow := hplaced.rx_buffer
  have havail : ∀ x, AvailArea s.rxQueue x → ¬ (s.rxQueue ≤ x ∧ x < s.rxQueue + 32) := by
    intro x hx
    unfold AvailArea at hx
    omega
  -- descriptors and available ring are below the used ring
  have hpost : Within (fun x => s.rxQueue ≤ x ∧ x < s.rxQueue + 2308) s.mem (post m s.rxQueue) := by
    refine Within.trans (hwithin.mono fun x hx => ?_)
      ((within_post m s.rxQueue).mono fun x hx => ?_)
    · omega
    · unfold AvailArea at hx
      omega
  have hused : usedIdx (post m s.rxQueue) s.rxQueue = usedIdx s.mem s.rxQueue :=
    usedIdx_of_within hpost fun x hx => by unfold UsedArea at hx; omega
  refine ⟨post m s.rxQueue, heq, ⟨hmmio, hplaced, fun i hi => ?_, ?_, ?_, ?_⟩, hpost, ?_, hused⟩
  · show availRing (post m s.rxQueue) s.rxQueue i = 0
    rw [availRing_post hi, availRing_of_within hwithin havail hi, hring i hi, ite_self]
  · show (readDesc (post m s.rxQueue) s.rxQueue 0).addr = s.rxBuffer
    rw [readDesc_post (by decide), h₀]
    show s.rxBuffer % 2 ^ 64 = s.rxBuffer
    exact Nat.mod_eq_of_lt (by omega)
  · show (readDesc (post m s.rxQueue) s.rxQueue 0).next = 1
    rw [readDesc_post (by decide), h₀]
    rfl
  · show (readDesc (post m s.rxQueue) s.rxQueue 1).addr = s.rxBuffer + HDR_SIZE
    rw [readDesc_post (by decide), h₁]
    show (s.rxBuffer + 12) % 2 ^ 64 = s.rxBuffer + 12
    exact Nat.mod_eq_of_lt (by omega)
  · rw [availIdx_post, availIdx_of_within hwithin havail]

/-- A call that finds nothing changes nothing. -/
theorem recv_idle (h : Inv s) (hready : s.rxReady = false) (maxLen : Nat) :
    virtioNetRecv s maxLen = (0, [], s) := by
  unfold virtioNetRecv
  rw [if_neg (by simp [h.mmio, h.placed.rx_pos]), if_pos (by simp [hready])]

/-- A call that finds a packet copies it and re-arms the queue. -/
theorem recv_ready (h : Inv s) (hready : s.rxReady = true) (maxLen : Nat) :
    (virtioNetRecv s maxLen).2.1 = read s.mem (s.rxBuffer + HDR_SIZE) (min s.rxLen maxLen) ∧
      ∃ m, (virtioNetRecv s maxLen).2.2 = { s with mem := m, rxReady := false } ∧
        Inv { s with mem := m, rxReady := false } ∧
        Within (fun x => s.rxQueue ≤ x ∧ x < s.rxQueue + 2308) s.mem m ∧
        availIdx m s.rxQueue = (availIdx s.mem s.rxQueue + 1) % 65536 ∧
        usedIdx m s.rxQueue = usedIdx s.mem s.rxQueue := by
  unfold virtioNetRecv
  rw [if_neg (by simp [h.mmio, h.placed.rx_pos]), if_neg (by simp [hready])]
  refine ⟨?_, ?_⟩
  · dsimp only
    congr 1
    split
    · omega
    · omega
  · exact setupRx_cases (s := { s with rxReady := false }) h.mmio h.placed h.ring

end Recv

-- ---------------------------------------------------------------------------
-- The device
-- ---------------------------------------------------------------------------

section Device

variable {s : State}

/-- The device completes a transmit chain, if there is one. -/
theorem transmitted_cases (s : State) (len : Nat) :
    usedIdx s.mem s.txQueue = availIdx s.mem s.txQueue ∧ transmitted s len = s ∨
      usedIdx s.mem s.txQueue ≠ availIdx s.mem s.txQueue ∧
        ∃ m, transmitted s len = { s with mem := m } ∧ Within (TxArea s) s.mem m ∧
          availIdx m s.txQueue = availIdx s.mem s.txQueue ∧
          usedIdx m s.txQueue = (usedIdx s.mem s.txQueue + 1) % 65536 := by
  by_cases hidle : usedIdx s.mem s.txQueue = availIdx s.mem s.txQueue
  · exact .inl ⟨hidle, if_pos hidle⟩
  · refine .inr ⟨hidle, _, if_neg hidle, (within_publish _ _ _ _).mono fun x hx => .inl ?_,
      availIdx_publish _ _, usedIdx_publish _ _⟩
    unfold UsedArea at hx
    omega

/-- What the handler of the next interrupt takes for the length of the packet. -/
def usedLen (m : Memory) (q : Nat) : Nat :=
  load m (usedRingAt q ((usedIdx m q - 1) % VIRTIO_QUEUE_SIZE) + 4) 4

/-- The length of the element published last, while `used.idx` has not wrapped. -/
theorem usedLen_publish {m : Memory} {q head len : Nat}
    (hne : usedIdx (publish m q head len) q ≠ 0) :
    usedLen (publish m q head len) q = len % 2 ^ 32 := by
  unfold usedLen
  rw [usedIdx_publish] at hne ⊢
  have hslot : ((usedIdx m q + 1) % 65536 - 1) % VIRTIO_QUEUE_SIZE =
      usedIdx m q % VIRTIO_QUEUE_SIZE := by
    unfold VIRTIO_QUEUE_SIZE
    omega
  rw [hslot]
  unfold publish
  rw [load_store_of_disjoint (by unfold usedRingAt usedIdxAt; omega), load_store]
  simp only [Nat.reducePow]

/-- What the device stores: header and packet in `rx_buffer`, and a used element. -/
theorem received_spec (h : Inv s) (header : Bytes) (p : Packet)
    (hbusy : usedIdx s.mem s.rxQueue ≠ availIdx s.mem s.rxQueue) :
    ∃ m, received s header p =
        { s with mem := publish m s.rxQueue 0 (HDR_SIZE + p.val.length) } ∧
      Within (fun x => s.rxBuffer ≤ x ∧ x < s.rxBuffer + 2048) s.mem m ∧
      read m (s.rxBuffer + HDR_SIZE) p.val.length = p.val := by
  have hhead : nextHead s.mem s.rxQueue = 0 := h.ring _ (slot_lt _)
  have hlen := p.property
  unfold BUFFER_SIZE HDR_SIZE at hlen
  refine ⟨write (put s.mem s.rxBuffer HDR_SIZE fun i => header.getD i 0) (s.rxBuffer + HDR_SIZE)
    p.val, ?_, ?_, read_write⟩
  · unfold received
    dsimp only
    rw [if_neg hbusy, hhead, h.header, h.header_next, h.data]
  · refine ((Within.refl _ _).put fun i hi => ?_).put fun i hi => ?_
    · unfold HDR_SIZE at hi
      omega
    · unfold HDR_SIZE
      omega

/-- The device fills a receive chain, if there is one. -/
theorem received_cases (h : Inv s) (header : Bytes) (p : Packet) :
    usedIdx s.mem s.rxQueue = availIdx s.mem s.rxQueue ∧ received s header p = s ∨
      usedIdx s.mem s.rxQueue ≠ availIdx s.mem s.rxQueue ∧
        ∃ m, received s header p = { s with mem := m } ∧ Inv { s with mem := m } ∧
          Within (RxArea s) s.mem m ∧ availIdx m s.rxQueue = availIdx s.mem s.rxQueue ∧
          usedIdx m s.rxQueue = (usedIdx s.mem s.rxQueue + 1) % 65536 ∧
          read m (s.rxBuffer + HDR_SIZE) p.val.length = p.val ∧
          (usedIdx m s.rxQueue ≠ 0 → usedLen m s.rxQueue = HDR_SIZE + p.val.length) := by
  by_cases hidle : usedIdx s.mem s.rxQueue = availIdx s.mem s.rxQueue
  · exact .inl ⟨hidle, if_pos hidle⟩
  obtain ⟨m, heq, hbuffer, hpacket⟩ := received_spec h header p hidle
  have hlen := p.property
  have hrx := h.placed.rx_rx
  unfold Disjoint at hrx
  unfold BUFFER_SIZE HDR_SIZE at hlen
  have hwithin : Within (fun x => UsedArea s.rxQueue x ∨
      (s.rxBuffer ≤ x ∧ x < s.rxBuffer + 2048)) s.mem
      (publish m s.rxQueue 0 (HDR_SIZE + p.val.length)) :=
    (hbuffer.mono fun x hx => .inr hx).trans ((within_publish _ _ _ _).mono fun x hx => .inl hx)
  -- descriptors and available ring are below the used ring
  have hrest : ∀ x, s.rxQueue ≤ x → x < s.rxQueue + 2308 →
      ¬ (UsedArea s.rxQueue x ∨ (s.rxBuffer ≤ x ∧ x < s.rxBuffer + 2048)) := by
    intro x hlo hhi
    unfold UsedArea
    omega
  have hdesc : ∀ i < 2, readDesc (publish m s.rxQueue 0 (HDR_SIZE + p.val.length)) s.rxQueue i =
      readDesc s.mem s.rxQueue i := by
    intro i hi
    refine readDesc_of_within hwithin fun x hx => ?_
    unfold DescArea at hx
    exact hrest x (by omega) (by omega)
  have havail : ∀ x, AvailArea s.rxQueue x →
      ¬ (UsedArea s.rxQueue x ∨ (s.rxBuffer ≤ x ∧ x < s.rxBuffer + 2048)) := by
    intro x hx
    unfold AvailArea at hx
    exact hrest x (by omega) (by omega)
  refine .inr ⟨hidle, _, heq, ?_, ?_, availIdx_of_within hwithin havail, ?_, ?_, fun hne => ?_⟩
  · exact h.congr (fun i hi => availRing_of_within hwithin havail hi) hdesc
  · refine hwithin.mono fun x hx => ?_
    unfold RxArea
    unfold UsedArea at hx
    omega
  · rw [usedIdx_publish, usedIdx_of_within hbuffer fun x hx => by unfold UsedArea at hx; omega]
  · refine Eq.trans ?_ hpacket
    refine (within_publish m s.rxQueue 0 (HDR_SIZE + p.val.length)).read fun i hi => ?_
    unfold UsedArea HDR_SIZE
    omega
  · rw [usedLen_publish hne]
    unfold HDR_SIZE
    exact Nat.mod_eq_of_lt (by omega)

end Device

-- ---------------------------------------------------------------------------
-- Interrupts
-- ---------------------------------------------------------------------------

/-- Nothing is pending. -/
theorem irq_none {s : State} (h : Inv s) {status : Nat} (hstatus : status = 0) :
    virtioNetHandleIrq s status = s := by
  unfold virtioNetHandleIrq
  rw [if_neg (by simp [h.mmio]), if_pos hstatus]

/-- What the handler does when an interrupt is pending: it reads memory only. -/
theorem irq_eq {s : State} (h : Inv s) {status : Nat} (hstatus : status ≠ 0) :
    virtioNetHandleIrq s status =
      { s with
        txReady := s.txReady || decide (usedIdx s.mem s.txQueue ≠ 0)
        rxReady := s.rxReady || decide (usedIdx s.mem s.rxQueue ≠ 0)
        rxLen :=
          if usedIdx s.mem s.rxQueue ≠ 0 then usedLen s.mem s.rxQueue - HDR_SIZE
          else s.rxLen } := by
  unfold virtioNetHandleIrq usedLen
  rw [if_neg (by simp [h.mmio]), if_neg hstatus]
  -- a header alone gives the length 0, which is what the subtraction gives
  have hlen : ∀ len : Nat, (if len > HDR_SIZE then len - HDR_SIZE else 0) = len - HDR_SIZE := by
    intro len
    split
    · rfl
    · omega
  have htx : (s.txQueue ≠ 0 ∧ usedIdx s.mem s.txQueue > 0) ↔ usedIdx s.mem s.txQueue ≠ 0 := by
    simp [h.placed.tx_pos, Nat.pos_iff_ne_zero]
  have hrx : (s.rxQueue ≠ 0 ∧ usedIdx s.mem s.rxQueue > 0) ↔ usedIdx s.mem s.rxQueue ≠ 0 := by
    simp [h.placed.rx_pos, Nat.pos_iff_ne_zero]
  simp only [htx, hrx, hlen]
  by_cases h₁ : usedIdx s.mem s.txQueue = 0
  · by_cases h₂ : usedIdx s.mem s.rxQueue = 0
    · simp [h₁, h₂]
    · simp [h₁, h₂]
  · by_cases h₂ : usedIdx s.mem s.rxQueue = 0
    · simp [h₁, h₂]
    · simp [h₁, h₂]

-- ---------------------------------------------------------------------------
-- Initialisation
-- ---------------------------------------------------------------------------

/-- The driver's static variables and the heap, as loaded: `tx_ready` is 1,
`rx_ready` is 0, and no two objects overlap. -/
structure Loaded (s : State) : Prop where
  area_pos : 0 < s.heap.heapArea.toNat
  area : s.heap.heapArea.toNat + 262144 ≤ 2 ^ 64
  offset : s.heap.heapOffset.toNat ≤ 262144
  buffers : Disjoint s.txBuffer 2048 s.rxBuffer 2048
  tx_buffer : Disjoint s.heap.heapArea.toNat 262144 s.txBuffer 2048
  rx_buffer : Disjoint s.heap.heapArea.toNat 262144 s.rxBuffer 2048
  rx_low : s.rxBuffer + 2048 ≤ 2 ^ 64
  txReady : s.txReady = true
  rxReady : s.rxReady = false

/-- A queue that could be set up. -/
theorem queueSetup_spec (mem : Memory) (heap : Mm.State)
    (harea : heap.heapArea.toNat + 262144 ≤ 2 ^ 64) (hoffset : heap.heapOffset.toNat ≤ 262144)
    (hq : (virtioNetQueueSetup mem heap).1 ≠ 0) :
    ∃ q heap', virtioNetQueueSetup mem heap = (q, clearQueue mem q, heap') ∧
      heap'.heapArea = heap.heapArea ∧
      heap.heapArea.toNat + heap.heapOffset.toNat ≤ q ∧
      q + 4096 = heap.heapArea.toNat + heap'.heapOffset.toNat ∧
      heap'.heapOffset.toNat ≤ 262144 := by
  unfold virtioNetQueueSetup at hq ⊢
  rcases Mm.alloc_page (s := heap) hoffset harea with
    hres | ⟨start, hres, hstart, hstop, hfit⟩
  · rw [hres] at hq
    exact absurd rfl hq
  · rw [hres]
    exact ⟨_, _, rfl, rfl, hstart, hstop, hfit⟩

section Init

variable {s : State}

/-- The two queues, when there was room for both. -/
theorem setupQueues_spec (hl : Loaded s) (htx : (setupQueues s).txQueue ≠ 0)
    (hrx : (setupQueues s).rxQueue ≠ 0) :
    ∃ tx rx heap, setupQueues s = { s with
        mem := clearQueue (clearQueue s.mem tx) rx, heap, txQueue := tx, rxQueue := rx } ∧
      Placed tx rx s.txBuffer s.rxBuffer := by
  unfold setupQueues at htx hrx ⊢
  dsimp only at htx hrx ⊢
  obtain ⟨tx, heap₁, h₁, harea₁, hlo₁, hhi₁, hfit₁⟩ :=
    queueSetup_spec s.mem s.heap hl.area hl.offset htx
  rw [h₁] at hrx ⊢
  dsimp only at hrx ⊢
  obtain ⟨rx, heap₂, h₂, harea₂, hlo₂, hhi₂, hfit₂⟩ :=
    queueSetup_spec (clearQueue s.mem tx) heap₁ (by rw [harea₁]; exact hl.area) hfit₁ hrx
  rw [h₂]
  refine ⟨tx, rx, heap₂, rfl, ?_⟩
  -- the second queue lies behind the first, and both lie in the heap
  rw [harea₁] at hlo₂ hhi₂
  have hpos := hl.area_pos
  have hb := hl.buffers
  have htxb := hl.tx_buffer
  have hrxb := hl.rx_buffer
  unfold Disjoint at hb htxb hrxb
  constructor
  · omega
  · omega
  · exact .inl (by omega)
  · exact hb
  · unfold Disjoint
    omega
  · unfold Disjoint
    omega
  · unfold Disjoint
    omega
  · unfold Disjoint
    omega
  · exact hl.rx_low

theorem init_eq {base : Nat} {regs : Nat → Nat} (hcode : (virtioNetInit s base regs).1 = 0) :
    virtioNetInit s base regs =
      (0, virtioNetSetupRx (setupQueues { s with mmio := base ≠ 0 })) := by
  unfold virtioNetInit at hcode ⊢
  dsimp only at hcode ⊢
  exact of_tests hcode

/-- The state a successful `virtio_net_init` leaves: nothing to transmit, and one
receive chain posted. -/
structure Started (s : State) : Prop where
  inv : Inv s
  txReady : s.txReady = true
  rxReady : s.rxReady = false
  tx_used : usedIdx s.mem s.txQueue = 0
  tx_avail : availIdx s.mem s.txQueue = 0
  rx_used : usedIdx s.mem s.rxQueue = 0
  rx_avail : availIdx s.mem s.rxQueue = 1

theorem started_setup (hl : Loaded s) (hmmio : s.mmio = true) (htx : (setupQueues s).txQueue ≠ 0)
    (hrx : (setupQueues s).rxQueue ≠ 0) : Started (virtioNetSetupRx (setupQueues s)) := by
  obtain ⟨tx, rx, heap, hset, hplaced⟩ := setupQueues_spec hl htx hrx
  rw [hset]
  have hqueues := hplaced.queues
  unfold Disjoint at hqueues
  obtain ⟨m, heq, hinv, hwithin, havail, hused⟩ := setupRx_cases (s := { s with
      mem := clearQueue (clearQueue s.mem tx) rx, heap, txQueue := tx, rxQueue := rx })
    hmmio hplaced fun i hi => availRing_clearQueue hi
  rw [heq]
  -- nothing of this touches the transmit queue again
  have hrearm : Within (fun x => rx ≤ x ∧ x < rx + 4096) (clearQueue s.mem tx) m :=
    (within_clearQueue _ rx).trans (hwithin.mono fun x hx => by dsimp only at hx; omega)
  refine ⟨hinv, hl.txReady, hl.rxReady, ?_, ?_, ?_, ?_⟩
  · show usedIdx m tx = 0
    rw [usedIdx_of_within hrearm fun x hx => by unfold UsedArea at hx; omega, usedIdx_clearQueue]
  · show availIdx m tx = 0
    rw [availIdx_of_within hrearm fun x hx => by unfold AvailArea at hx; omega,
      availIdx_clearQueue]
  · show usedIdx m rx = 0
    exact hused.trans usedIdx_clearQueue
  · show availIdx m rx = 1
    refine havail.trans ?_
    show (availIdx (clearQueue (clearQueue s.mem tx) rx) rx + 1) % 65536 = 1
    rw [availIdx_clearQueue]

/-- After a successful `virtio_net_init` with both queues. -/
theorem init_spec {base : Nat} {regs : Nat → Nat} (hl : Loaded s) (hbase : base ≠ 0)
    (hcode : (virtioNetInit s base regs).1 = 0) (htx : (virtioNetInit s base regs).2.txQueue ≠ 0)
    (hrx : (virtioNetInit s base regs).2.rxQueue ≠ 0) :
    Started (virtioNetInit s base regs).2 := by
  obtain ⟨s', hs', hinit⟩ : ∃ s', s' = { s with mmio := base ≠ 0 } ∧
      virtioNetInit s base regs = (0, virtioNetSetupRx (setupQueues s')) :=
    ⟨_, rfl, init_eq hcode⟩
  have hl' : Loaded s' := by
    rw [hs']
    exact ⟨hl.area_pos, hl.area, hl.offset, hl.buffers, hl.tx_buffer, hl.rx_buffer, hl.rx_low,
      hl.txReady, hl.rxReady⟩
  have hmmio : s'.mmio = true := by
    rw [hs']
    exact decide_eq_true hbase
  -- re-arming moves no queue
  have hkeep : ∀ t : State, (virtioNetSetupRx t).txQueue = t.txQueue ∧
      (virtioNetSetupRx t).rxQueue = t.rxQueue := by
    intro t
    unfold virtioNetSetupRx
    split
    · exact ⟨rfl, rfl⟩
    · exact ⟨rfl, rfl⟩
  rw [hinit] at htx hrx ⊢
  dsimp only at htx hrx ⊢
  rw [(hkeep _).1] at htx
  rw [(hkeep _).2] at hrx
  exact started_setup hl' hmmio htx hrx

end Init

-- ---------------------------------------------------------------------------
-- A machine to run on
-- ---------------------------------------------------------------------------

/-- Nothing in memory, and the registers of a device that `virtio_net_init` takes. -/
def bootState : State where
  mem := fun _ => 0
  heap := Mm.boot 0x200000#64 fun _ => 0#64
  mmio := false
  txQueue := 0
  rxQueue := 0
  txBuffer := 0x100000
  rxBuffer := 0x101000
  txReady := true
  rxReady := false
  rxLen := 0

def bootRegs (r : Nat) : Nat :=
  if r = VIRTIO_MMIO_VERSION then 1
  else if r = VIRTIO_MMIO_DEVICE_ID then 1
  else if r = VIRTIO_MMIO_VENDOR_ID then 0x1af4
  else 0

/-- The machine after `virtio_net_init`. -/
def started : State := (virtioNetInit bootState 0x10001000 bootRegs).2

theorem loaded_boot : Loaded bootState :=
  ⟨by decide, by decide, by decide, .inl (by decide), .inr (by decide), .inr (by decide),
    by decide, rfl, rfl⟩

theorem queues_started : started.txQueue = 0x200000 ∧ started.rxQueue = 0x201000 := by
  decide +kernel

theorem tx_started : started.txQueue ≠ 0 := by
  rw [queues_started.1]
  decide

theorem rx_started : started.rxQueue ≠ 0 := by
  rw [queues_started.2]
  decide

end AegisKernel.Virtio.Net
