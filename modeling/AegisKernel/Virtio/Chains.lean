import AegisKernel.Library.Links
import AegisKernel.Library.Runs
import AegisKernel.Virtio.BlkData
import AegisKernel.Virtio.NetSteps

/-!
# Virtio — descriptor chains

The head of a chain is what the driver stored in the available ring last, and the
device follows `next` from there for as long as `VIRTIO_DESC_F_NEXT` is set.

* `Chain` — the descriptors the device finds.
* `Posted.WellFormed` — the chain ends, `VIRTIO_DESC_F_WRITE` is set on the buffers
  the device has to fill and on no others, and these come last.
* `Run` — what either driver is asked to do; `Run.requests` are the chains it posts.
* `chain_wellFormed_iff` — the chains of a flush and of a transmission are well
  formed; those of a read, a write and a reception are not.
-/

namespace AegisKernel.Virtio

open Library

-- ---------------------------------------------------------------------------
-- Chains
-- ---------------------------------------------------------------------------

/-- Where a descriptor leads to. -/
def link (m : Memory) (q : Nat) : Option Nat → Option Nat
  | none => none
  | some i =>
    let d := readDesc m q i
    if d.flags &&& VIRTIO_DESC_F_NEXT ≠ 0 then some d.next else none

/-- The device may write to the buffer of a descriptor. -/
def writable (m : Memory) (q i : Nat) : Bool :=
  (readDesc m q i).flags &&& VIRTIO_DESC_F_WRITE ≠ 0

/-- Following `next` from `head` visits the descriptors `is`, and ends. -/
def Chain (m : Memory) (q head : Nat) (is : List Nat) : Prop :=
  Linked none (link m q) (some head) (is.map some)

/-- The head in the slot before `avail.idx`. -/
def postedHead (m : Memory) (q : Nat) : Nat :=
  availRing m q ((availIdx m q + 65535) % 65536 % VIRTIO_QUEUE_SIZE)

inductive Request
  | blkIn
  | blkOut
  | blkFlush
  | netSend
  | netRecv
deriving DecidableEq

/-- Which of its buffers the device has to fill: of a block request header, data
and status, of a network request header and data. -/
def Request.fills : Request → List Bool
  | .blkIn => [false, true, true]
  | .blkOut => [false, false, true]
  | .blkFlush => [false, false, true]
  | .netSend => [false, false]
  | .netRecv => [true, true]

/-- A request, and memory and queue as the device finds them when it is posted. -/
structure Posted where
  request : Request
  mem : Memory
  queue : Nat

/-- The chain `is` of a request is as it should be. -/
structure Posted.Sound (p : Posted) (is : List Nat) : Prop where
  chain : Chain p.mem p.queue (postedHead p.mem p.queue) is
  distinct : is.Nodup
  fills : is.map (writable p.mem p.queue) = p.request.fills
  -- behind a writable descriptor there are only writable ones
  ordered : is.Pairwise fun i j => writable p.mem p.queue i → writable p.mem p.queue j

def Posted.WellFormed (p : Posted) : Prop := ∃ is, p.Sound is

section Chains

variable {m : Memory} {q i j : Nat}

theorem postedHead_post : postedHead (post m q) q = 0 := by
  have hidx : availIdx m q < 65536 := availIdx_lt
  have hslot : ((availIdx m q + 1) % 65536 + 65535) % 65536 = availIdx m q := by omega
  unfold postedHead
  rw [availIdx_post, hslot, availRing_post (slot_lt _), if_pos rfl]

section Flags

variable {addr len flags next : Nat} (h : readDesc m q i = Desc.stored ⟨addr, len, flags, next⟩)
include h

theorem link_of_next (hnext : flags % 2 ^ 16 &&& VIRTIO_DESC_F_NEXT ≠ 0) :
    link m q (some i) = some (next % 2 ^ 16) := by
  rw [link, h]
  exact if_pos hnext

theorem link_of_last (hlast : flags % 2 ^ 16 &&& VIRTIO_DESC_F_NEXT = 0) :
    link m q (some i) = none := by
  rw [link, h]
  exact if_neg (not_not_intro hlast)

theorem writable_eq (b : Bool) (hb : decide (flags % 2 ^ 16 &&& VIRTIO_DESC_F_WRITE ≠ 0) = b) :
    writable m q i = b := by
  rw [writable, h]
  exact hb

end Flags

theorem Chain.last (h : link m q (some i) = none) : Chain m q i [i] := by
  refine .visit (by simp) ?_
  rw [h]
  exact .stop

theorem Chain.next {is : List Nat} (h : link m q (some i) = some j) (hrest : Chain m q j is) :
    Chain m q i (i :: is) := by
  refine .visit (by simp) ?_
  rw [h]
  exact hrest

/-- The links determine the chain. -/
theorem Chain.unique {is js : List Nat} (h : Chain m q i is) (h' : Chain m q i js) : is = js :=
  List.map_injective_iff.mpr (Option.some_injective Nat) (Linked.unique h h')

/-- Two descriptors that lead to each other are no chain. -/
theorem not_chain_of_loop (hij : link m q (some i) = some j) (hji : link m q (some j) = some i)
    (is : List Nat) : ¬ Chain m q i is := by
  intro h
  unfold Chain at h
  generalize his : is.map some = l at h
  cases h with
  | visit hi h₁ =>
    rw [hij] at h₁
    cases h₁ with
    | visit hj h₂ =>
      rw [hji] at h₂
      -- behind the second descriptor, the chain is where it began
      have hsame := Linked.unique (Seg.visit hi (hij ▸ Seg.visit hj (hji ▸ h₂))) h₂
      have hlen := congrArg List.length hsame
      simp only [List.length_cons] at hlen
      omega

end Chains

-- ---------------------------------------------------------------------------
-- What the drivers post
-- ---------------------------------------------------------------------------

def Blk.Call.request : Blk.Call → Request
  | .read _ _ _ => .blkIn
  | .write _ _ _ => .blkOut
  | .flush => .blkFlush

/-- The request a step of a block history posts. -/
def Blk.posted : Option Blk.State → Blk.Op → Option Posted
  | some s, .call c _ =>
    match Blk.begin s c with
    | .waiting w => some ⟨c.request, w.mem, w.queue⟩
    | .done _ _ => none
  | _, _ => none

/-- The request a step of the network driver posts. -/
def Net.posted (s : Net.State) : Net.Op → Option Posted
  | .send data =>
    match Net.virtioNetSend s data with
    | some (0, s') => some ⟨.netSend, s'.mem, s'.txQueue⟩
    | _ => none
  | .recv maxLen =>
    let s' := (Net.virtioNetRecv s maxLen).2.2
    if s.mmio ∧ s.rxQueue ≠ 0 ∧ s.rxReady then some ⟨.netRecv, s'.mem, s'.rxQueue⟩ else none
  | _ => none

/-- The first receive chain, which `virtio_net_init` posts. -/
def Net.postedByInit (s : Net.State) (base : Nat) (regs : Nat → Nat) : Option Posted :=
  let (code, s') := Net.virtioNetInit s base regs
  if code = 0 ∧ s'.rxQueue ≠ 0 then some ⟨.netRecv, s'.mem, s'.rxQueue⟩ else none

/-- A run of one of the drivers, from any state. -/
inductive Run
  | blk (s : Blk.State) (ops : List Blk.Op)
  | net (s : Net.State) (base : Nat) (regs : Nat → Nat) (ops : List Net.Op)

def Run.requests : Run → List Posted
  | .blk s ops => outputs Blk.step Blk.posted (some s) ops
  | .net s base regs ops =>
    (Net.postedByInit s base regs).toList ++
      outputs Net.step Net.posted (Net.virtioNetInit s base regs).2 ops

section Drivers

/-- A chain the device can follow is well formed if its flags are. -/
theorem Posted.wellFormed_iff {p : Posted} {head : Nat} {is : List Nat}
    (hhead : postedHead p.mem p.queue = head) (hchain : Chain p.mem p.queue head is) :
    p.WellFormed ↔ is.map (writable p.mem p.queue) = p.request.fills ∧
      is.Pairwise fun i j => writable p.mem p.queue i → writable p.mem p.queue j := by
  subst hhead
  constructor
  · rintro ⟨js, hjs⟩
    obtain rfl := hchain.unique hjs.chain
    exact ⟨hjs.fills, hjs.ordered⟩
  · rintro ⟨hfills, hordered⟩
    exact ⟨is, hchain, (Linked.nodup hchain).of_map _, hfills, hordered⟩

/-- The three descriptors of a block request. The device may write to the data of
a request that has data for it. -/
theorem submit_chain (s : Blk.State) (req type sector : Nat) :
    ∃ m, Blk.virtioSubmitRequest s req type sector = { s with mem := m } ∧
      postedHead m s.queue = 0 ∧ Chain m s.queue 0 [0, 1, 2] ∧
      writable m s.queue 0 = false ∧
      writable m s.queue 1 = decide (type = Blk.VIRTIO_BLK_T_OUT) ∧
      writable m s.queue 2 = true := by
  obtain ⟨m, heq, -, h₀, h₁, h₂⟩ := Blk.submit_spec s req type sector
  rw [← readDesc_post (by decide)] at h₀ h₁ h₂
  have hlink₀ : link (post m s.queue) s.queue (some 0) = some 1 := link_of_next h₀ (by decide)
  have hlink₂ := link_of_last h₂ (by decide)
  have hdata : link (post m s.queue) s.queue (some 1) = some 2 ∧
      writable (post m s.queue) s.queue 1 = decide (type = Blk.VIRTIO_BLK_T_OUT) := by
    by_cases hout : type = Blk.VIRTIO_BLK_T_OUT
    · rw [if_pos hout] at h₁
      rw [decide_eq_true hout]
      exact ⟨link_of_next h₁ (by decide), writable_eq h₁ true (by decide)⟩
    · rw [if_neg hout] at h₁
      rw [decide_eq_false hout]
      exact ⟨link_of_next h₁ (by decide), writable_eq h₁ false (by decide)⟩
  exact ⟨_, heq, postedHead_post, .next hlink₀ (.next hdata.1 (.last hlink₂)),
    writable_eq h₀ false (by decide), hdata.2, writable_eq h₂ true (by decide)⟩

/-- A call posts the request its name says. -/
theorem begin_waiting {s w : Blk.State} {c : Blk.Call} (hw : Blk.begin s c = .waiting w) :
    ∃ s' req type sector, w = Blk.virtioSubmitRequest s' req type sector ∧
      (type = Blk.VIRTIO_BLK_T_OUT ↔ c.request = .blkOut) := by
  cases c with
  | read sector buf count =>
    have hw : Blk.virtioBlkRead s sector buf count = .waiting w := hw
    unfold Blk.virtioBlkRead at hw
    split at hw
    · exact absurd hw (by simp)
    split at hw
    · exact absurd hw (by simp)
    split at hw
    · exact absurd hw (by simp)
    · exact ⟨_, _, _, _, (Blk.Begun.waiting.inj hw).symm,
        by simp [Blk.Call.request, Blk.VIRTIO_BLK_T_IN, Blk.VIRTIO_BLK_T_OUT]⟩
  | write sector buf count =>
    have hw : Blk.virtioBlkWrite s sector buf count = .waiting w := hw
    unfold Blk.virtioBlkWrite at hw
    split at hw
    · exact absurd hw (by simp)
    split at hw
    · exact absurd hw (by simp)
    · exact ⟨_, _, _, _, (Blk.Begun.waiting.inj hw).symm, by simp [Blk.Call.request]⟩
  | flush =>
    have hw : Blk.virtioBlkFlush s = .waiting w := hw
    unfold Blk.virtioBlkFlush at hw
    split at hw
    · exact absurd hw (by simp)
    · exact ⟨_, _, _, _, (Blk.Begun.waiting.inj hw).symm, by decide⟩

/-- A block request. -/
theorem wellFormed_blk {o : Option Blk.State} {op : Blk.Op} {p : Posted}
    (hp : Blk.posted o op = some p) :
    p.WellFormed ↔ p.request = .blkFlush ∨ p.request = .netSend := by
  obtain ⟨s, c, polls, w, rfl, rfl, hw, rfl⟩ : ∃ s c polls w, o = some s ∧ op = .call c polls ∧
      Blk.begin s c = .waiting w ∧ p = ⟨c.request, w.mem, w.queue⟩ := by
    unfold Blk.posted at hp
    split at hp
    · rename_i s c polls
      split at hp
      · rename_i w hw
        exact ⟨s, c, polls, w, rfl, rfl, hw, (Option.some.inj hp).symm⟩
      · exact absurd hp (by simp)
    · exact absurd hp (by simp)
  obtain ⟨s', req, type, sector, rfl, htype⟩ := begin_waiting hw
  obtain ⟨m, heq, hhead, hchain, h₀, h₁, h₂⟩ := submit_chain s' req type sector
  rw [heq, Posted.wellFormed_iff (p := ⟨c.request, m, s'.queue⟩) hhead hchain]
  simp only [htype] at h₁
  -- the data of a write is marked, and that of a read is not
  cases c with
  | read sector buf count => simp [Blk.Call.request, Request.fills, h₀, h₁, h₂]
  | write sector buf count => simp [Blk.Call.request, Request.fills, h₀, h₁, h₂]
  | flush => simp [Blk.Call.request, Request.fills, h₀, h₁, h₂]

/-- A transmission: the chain ends with the second descriptor. -/
theorem wellFormed_send {s s' : Net.State} {data : Bytes}
    (hsend : Net.virtioNetSend s data = some (0, s')) :
    Posted.WellFormed ⟨.netSend, s'.mem, s'.txQueue⟩ := by
  have hsend' := hsend
  unfold Net.virtioNetSend at hsend'
  split at hsend'
  · exact absurd hsend' (by simp)
  split at hsend'
  · exact absurd hsend' (by simp)
  split at hsend'
  · exact absurd hsend' (by simp)
  rename_i hon hlong hready
  -- the call went through all of its tests
  obtain ⟨hmmio, htx⟩ : s.mmio = true ∧ s.txQueue ≠ 0 := by simpa using hon
  obtain ⟨m, heq, -, h₀, h₁⟩ :=
    Net.send_ready hmmio htx (Nat.le_of_not_lt hlong) (by simpa using hready)
  rw [heq] at hsend
  obtain ⟨-, rfl⟩ := Prod.mk.inj (Option.some.inj hsend)
  rw [← readDesc_post (by decide)] at h₀ h₁
  have hlink₀ : link (post m s.txQueue) s.txQueue (some 0) = some 1 := link_of_next h₀ (by decide)
  have hlink₁ := link_of_last h₁ (by decide)
  have hchain : Chain (post m s.txQueue) s.txQueue 0 [0, 1] := .next hlink₀ (.last hlink₁)
  have hwrite₀ := writable_eq h₀ false (by decide)
  have hwrite₁ := writable_eq h₁ false (by decide)
  refine (Posted.wellFormed_iff (p := ⟨.netSend, post m s.txQueue, s.txQueue⟩) postedHead_post
    hchain).mpr ?_
  simp [Request.fills, hwrite₀, hwrite₁]

/-- A reception: the two descriptors lead to each other. -/
theorem not_wellFormed_setupRx {s : Net.State} (hrx : s.rxQueue ≠ 0) :
    ¬ Posted.WellFormed ⟨.netRecv, (Net.virtioNetSetupRx s).mem,
      (Net.virtioNetSetupRx s).rxQueue⟩ := by
  rintro ⟨is, his⟩
  obtain ⟨m, heq, -, h₀, h₁⟩ := Net.setupRx_spec hrx
  have hchain := his.chain
  rw [heq] at hchain
  rw [← readDesc_post (by decide)] at h₀ h₁
  have hchain : Chain (post m s.rxQueue) s.rxQueue (postedHead (post m s.rxQueue) s.rxQueue) is :=
    hchain
  rw [postedHead_post] at hchain
  exact not_chain_of_loop (link_of_next h₀ (by decide)) (link_of_next h₁ (by decide)) is hchain

/-- A step of the network driver. -/
theorem wellFormed_net {s : Net.State} {op : Net.Op} {p : Posted}
    (hp : Net.posted s op = some p) :
    p.WellFormed ↔ p.request = .blkFlush ∨ p.request = .netSend := by
  unfold Net.posted at hp
  split at hp
  · split at hp
    · rename_i s' hsend
      obtain rfl := Option.some.inj hp
      exact iff_of_true (wellFormed_send hsend) (.inr rfl)
    · exact absurd hp (by simp)
  · rename_i maxLen
    dsimp only at hp
    split at hp
    · rename_i hon
      obtain rfl := Option.some.inj hp
      refine iff_of_false ?_ (by simp)
      -- a packet was fetched, and the queue is armed again
      have hrecv : (Net.virtioNetRecv s maxLen).2.2 =
          Net.virtioNetSetupRx { s with rxReady := false } := by
        unfold Net.virtioNetRecv
        rw [if_neg (by simp [hon.1, hon.2.1]), if_neg (by simp [hon.2.2])]
      rw [hrecv]
      exact not_wellFormed_setupRx hon.2.1
    · exact absurd hp (by simp)
  · exact absurd hp (by simp)

/-- The first receive chain. -/
theorem wellFormed_init {s : Net.State} {base : Nat} {regs : Nat → Nat} {p : Posted}
    (hp : Net.postedByInit s base regs = some p) :
    p.WellFormed ↔ p.request = .blkFlush ∨ p.request = .netSend := by
  unfold Net.postedByInit at hp
  dsimp only at hp
  split at hp
  · rename_i hinit
    obtain rfl := Option.some.inj hp
    refine iff_of_false ?_ (by simp)
    obtain ⟨t, ht⟩ : ∃ t, (Net.virtioNetInit s base regs).2 = Net.virtioNetSetupRx t :=
      ⟨_, by rw [Net.init_eq hinit.1]⟩
    have hrx := hinit.2
    rw [ht] at hrx ⊢
    refine not_wellFormed_setupRx fun hnull => hrx ?_
    unfold Net.virtioNetSetupRx
    rw [if_pos hnull]
    exact hnull
  · exact absurd hp (by simp)

end Drivers

/-- **Descriptor chains.** In every run of either driver, from any state, the chain of
a posted request is well formed exactly when the request is a flush of the block
device or a transmission. -/
theorem chain_wellFormed_iff (r : Run) (p : Posted) (hp : p ∈ r.requests) :
    p.WellFormed ↔ p.request = .blkFlush ∨ p.request = .netSend := by
  cases r with
  | blk s ops => exact forall_mem_outputs (fun _ _ _ h => wellFormed_blk h) p hp
  | net s base regs ops =>
    rcases List.mem_append.mp hp with hp | hp
    · exact wellFormed_init (Option.mem_toList.mp hp)
    · exact forall_mem_outputs (fun _ _ _ h => wellFormed_net h) p hp

/-- What the first call of a block run posts. -/
theorem mem_requests_blk {s w : Blk.State} {c : Blk.Call} (hw : Blk.begin s c = .waiting w)
    (polls : List (List Blk.Completion)) :
    (⟨c.request, w.mem, w.queue⟩ : Posted) ∈ (Run.blk s [.call c polls]).requests := by
  refine List.mem_append_left _ (Option.mem_toList.mpr ?_)
  show (match Blk.begin s c with
    | .waiting w => some (⟨c.request, w.mem, w.queue⟩ : Posted)
    | .done _ _ => none) = _
  rw [hw]

/-- A flush after `virtio_init`. -/
theorem flush_wellFormed :
    ∃ p ∈ (Run.blk (Blk.virtioInit Blk.bootState 0x10001000 Blk.bootRegs).2
      [.call .flush [[⟨0, 0⟩]]]).requests, p.request = .blkFlush ∧ p.WellFormed := by
  have hmmio := Blk.boot_spec.1
  generalize (Blk.virtioInit Blk.bootState 0x10001000 Blk.bootRegs).2 = s at *
  have hw : Blk.begin s .flush =
      .waiting (Blk.virtioSubmitRequest s s.flushReq Blk.VIRTIO_BLK_T_FLUSH 0) := by
    simp [Blk.begin, Blk.virtioBlkFlush, hmmio]
  have hp := mem_requests_blk hw [[⟨0, 0⟩]]
  exact ⟨_, hp, rfl, (chain_wellFormed_iff _ _ hp).mpr (.inl rfl)⟩

theorem not_wellFormed_call {s w : Blk.State} {c : Blk.Call} (hw : Blk.begin s c = .waiting w)
    (hc : c.request ≠ .blkFlush) (polls : List (List Blk.Completion)) :
    ¬ ∀ p ∈ (Run.blk s [.call c polls]).requests, p.WellFormed := by
  intro h
  have hp := mem_requests_blk hw polls
  have hiff := forall_mem_outputs (fun _ _ _ h => wellFormed_blk h) _ hp
  rcases hiff.mp (h _ hp) with hflush | hsend
  · exact hc hflush
  · have hsend : c.request = .netSend := hsend
    cases c with
    | read sector buf count => exact absurd hsend (by simp [Blk.Call.request])
    | write sector buf count => exact absurd hsend (by simp [Blk.Call.request])
    | flush => exact absurd hsend (by simp [Blk.Call.request])

/-- A write, a read, and the first receive chain. -/
theorem chains_not_wellFormed :
    (¬ ∀ p ∈ (Run.blk (Blk.virtioInit Blk.bootState 0x10001000 Blk.bootRegs).2
        [.call (.write 0 0x300000 1) [[⟨0, 0⟩]]]).requests, p.WellFormed) ∧
      (¬ ∀ p ∈ (Run.blk (Blk.virtioInit Blk.bootState 0x10001000 Blk.bootRegs).2
        [.call (.read 0 0x300000 1) [[⟨0, 0⟩]]]).requests, p.WellFormed) ∧
      ¬ ∀ p ∈ (Run.net Net.bootState 0x10001000 Net.bootRegs []).requests, p.WellFormed := by
  refine ⟨?_, ?_, fun h => ?_⟩
  · have hmmio := Blk.boot_spec.1
    generalize (Blk.virtioInit Blk.bootState 0x10001000 Blk.bootRegs).2 = s at *
    have hw : Blk.begin s (.write 0 0x300000 1) =
        .waiting (Blk.virtioSubmitRequest s s.writeReq Blk.VIRTIO_BLK_T_OUT 0) := by
      simp [Blk.begin, Blk.virtioBlkWrite, hmmio]
    exact not_wellFormed_call hw (by simp [Blk.Call.request]) _
  · obtain ⟨hmmio, -, -, -, hoffset, -⟩ := Blk.boot_spec
    generalize (Blk.virtioInit Blk.bootState 0x10001000 Blk.bootRegs).2 = s at *
    -- the heap has room for the request of the read
    have halloc : Mm.mmAlloc s.heap 529#64 16#64 =
        (some 4096#64, { s.heap with heapOffset := 4625#64 }) := by
      unfold Mm.mmAlloc
      rw [hoffset]
      rfl
    have hw : Blk.begin s (.read 0 0x300000 1) = .waiting (Blk.virtioSubmitRequest
        { s with heap := { s.heap with heapOffset := 4625#64 } }
        (s.heap.heapArea + 4096#64).toNat Blk.VIRTIO_BLK_T_IN 0) := by
      show Blk.virtioBlkRead s 0 0x300000 1 = _
      unfold Blk.virtioBlkRead
      rw [if_neg (by simp [hmmio]), if_neg (by decide), halloc]
    exact not_wellFormed_call hw (by simp [Blk.Call.request]) _
  · have hp : Net.postedByInit Net.bootState 0x10001000 Net.bootRegs =
        some ⟨.netRecv, Net.started.mem, Net.started.rxQueue⟩ := by
      unfold Net.postedByInit
      exact if_pos ⟨rfl, Net.rx_started⟩
    have hbad := h _ (List.mem_append_left _ (Option.mem_toList.mpr hp))
    exact absurd ((wellFormed_init hp).mp hbad) (by simp)

end AegisKernel.Virtio
