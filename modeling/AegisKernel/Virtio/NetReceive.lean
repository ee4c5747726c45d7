import Mathlib.Data.List.Forall2
import AegisKernel.Library.Runs
import AegisKernel.Virtio.NetSteps

/-!
# Virtio — receiving

`virtio_net_handle_irq` sets `rx_ready` whenever `used.idx` of the receive queue is
not 0, and keeps no note of the element it has seen last. An interrupt that comes
between `virtio_net_recv` and the next packet delivers the last packet again.

* `Delivered` — the results are some of the packets, in their order, each one at
  most once, and each cut to the length asked for.
* `RxOrderly` — no interrupt comes while the device owns the receive chain.
* `RxInv` — in such a run the driver either waits for a packet, or has one that
  it has not delivered.
* `delivered_at_most_once` — the result.
-/

namespace AegisKernel.Virtio.Net

open Library

/-- The result of a call that asked for `r.1` bytes is the packet `p`. -/
def IsPacket (r : Nat × Bytes) (p : Packet) : Prop := r.2 = p.val.take r.1

def Delivered (t : Trace) : Prop := List.SublistForall₂ IsPacket t.results t.packets

/-- A pending interrupt finds `used.idx` 0, or every receive chain filled. -/
def RxOrderly (t : Trace) : Op → Prop
  | .irq status =>
    status ≠ 0 → usedIdx t.state.mem t.state.rxQueue = 0 ∨
      usedIdx t.state.mem t.state.rxQueue = availIdx t.state.mem t.state.rxQueue
  | _ => True

/-- The device owns one receive chain, and there is nothing to deliver. -/
structure Waiting (t : Trace) : Prop where
  inv : Inv t.state
  outstanding : availIdx t.state.mem t.state.rxQueue =
    (usedIdx t.state.mem t.state.rxQueue + 1) % 65536
  rxReady : t.state.rxReady = false
  delivered : Delivered t

/-- The last packet `p` is in `rx_buffer` and has not been delivered. -/
structure Filled (t : Trace) (ps : List Packet) (p : Packet) : Prop where
  inv : Inv t.state
  packets : t.packets = ps ++ [p]
  idle : usedIdx t.state.mem t.state.rxQueue = availIdx t.state.mem t.state.rxQueue
  buffer : read t.state.mem (t.state.rxBuffer + HDR_SIZE) p.val.length = p.val
  len : usedIdx t.state.mem t.state.rxQueue ≠ 0 →
    usedLen t.state.mem t.state.rxQueue = HDR_SIZE + p.val.length
  rxLen : t.state.rxReady = true → t.state.rxLen = p.val.length
  delivered : List.SublistForall₂ IsPacket t.results ps

def RxInv (t : Trace) : Prop := Waiting t ∨ ∃ ps p, Filled t ps p

section Lists

variable {α β : Type} {R : α → β → Prop} {xs : List α} {ys : List β} {a : α} {b : β}

theorem sublistForall₂_concat (h : List.SublistForall₂ R xs ys) (hab : R a b) :
    List.SublistForall₂ R (xs ++ [a]) (ys ++ [b]) := by
  obtain ⟨zs, hzs, hsub⟩ := List.sublistForall₂_iff.mp h
  refine List.sublistForall₂_iff.mpr ⟨zs ++ [b], ?_, hsub.append (List.Sublist.refl _)⟩
  exact List.rel_append hzs (.cons hab .nil)

theorem sublistForall₂_skip (h : List.SublistForall₂ R xs ys) :
    List.SublistForall₂ R xs (ys ++ [b]) := by
  obtain ⟨zs, hzs, hsub⟩ := List.sublistForall₂_iff.mp h
  exact List.sublistForall₂_iff.mpr ⟨zs, hzs, hsub.trans (List.sublist_append_left ys [b])⟩

end Lists

theorem Filled.toDelivered {t : Trace} {ps : List Packet} {p : Packet} (h : Filled t ps p) :
    Delivered t := by
  unfold Delivered
  rw [h.packets]
  exact sublistForall₂_skip h.delivered

theorem RxInv.delivered {t : Trace} (h : RxInv t) : Delivered t := by
  rcases h with h | ⟨ps, p, h⟩
  · exact h.delivered
  · exact h.toDelivered

theorem RxInv.inv {t : Trace} (h : RxInv t) : Inv t.state := by
  rcases h with h | ⟨ps, p, h⟩
  · exact h.inv
  · exact h.inv

section Steps

variable {t : Trace}

/-- A step of the transmit side. -/
theorem RxInv.of_txArea (h : RxInv t) {m : Memory} (hm : Within (TxArea t.state) t.state.mem m)
    (txReady : Bool) : RxInv { t with state := { t.state with mem := m, txReady } } := by
  rcases h with h | ⟨ps, p, h⟩
  · obtain ⟨hinv, havail, hused⟩ := h.inv.of_txArea hm txReady
    refine .inl ⟨hinv, ?_, h.rxReady, h.delivered⟩
    show availIdx m t.state.rxQueue = (usedIdx m t.state.rxQueue + 1) % 65536
    rw [havail, hused, h.outstanding]
  · obtain ⟨hinv, havail, hused⟩ := h.inv.of_txArea hm txReady
    have hapart := h.inv.apart
    have hplen := p.property
    unfold BUFFER_SIZE HDR_SIZE at hplen
    refine .inr ⟨ps, p, hinv, h.packets, hused.trans (h.idle.trans havail.symm), ?_, ?_, h.rxLen,
      h.delivered⟩
    · show read m (t.state.rxBuffer + HDR_SIZE) p.val.length = p.val
      -- the packet is in memory of the receive side
      refine Eq.trans (hm.read fun i hi htx => hapart _ htx (.inr ?_)) h.buffer
      unfold HDR_SIZE
      omega
    · intro hne
      have hne : usedIdx m t.state.rxQueue ≠ 0 := hne
      -- and so is the used element the handler will look at
      have hlen : usedLen m t.state.rxQueue = usedLen t.state.mem t.state.rxQueue := by
        unfold usedLen
        rw [hused]
        refine hm.load fun i hi htx => hapart _ htx (.inl ?_)
        have hslot := slot_lt (usedIdx t.state.mem t.state.rxQueue - 1)
        unfold usedRingAt
        omega
      rw [hused] at hne
      exact hlen.trans (h.len hne)

/-- An interrupt at the right moment. -/
theorem RxInv.irq (h : RxInv t) {status : Nat} (horderly : RxOrderly t (.irq status)) :
    RxInv { t with state := virtioNetHandleIrq t.state status } := by
  by_cases hstatus : status = 0
  · rw [irq_none h.inv hstatus]
    exact h
  rcases h with h | ⟨ps, p, h⟩
  · -- the chain is outstanding, so `used.idx` is 0 and nothing is found
    have hlt : usedIdx t.state.mem t.state.rxQueue < 65536 := usedIdx_lt
    have hout := h.outstanding
    have hzero : usedIdx t.state.mem t.state.rxQueue = 0 :=
      (horderly hstatus).resolve_right (by omega)
    rw [irq_eq h.inv hstatus]
    refine .inl ⟨h.inv.flags _ _ _, h.outstanding, ?_, h.delivered⟩
    show (t.state.rxReady || decide (usedIdx t.state.mem t.state.rxQueue ≠ 0)) = false
    rw [h.rxReady, hzero]
    rfl
  · -- the handler finds the last packet
    rw [irq_eq h.inv hstatus]
    refine .inr ⟨ps, p, h.inv.flags _ _ _, h.packets, h.idle, h.buffer, h.len, fun hready => ?_,
      h.delivered⟩
    have hready : (t.state.rxReady || decide (usedIdx t.state.mem t.state.rxQueue ≠ 0)) = true :=
      hready
    show (if usedIdx t.state.mem t.state.rxQueue ≠ 0 then
      usedLen t.state.mem t.state.rxQueue - HDR_SIZE else t.state.rxLen) = p.val.length
    by_cases hne : usedIdx t.state.mem t.state.rxQueue ≠ 0
    · rw [if_pos hne, h.len hne, Nat.add_sub_cancel_left]
    · rw [if_neg hne]
      exact h.rxLen (by simpa [hne] using hready)

/-- The device fills the chain it owns. -/
theorem RxInv.received (h : RxInv t) (header : Bytes) (p : Packet) :
    RxInv (t.step (.received header p)) := by
  have heta : t.step (.received header p) = ⟨Net.received t.state header p,
      if usedIdx t.state.mem t.state.rxQueue = availIdx t.state.mem t.state.rxQueue then t.packets
      else t.packets ++ [p], t.results⟩ := rfl
  rw [heta]
  rcases h with h | ⟨ps, q, h⟩
  · rcases received_cases h.inv header p with
      ⟨hidle, -⟩ | ⟨hbusy, m, heq, hinv, -, havail, hused, hbuffer, hlen⟩
    · -- there is a chain
      have hlt : usedIdx t.state.mem t.state.rxQueue < 65536 := usedIdx_lt
      have hout := h.outstanding
      omega
    · rw [if_neg hbusy, heq]
      refine .inr ⟨t.packets, p, hinv, rfl, ?_, hbuffer, hlen, fun hready => ?_, h.delivered⟩
      · show usedIdx m t.state.rxQueue = availIdx m t.state.rxQueue
        rw [hused, havail, h.outstanding]
      · have hready : t.state.rxReady = true := hready
        rw [h.rxReady] at hready
        exact absurd hready (by simp)
  · rcases received_cases h.inv header p with ⟨hidle, heq⟩ | ⟨hbusy, -⟩
    · rw [if_pos hidle, heq]
      exact .inr ⟨ps, q, h⟩
    · exact absurd h.idle hbusy

/-- A call returns the packet that is there, at most once. -/
theorem RxInv.recv (h : RxInv t) (maxLen : Nat) : RxInv (t.step (.recv maxLen)) := by
  have heta : t.step (.recv maxLen) = ⟨(virtioNetRecv t.state maxLen).2.2, t.packets,
      if (virtioNetRecv t.state maxLen).2.1 = [] then t.results
      else t.results ++ [(maxLen, (virtioNetRecv t.state maxLen).2.1)]⟩ := rfl
  rw [heta]
  rcases h with h | ⟨ps, p, h⟩
  · -- nothing to deliver
    rw [recv_idle h.inv h.rxReady]
    exact .inl h
  by_cases hready : t.state.rxReady = true
  rotate_left
  · rw [recv_idle h.inv (Bool.eq_false_iff.mpr hready)]
    exact .inr ⟨ps, p, h⟩
  obtain ⟨hdata, m, heq, hinv, -, havail, hused⟩ := recv_ready h.inv hready maxLen
  -- what is copied is the packet, cut to the length asked for
  have hpacket : (virtioNetRecv t.state maxLen).2.1 = p.val.take maxLen := by
    rw [hdata, h.rxLen hready, read_take, h.buffer]
  rw [heq, hpacket]
  refine .inl ⟨hinv, ?_, rfl, ?_⟩
  · show availIdx m t.state.rxQueue = (usedIdx m t.state.rxQueue + 1) % 65536
    rw [havail, hused, h.idle]
  · show List.SublistForall₂ IsPacket _ t.packets
    rw [h.packets]
    split
    · -- nothing was asked for: the packet is lost
      exact sublistForall₂_skip h.delivered
    · exact sublistForall₂_concat h.delivered rfl

/-- Every step of an orderly run keeps the invariant. -/
theorem rxInv_step (h : RxInv t) {op : Op} (horderly : RxOrderly t op) : RxInv (t.step op) := by
  have hinv := h.inv
  cases op with
  | send data =>
    show RxInv { t with state := Net.step t.state (.send data) }
    rcases send_cases hinv data with heq | ⟨-, m, heq, hwithin, -, -⟩
    · rw [heq]
      exact h
    · rw [heq]
      exact h.of_txArea hwithin false
  | recv maxLen => exact h.recv maxLen
  | irq status => exact h.irq horderly
  | transmitted len =>
    show RxInv { t with state := Net.transmitted t.state len }
    rcases transmitted_cases t.state len with ⟨-, heq⟩ | ⟨-, m, heq, hwithin, -, -⟩
    · rw [heq]
      exact h
    · rw [heq]
      exact h.of_txArea hwithin t.state.txReady
  | received header p => exact h.received header p

end Steps

/-- **Delivery.** From a successful `virtio_net_init` on, in every run in which no
pending interrupt is handled while the device owns a receive chain and `used.idx`
is not 0: the results of `virtio_net_recv` that are not empty are some of the
packets the device wrote, in order, none of them twice. -/
theorem delivered_at_most_once (s : State) (base : Nat) (regs : Nat → Nat) (ops : List Op)
    (hl : Loaded s) (hbase : base ≠ 0) (hcode : (virtioNetInit s base regs).1 = 0)
    (htx : (virtioNetInit s base regs).2.txQueue ≠ 0)
    (hrx : (virtioNetInit s base regs).2.rxQueue ≠ 0)
    (horderly : Meets Trace.step RxOrderly ⟨(virtioNetInit s base regs).2, [], []⟩ ops) :
    Throughout Trace.step Delivered ⟨(virtioNetInit s base regs).2, [], []⟩ ops := by
  have hstarted := init_spec hl hbase hcode htx hrx
  have hstart : RxInv ⟨(virtioNetInit s base regs).2, [], []⟩ := by
    refine .inl ⟨hstarted.inv, ?_, hstarted.rxReady, .nil⟩
    show availIdx _ _ = (usedIdx _ _ + 1) % 65536
    rw [hstarted.rx_avail, hstarted.rx_used]
  exact throughout_of_meets (fun t (h : RxInv t) => h.delivered)
    (fun t op h hop => rxInv_step h hop) hstart horderly

/-- A packet is written, reported and fetched. -/
theorem delivered_at_most_once_one_packet :
    Throughout Trace.step Delivered ⟨started, [], []⟩
      [.received [] ⟨[7, 8, 9], by decide⟩, .irq 1, .recv 2036] := by
  refine delivered_at_most_once bootState 0x10001000 bootRegs _ loaded_boot (by decide) rfl
    tx_started rx_started ⟨trivial, fun _ => .inr ?_, trivial, trivial⟩
  decide +kernel

/-- The interrupt for a transmission delivers the last packet once more. -/
theorem packet_delivered_twice :
    ¬ Throughout Trace.step Delivered ⟨started, [], []⟩
      [.received [] ⟨[7, 8, 9], by decide⟩, .irq 1, .recv 2036, .send [1], .transmitted 13, .irq 1,
        .recv 2036] := by
  intro h
  have hlast := throughout_iff_initial.mp h _ List.prefix_rfl
  have htwice : (run Trace.step ⟨started, [], []⟩
      [.received [] ⟨[7, 8, 9], by decide⟩, .irq 1, .recv 2036, .send [1], .transmitted 13, .irq 1,
        .recv 2036]).results = [(2036, [7, 8, 9]), (2036, [7, 8, 9])] := by
    decide +kernel
  have hone : (run Trace.step ⟨started, [], []⟩
      [.received [] ⟨[7, 8, 9], by decide⟩, .irq 1, .recv 2036, .send [1], .transmitted 13, .irq 1,
        .recv 2036]).packets.length = 1 := by
    decide +kernel
  obtain ⟨zs, hzs, hsub⟩ := List.sublistForall₂_iff.mp hlast
  have hresults := hzs.length_eq
  have hpackets := hsub.length_le
  rw [htwice] at hresults
  rw [hone] at hpackets
  simp only [List.length_cons, List.length_nil] at hresults
  omega

end AegisKernel.Virtio.Net
