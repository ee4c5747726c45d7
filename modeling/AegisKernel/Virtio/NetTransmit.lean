import AegisKernel.Library.Runs
import AegisKernel.Virtio.NetSteps

/-!
# Virtio — transmitting

`virtio_net_handle_irq` sets `tx_ready` whenever `used.idx` of the transmit queue
is not 0. From the first completion on that is the case at every interrupt,
whether it is one for a transmission or not; and when `used.idx` has come back
to 0, it is the case at no interrupt.

* `Complete` — the device has completed every transmit chain.
* `TxExact` — what is wanted of a step.
* `TxOrderly` — when interrupts come at the right moment.
* `transmit_ready_iff` — a run has the one exactly when it has the other.
-/

namespace AegisKernel.Virtio.Net

open Library

def Complete (s : State) : Prop := usedIdx s.mem s.txQueue = availIdx s.mem s.txQueue

instance (s : State) : Decidable (Complete s) := inferInstanceAs (Decidable (_ = _))

/-- After an interrupt `tx_ready` says whether the device is done; and a send that
goes through does not overwrite what the device has yet to read. -/
def TxExact (s : State) : Op → Prop
  | .irq status =>
    status ≠ 0 → ((step s (.irq status)).txReady = true ↔ Complete (step s (.irq status)))
  | .send data =>
    s.txReady = true → data.length ≤ BUFFER_SIZE - HDR_SIZE → Complete s
  | _ => True

/-- An interrupt that finds all chains completed also finds `used.idx` not 0, unless
`tx_ready` is set already; one that finds a chain outstanding finds it 0. -/
def TxOrderly (s : State) : Op → Prop
  | .irq status =>
    status ≠ 0 → (Complete s → usedIdx s.mem s.txQueue ≠ 0 ∨ s.txReady = true) ∧
      (¬ Complete s → usedIdx s.mem s.txQueue = 0)
  | _ => True

/-- When `tx_ready` is set, nothing is outstanding. -/
structure TxInv (s : State) : Prop where
  inv : Inv s
  ready : s.txReady = true → Complete s

section Steps

variable {s : State}

/-- The receive side leaves what is outstanding outstanding. -/
theorem Inv.complete_of_rxArea (h : Inv s) {m : Memory} (hm : Within (RxArea s) s.mem m) :
    usedIdx m s.txQueue = availIdx m s.txQueue ↔ Complete s := by
  obtain ⟨havail, hused⟩ := h.of_rxArea hm
  rw [havail, hused]
  rfl

theorem Inv.recv (h : Inv s) (maxLen : Nat) :
    Inv (step s (.recv maxLen)) ∧ (step s (.recv maxLen)).txReady = s.txReady ∧
      (Complete (step s (.recv maxLen)) ↔ Complete s) := by
  show Inv (virtioNetRecv s maxLen).2.2 ∧ (virtioNetRecv s maxLen).2.2.txReady = s.txReady ∧
    (Complete (virtioNetRecv s maxLen).2.2 ↔ Complete s)
  by_cases hready : s.rxReady = true
  · obtain ⟨-, m, heq, hinv, hwithin, -, -⟩ := recv_ready h hready maxLen
    have hrx : Within (RxArea s) s.mem m := by
      refine hwithin.mono fun x hx => .inl ?_
      omega
    rw [heq]
    exact ⟨hinv, rfl, h.complete_of_rxArea hrx⟩
  · rw [recv_idle h (Bool.eq_false_iff.mpr hready)]
    exact ⟨h, rfl, Iff.rfl⟩

theorem Inv.received (h : Inv s) (header : Bytes) (p : Packet) :
    Inv (received s header p) ∧ (received s header p).txReady = s.txReady ∧
      (Complete (received s header p) ↔ Complete s) := by
  rcases received_cases h header p with ⟨-, heq⟩ | ⟨-, m, heq, hinv, hwithin, -⟩
  · rw [heq]
    exact ⟨h, rfl, Iff.rfl⟩
  · rw [heq]
    exact ⟨hinv, rfl, h.complete_of_rxArea hwithin⟩

theorem Inv.irq (h : Inv s) (status : Nat) :
    Inv (virtioNetHandleIrq s status) ∧ (virtioNetHandleIrq s status).mem = s.mem ∧
      (virtioNetHandleIrq s status).txQueue = s.txQueue := by
  by_cases hstatus : status = 0
  · rw [irq_none h hstatus]
    exact ⟨h, rfl, rfl⟩
  · rw [irq_eq h hstatus]
    exact ⟨h.flags _ _ _, rfl, rfl⟩

/-- What is wanted of a step holds exactly when interrupts come at the right
moment. -/
theorem txExact_iff (h : TxInv s) (op : Op) : TxExact s op ↔ TxOrderly s op := by
  cases op with
  | send data => exact ⟨fun _ => trivial, fun _ hready _ => h.ready hready⟩
  | recv maxLen => exact Iff.rfl
  | transmitted len => exact Iff.rfl
  | received header p => exact Iff.rfl
  | irq status =>
    unfold TxExact TxOrderly
    refine forall_congr' fun hstatus => ?_
    have hstep : step s (.irq status) = virtioNetHandleIrq s status := rfl
    have hcomplete : Complete (virtioNetHandleIrq s status) ↔ Complete s := by
      obtain ⟨-, hmem, hqueue⟩ := h.inv.irq status
      unfold Complete
      rw [hmem, hqueue]
    have hready : (virtioNetHandleIrq s status).txReady = true ↔
        s.txReady = true ∨ usedIdx s.mem s.txQueue ≠ 0 := by
      rw [irq_eq h.inv hstatus]
      simp
    rw [hstep, hcomplete, hready]
    by_cases hdone : Complete s
    · -- the handler has to set the flag, if it is not set
      simp only [hdone, iff_true, true_implies, not_true_eq_false, false_implies, and_true]
      exact or_comm
    · -- the handler must not set the flag
      have hclear : ¬ s.txReady = true := fun hr => hdone (h.ready hr)
      simp [hdone, hclear]

/-- A step that is exact keeps the flag honest. -/
theorem txInv_step (h : TxInv s) {op : Op} (hexact : TxExact s op) : TxInv (step s op) := by
  cases op with
  | send data =>
    rcases send_cases h.inv data with heq | ⟨-, m, heq, hwithin, -, -⟩
    · rw [heq]
      exact h
    · rw [heq]
      exact ⟨(h.inv.of_txArea hwithin false).1, fun hr => absurd hr (by simp)⟩
  | recv maxLen =>
    obtain ⟨hinv, hready, hcomplete⟩ := h.inv.recv maxLen
    exact ⟨hinv, fun hr => hcomplete.mpr (h.ready (hready ▸ hr))⟩
  | received header p =>
    obtain ⟨hinv, hready, hcomplete⟩ := h.inv.received header p
    exact ⟨hinv, fun hr => hcomplete.mpr (h.ready (hready ▸ hr))⟩
  | transmitted len =>
    show TxInv (transmitted s len)
    rcases transmitted_cases s len with ⟨-, heq⟩ | ⟨hbusy, m, heq, hwithin, -, -⟩
    · rw [heq]
      exact h
    · rw [heq]
      exact ⟨(h.inv.of_txArea hwithin s.txReady).1, fun hr => absurd (h.ready hr) hbusy⟩
  | irq status =>
    refine ⟨(h.inv.irq status).1, fun hr => ?_⟩
    by_cases hstatus : status = 0
    · have hnone : step s (.irq status) = s := irq_none h.inv hstatus
      rw [hnone] at hr ⊢
      exact h.ready hr
    · exact (hexact hstatus).mp hr

end Steps

/-- **Transmit readiness.** From a successful `virtio_net_init` on, in every run:
after each interrupt `tx_ready` is set exactly when every transmit chain has been
completed, and no send overwrites the buffer before, exactly when all interrupts
come at the right moment. -/
theorem transmit_ready_iff (s : State) (base : Nat) (regs : Nat → Nat) (ops : List Op)
    (hl : Loaded s) (hbase : base ≠ 0) (hcode : (virtioNetInit s base regs).1 = 0)
    (htx : (virtioNetInit s base regs).2.txQueue ≠ 0)
    (hrx : (virtioNetInit s base regs).2.rxQueue ≠ 0) :
    Meets step TxExact (virtioNetInit s base regs).2 ops ↔
      Meets step TxOrderly (virtioNetInit s base regs).2 ops := by
  have hstarted := init_spec hl hbase hcode htx hrx
  have hstart : TxInv (virtioNetInit s base regs).2 :=
    ⟨hstarted.inv, fun _ => hstarted.tx_used.trans hstarted.tx_avail.symm⟩
  exact meets_congr (fun s op h _ => txExact_iff h op)
    (fun s op h _ horderly => txInv_step h ((txExact_iff h op).mpr horderly)) hstart
    (meets_of_forall fun _ _ _ => trivial)

/-- A packet is sent, completed and reported. -/
theorem transmit_ready_once :
    Meets step TxExact started [.send [1, 2, 3], .transmitted 15, .irq 1] := by
  refine (transmit_ready_iff bootState 0x10001000 bootRegs
    [.send [1, 2, 3], .transmitted 15, .irq 1] loaded_boot (by decide) rfl tx_started
    rx_started).mpr ⟨trivial, trivial, fun _ => ?_, trivial⟩
  show (Complete (run step started [.send [1, 2, 3], .transmitted 15]) → _) ∧ _
  decide +kernel

/-- While a second packet is on its way, any interrupt sets `tx_ready`. -/
theorem transmit_ready_too_early :
    ¬ Meets step TxExact started
      [.send [1, 2, 3], .transmitted 15, .irq 1, .send [4], .irq 1] := by
  rintro ⟨-, -, -, -, hlast, -⟩
  have hwrong : (run step started
      [.send [1, 2, 3], .transmitted 15, .irq 1, .send [4], .irq 1]).txReady = true ∧
      ¬ Complete (run step started
        [.send [1, 2, 3], .transmitted 15, .irq 1, .send [4], .irq 1]) := by
    decide +kernel
  exact hwrong.2 ((hlast (by decide)).mp hwrong.1)

end AegisKernel.Virtio.Net
