import AegisKernel.Virtio.BlkWaiting

/-!
# Virtio — reading back what was written to the block device

Neither `virtio_blk_read` nor `virtio_blk_write` uses its argument `buf`: the
device transfers 512 bytes from or to a buffer inside of the queue, and nothing
copies between the two. Both return 0 all the same.

* `RoundTrip` — a history with a write and, later, a read of the same sectors,
  both of which return 0.
* `read_after_write_iff` — the buffer holds what was written exactly when it
  held it before the read.
-/

namespace AegisKernel.Virtio.Blk

open Library

/-- A write to one of the `n` sectors from `sector` on. -/
def WritesTo (sector n : Nat) : Op → Prop
  | .call (.write sector' _ n') _ => sector' < sector + n ∧ sector < sector' + n'
  | _ => False

/-- From `s₀` on: `count` sectors are written from the buffer at `wbuf`, and later
read to the buffer at `rbuf`, with no write to them in between. -/
structure RoundTrip (s₀ : State) where
  before : List Op
  between : List Op
  sector : Nat
  count : Nat
  wbuf : Nat
  rbuf : Nat
  writePolls : List (List Completion)
  readPolls : List (List Completion)
  -- the states around the two calls
  s₁ : State
  s₂ : State
  s₃ : State
  s₄ : State
  own₁ : Meets step OwnStore (some s₀) before
  reached : run step (some s₀) before = some s₁
  written : exec s₁ (.write sector wbuf count) writePolls = some (0, s₂)
  own₂ : Meets step OwnStore (some s₂) between
  later : run step (some s₂) between = some s₃
  untouched : ∀ op ∈ between, ¬ WritesTo sector count op
  read : exec s₃ (.read sector rbuf count) readPolls = some (0, s₄)
  -- the buffer belongs to the caller
  buffer : ∀ i < 512 * count, ¬ DriverArea s₃ (rbuf + i)

section Trips

variable {s₀ : State}

/-- The bytes written. -/
def RoundTrip.content (t : RoundTrip s₀) : Bytes := Library.read t.s₁.mem t.wbuf (512 * t.count)

/-- The read has filled its buffer with the bytes written. -/
def RoundTrip.ReadsBack (t : RoundTrip s₀) : Prop :=
  Library.read t.s₄.mem t.rbuf (512 * t.count) = t.content

/-- The bytes written are in the buffer before the read. -/
def RoundTrip.AlreadyThere (t : RoundTrip s₀) : Prop :=
  Library.read t.s₃.mem t.rbuf (512 * t.count) = t.content

end Trips

/-- Every step of a history keeps the driver's invariant. -/
theorem inv_step {s s' : State} (h : Inv s) {op : Op} (hown : OwnStore (some s) op)
    (hstep : step (some s) op = some s') : Inv s' := by
  cases op with
  | call c polls =>
    obtain ⟨⟨code, s₁⟩, hexec, rfl⟩ := Option.map_eq_some_iff.mp hstep
    exact (h.exec hexec).1
  | device c =>
    rw [← Option.some.inj hstep]
    exact (deviceRun_complete h c).inv
  | caller a bs =>
    rw [← Option.some.inj hstep]
    exact (inv_caller h hown).1

theorem inv_run {s s' : State} (h : Inv s) {ops : List Op} (hown : Meets step OwnStore (some s) ops)
    (hrun : run step (some s) ops = some s') : Inv s' := by
  induction ops generalizing s with
  | nil =>
    rw [← Option.some.inj hrun]
    exact h
  | cons op ops ih =>
    obtain ⟨hop, hown⟩ := hown
    obtain ⟨s₁, hnext, hrun⟩ := run_cons_some hrun
    rw [hnext] at hown
    exact ih (inv_step h hop hnext) hown hrun

/-- A read changes nothing in its buffer. -/
theorem RoundTrip.readsBack_iff {s₀ : State} (t : RoundTrip s₀) (h : Inv s₀) :
    t.ReadsBack ↔ t.AlreadyThere := by
  have hinv₁ := inv_run h t.own₁ t.reached
  have hinv₃ := inv_run (hinv₁.exec t.written).1 t.own₂ t.later
  have hframe := (hinv₃.exec t.read).2.2
  unfold RoundTrip.ReadsBack RoundTrip.AlreadyThere
  rw [hframe.read t.buffer]

-- ---------------------------------------------------------------------------
-- A round trip
-- ---------------------------------------------------------------------------

/-- The machine after `virtio_init`. -/
theorem boot_spec :
    (virtioInit bootState 0x10001000 bootRegs).2.mmio = true ∧
      (virtioInit bootState 0x10001000 bootRegs).2.writeReq = 0x100000 ∧
      (virtioInit bootState 0x10001000 bootRegs).2.flushReq = 0x101000 ∧
      (virtioInit bootState 0x10001000 bootRegs).2.heap.heapArea = 0x200000#64 ∧
      (virtioInit bootState 0x10001000 bootRegs).2.heap.heapOffset = 4096#64 ∧
      (virtioInit bootState 0x10001000 bootRegs).2.mem 0x400000 = 0 := by
  decide +kernel

/-- Memory the driver does not use on that machine. -/
theorem not_driverArea {s : State} (hqueue : s.queue = 0x200000) (hwrite : s.writeReq = 0x100000)
    (hflush : s.flushReq = 0x101000) (harea : s.heap.heapArea = 0x200000#64) {x : Nat}
    (hx : 0x300000 ≤ x) : ¬ DriverArea s x := by
  have harea : s.heap.heapArea.toNat = 0x200000 := by rw [harea]; rfl
  unfold DriverArea REQ_SIZE
  omega

/-- A byte 1 is stored at `0x300000`, and that buffer is written to sector 0 and
read back to the one at `rbuf`. -/
theorem exists_roundTrip (rbuf : Nat) (hrbuf : 0x300000 ≤ rbuf) :
    ∃ t : RoundTrip (virtioInit bootState 0x10001000 bootRegs).2,
      t.wbuf = 0x300000 ∧ t.rbuf = rbuf ∧ t.count = 1 ∧ t.s₁.mem 0x300000 = 1 ∧
      t.s₁.mem 0x400000 = 0 ∧ ∀ x, 0x300000 ≤ x → t.s₃.mem x = t.s₁.mem x := by
  obtain ⟨hmmio, hwrite, hflush, harea, hoffset, hzero⟩ := boot_spec
  obtain ⟨hinv₀, -, hidle₀⟩ := init_spec linked_boot code_boot queue_boot_ne_zero
  have hq := queue_boot
  generalize (virtioInit bootState 0x10001000 bootRegs).2 = s₀ at *
  -- the caller's store
  have hown : OwnStore (some s₀) (.caller 0x300000 [1]) := .inr (by rw [hq]; decide)
  obtain ⟨hinv₁, havail₁, hused₁⟩ := inv_caller hinv₀ hown
  have hidle₁ : Idle { s₀ with mem := write s₀.mem 0x300000 [1] } :=
    hused₁.trans (hidle₀.trans havail₁.symm)
  have hone : write s₀.mem 0x300000 [1] 0x300000 = 1 := put_inside (i := 0) (by decide)
  have hother : write s₀.mem 0x300000 [1] 0x400000 = 0 :=
    (put_outside (.inr (by decide))).trans hzero
  -- the write
  have hw₁ := begin_write (s := { s₀ with mem := write s₀.mem 0x300000 [1] }) hmmio 0 0x300000
  obtain ⟨hexec₁, hidle₂⟩ := exec_prompt hinv₁ hidle₁ hw₁ 0
  obtain ⟨hinv₂, -, hframe₁⟩ := hinv₁.exec hexec₁
  have hdriver := sameDriver_complete (virtioSubmitRequest
    { s₀ with mem := write s₀.mem 0x300000 [1] } s₀.writeReq VIRTIO_BLK_T_OUT 0) ⟨0, 0⟩
  generalize complete _ _ = s₂ at *
  have hheap₂ : s₂.heap = s₀.heap := hdriver.heap
  have hmmio₂ : s₂.mmio = true := hdriver.mmio.trans hmmio
  -- the read: the heap has room for its request
  have halloc : Mm.mmAlloc s₂.heap 529#64 16#64 =
      (some 4096#64, { s₀.heap with heapOffset := 4625#64 }) := by
    unfold Mm.mmAlloc
    rw [hheap₂, hoffset]
    rfl
  obtain ⟨hexec₂, -⟩ := exec_prompt hinv₂ hidle₂ (begin_read_of_alloc hmmio₂ halloc 0 rbuf) 0
  have hapart : ∀ x, 0x300000 ≤ x → ¬ DriverArea s₂ x := fun x hx =>
    not_driverArea (hdriver.queue.trans hq) (hdriver.writeReq.trans hwrite)
      (hdriver.flushReq.trans hflush) (by rw [hheap₂, harea]) hx
  refine ⟨⟨[.caller 0x300000 [1]], [], 0, 1, 0x300000, rbuf, [[⟨0, 0⟩]], [[⟨0, 0⟩]], _, _, _, _,
    ⟨hown, trivial⟩, rfl, hexec₁, trivial, rfl, by simp, hexec₂,
    fun i _ => hapart _ (by omega)⟩, rfl, rfl, rfl, hone, hother, fun x hx => ?_⟩
  exact hframe₁ x (not_driverArea hq hwrite hflush harea hx)

/-- **Read after write.** After a successful `virtio_init`, in every history: a read
that returns 0 leaves in its buffer what the earlier write of the same sectors was
given exactly when the buffer held it before the read. -/
theorem read_after_write_iff (s : State) (base : Nat) (regs : Nat → Nat)
    (hl : Linked s.heap s.writeReq s.flushReq) (hcode : (virtioInit s base regs).1 = 0)
    (hqueue : (virtioInit s base regs).2.queue ≠ 0)
    (t : RoundTrip (virtioInit s base regs).2) : t.ReadsBack ↔ t.AlreadyThere :=
  t.readsBack_iff (init_spec hl hcode hqueue).1

/-- Reading to the buffer that was written leaves it as it is. -/
theorem read_after_write_same_buffer :
    ∃ t : RoundTrip (virtioInit bootState 0x10001000 bootRegs).2,
      t.count = 1 ∧ t.rbuf = t.wbuf ∧ t.ReadsBack := by
  obtain ⟨t, hwbuf, hrbuf, hcount, -, -, hframe⟩ := exists_roundTrip 0x300000 (Nat.le_refl _)
  refine ⟨t, hcount, hrbuf.trans hwbuf.symm, ?_⟩
  refine (read_after_write_iff bootState 0x10001000 bootRegs linked_boot code_boot
    queue_boot_ne_zero t).mpr ?_
  unfold RoundTrip.AlreadyThere RoundTrip.content
  rw [hrbuf, hwbuf]
  exact read_congr fun i _ => hframe _ (by omega)

/-- Reading to another buffer leaves the zero in it that was there. -/
theorem read_after_write_fails :
    ∃ t : RoundTrip (virtioInit bootState 0x10001000 bootRegs).2,
      t.count = 1 ∧ ¬ t.ReadsBack := by
  obtain ⟨t, hwbuf, hrbuf, hcount, hone, hzero, hframe⟩ := exists_roundTrip 0x400000 (by decide)
  refine ⟨t, hcount, fun hback => ?_⟩
  have hthere := (t.readsBack_iff (init_spec linked_boot code_boot queue_boot_ne_zero).1).mp hback
  unfold RoundTrip.AlreadyThere RoundTrip.content at hthere
  rw [hcount, hrbuf, hwbuf] at hthere
  have hfirst := eq_of_read hthere (i := 0) (by decide)
  rw [Nat.add_zero, Nat.add_zero, hframe 0x400000 (by decide), hzero, hone] at hfirst
  exact absurd hfirst (by decide)

end AegisKernel.Virtio.Blk
