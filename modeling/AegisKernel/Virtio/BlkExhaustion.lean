import AegisKernel.Virtio.BlkData

/-!
# Virtio — the heap and block reads

`virtio_blk_read` takes a request object of 529 bytes from the heap, which is never
given back.

* `Served` — the device completes the request, with status OK.
* `wait_served` — the loop then ends with that completion.
* `Ready` — a driver with nothing outstanding, few requests after `virtio_init`.
* `read_spec` — one read, with room in the heap or without.
* `reads_return_zero_iff` — how many reads in a row return 0.
-/

namespace AegisKernel.Virtio.Blk

open Library

/-- A read of one sector, and what the device does meanwhile. -/
structure Read where
  sector : Nat
  buf : Nat
  polls : List (List Completion)

/-- The device completes the request, with status OK. -/
def Served (r : Read) : Prop :=
  (∀ cs ∈ r.polls, ∀ c ∈ cs, c.status = VIRTIO_BLK_S_OK) ∧ ∃ cs ∈ r.polls, cs ≠ []

/-- Reads one after the other: what they return. -/
def readAll (s : State) : List Read → Option (List Int × State)
  | [] => some ([], s)
  | r :: rs => do
    let (code, s₁) ← exec s (.read r.sector r.buf 1) r.polls
    let (codes, s') ← readAll s₁ rs
    return (code :: codes, s')

/-- A driver that has been initialised and has nothing outstanding. Every request so
far may have been a read. -/
structure Ready (s : State) : Prop where
  inv : Inv s
  idle : Idle s
  mmio : s.mmio = true
  posted : 529 * availIdx s.mem s.queue ≤ s.heap.heapOffset.toNat

section OneRead

variable {s w : State}

/-- The loop with one request outstanding ends with its completion. -/
theorem wait_served (h : Inv w)
    (hone : availIdx w.mem w.queue = (usedIdx w.mem w.queue + 1) % 65536)
    (hne : availIdx w.mem w.queue ≠ 0) {polls : List (List Completion)}
    (hsome : ∃ cs ∈ polls, cs ≠ []) :
    ∃ c, (∃ cs ∈ polls, c ∈ cs) ∧ wait w polls = some (complete w c) ∧ Idle (complete w c) := by
  have hlt : usedIdx w.mem w.queue < 65536 := usedIdx_lt
  induction polls with
  | nil => simp at hsome
  | cons cs polls ih =>
    cases cs with
    | nil =>
      -- not yet completed
      obtain ⟨c, ⟨cs, hcs, hc⟩, hwait, hidle⟩ := ih (by simpa using hsome)
      refine ⟨c, ⟨cs, List.mem_cons_of_mem _ hcs, hc⟩, ?_, hidle⟩
      rw [wait, List.foldl_nil, if_pos (by omega)]
      exact hwait
    | cons c cs =>
      have hidle : Idle (complete w c) := idle_foldl_one h hone c []
      refine ⟨c, ⟨c :: cs, List.mem_cons_self .., List.mem_cons_self ..⟩, ?_, hidle⟩
      have hlast : (c :: cs).foldl complete w = complete w c := by
        rw [List.foldl_cons, foldl_idle hidle]
      rw [wait, hlast, if_neg hidle.leaves]

/-- Room for one more request object. -/
def Fits (s : State) : Prop := roundUp 16 s.heap.heapOffset.toNat + 529 ≤ 262144

/-- The request object of a read, with room in the heap or without. -/
theorem begin_read (h : Inv s) (hmmio : s.mmio = true) (sector buf : Nat) :
    (Fits s → ∃ w, begin s (.read sector buf 1) = .waiting w ∧ w.mmio = true ∧
        w.heap.heapOffset.toNat = roundUp 16 s.heap.heapOffset.toNat + 529) ∧
      (¬ Fits s → begin s (.read sector buf 1) = .done (-1) s) := by
  have hoffset := h.linked.offset
  have hup := roundUp_le (a := 16) (n := s.heap.heapOffset.toNat)
  have hon : ¬ (!s.mmio) = true := by simp [hmmio]
  have hbegin : begin s (.read sector buf 1) = virtioBlkRead s sector buf 1 := rfl
  have halloc := Mm.alloc_cases (s := s.heap) hoffset 529#64 (⟨4, rfl⟩ : Mm.PowerOfTwo 16#64)
  -- the end of the request object does not wrap
  have hstop : (roundUp (16#64).toNat s.heap.heapOffset.toNat + (529#64).toNat) % 2 ^ 64 =
      roundUp 16 s.heap.heapOffset.toNat + 529 := by
    show (roundUp 16 s.heap.heapOffset.toNat + 529) % 2 ^ 64 = _
    omega
  dsimp only at halloc
  rw [hstop, Mm.heapSize_toNat] at halloc
  rw [hbegin, virtioBlkRead, if_neg hon, if_neg (by omega)]
  unfold Fits
  rcases halloc with ⟨hfull, hres⟩ | ⟨hfit, start, -, hres, hnext⟩
  · rw [hres]
    exact ⟨fun hfits => absurd hfits (by omega), fun _ => rfl⟩
  · rw [hres]
    exact ⟨fun _ => ⟨_, rfl, hmmio, hnext⟩, fun hfull => absurd hfit hfull⟩

/-- One read takes its request object from the heap, or fails. -/
theorem read_spec (h : Ready s) {r : Read} (hr : Served r) :
    (Fits s → ∃ s', exec s (.read r.sector r.buf 1) r.polls = some (0, s') ∧ Ready s' ∧
        s'.heap.heapOffset.toNat = roundUp 16 s.heap.heapOffset.toNat + 529) ∧
      (¬ Fits s → exec s (.read r.sector r.buf 1) r.polls = some (-1, s)) := by
  obtain ⟨hfits, hfull⟩ := begin_read h.inv h.mmio r.sector r.buf
  unfold Blk.exec
  refine ⟨fun hroom => ?_, fun hroom => by rw [hfull hroom]; rfl⟩
  obtain ⟨w, hw, hmmio, hheap⟩ := hfits hroom
  obtain ⟨hinv, -, havail, hone⟩ := submit_one h.inv h.idle hw
  -- there have been few requests so far
  have hle := le_roundUp (a := 16) (n := s.heap.heapOffset.toNat) (by omega)
  have hposted := h.posted
  have hoffset := h.inv.linked.offset
  obtain ⟨c, ⟨cs, hcs, hc⟩, hwait, hidle⟩ := wait_served hinv hone (by omega) hr.2
  have hrun := deviceRun_complete hinv c
  have hcode : load (complete w c).mem (usedRingAt w.queue 0) 4 = 0 :=
    (id_complete hinv (not_idle_one hone) c).mpr (.inr (hr.1 cs hcs c hc))
  refine ⟨complete w c, ?_, ⟨hrun.inv, hidle, hrun.driver.mmio.trans hmmio, ?_⟩, ?_⟩
  · rw [hw, Begun.finish, hwait, Option.map_some, hrun.driver.queue,
      if_neg (not_not_intro hcode)]
  · rw [hrun.avail, hrun.driver.heap, hheap, havail]
    omega
  · rw [hrun.driver.heap, hheap]

end OneRead

theorem roundUp_next (n : Nat) : roundUp 16 (roundUp 16 n + 529) = roundUp 16 n + 544 := by
  unfold roundUp
  omega

/-- Reads in a row all return 0 exactly when the heap has room for all of their request
objects, one every 544 bytes. -/
theorem readAll_spec {s : State} (h : Ready s) (rs : List Read) (hrs : ∀ r ∈ rs, Served r) :
    ∃ codes s', readAll s rs = some (codes, s') ∧ ((∀ code ∈ codes, code = 0) ↔ rs = [] ∨
      roundUp 16 s.heap.heapOffset.toNat + 529 + 544 * (rs.length - 1) ≤ 262144) := by
  induction rs generalizing s with
  | nil => exact ⟨[], s, rfl, by simp⟩
  | cons r rs ih =>
    obtain ⟨hfits, hfull⟩ := read_spec h (hrs r (List.mem_cons_self ..))
    have hrest : ∀ r ∈ rs, Served r := fun r hr => hrs r (List.mem_cons_of_mem _ hr)
    unfold Fits at hfits hfull
    rw [List.length_cons, Nat.add_sub_cancel]
    by_cases hroom : roundUp 16 s.heap.heapOffset.toNat + 529 ≤ 262144
    · obtain ⟨s₁, hexec, hready, hoffset⟩ := hfits hroom
      obtain ⟨codes, s', hcodes, hiff⟩ := ih hready hrest
      refine ⟨0 :: codes, s', by rw [readAll, hexec]; simp [hcodes], ?_⟩
      rw [List.forall_mem_cons, hiff, hoffset, roundUp_next]
      cases rs with
      | nil => simp [hroom]
      | cons r' rs =>
        rw [List.length_cons, Nat.add_sub_cancel]
        simp
        omega
    · obtain ⟨codes, s', hcodes, -⟩ := ih h hrest
      refine ⟨-1 :: codes, s', by rw [readAll, hfull hroom]; simp [hcodes], ?_⟩
      refine iff_of_false (fun hall => ?_) ?_
      · exact absurd (hall _ (List.mem_cons_self ..)) (by omega)
      · simp
        omega

theorem mmio_setup (s : State) : (virtioQueueSetup s).mmio = s.mmio := by
  unfold virtioQueueSetup
  split
  · rfl
  · rfl

section FromInit

variable {s : State} {base : Nat} {regs : Nat → Nat}

/-- The machine after `virtio_init`, with the heap filled up to `offset`. -/
def withHeap (s : State) (offset : Mm.Word) : State :=
  { s with heap := { s.heap with heapOffset := offset } }

theorem ready_init {offset : Mm.Word} (hl : Linked s.heap s.writeReq s.flushReq)
    (hbase : base ≠ 0) (hcode : (virtioInit s base regs).1 = 0)
    (hqueue : (virtioInit s base regs).2.queue ≠ 0)
    (hlo : (virtioInit s base regs).2.heap.heapOffset.toNat ≤ offset.toNat)
    (hhi : offset.toNat ≤ 262144) : Ready (withHeap (virtioInit s base regs).2 offset) := by
  obtain ⟨hinv, havail, hidle⟩ := init_spec hl hcode hqueue
  have hmmio : (virtioInit s base regs).2.mmio = true := by
    rw [init_eq hcode, mmio_setup]
    simpa using hbase
  generalize (virtioInit s base regs).2 = s₀ at *
  have hlinked : Linked { s₀.heap with heapOffset := offset } s₀.writeReq s₀.flushReq :=
    ⟨hinv.linked.area_pos, hinv.linked.area, hhi,
      ⟨hinv.linked.writeReq.1, hinv.linked.writeReq.2⟩,
      ⟨hinv.linked.flushReq.1, hinv.linked.flushReq.2⟩⟩
  have hupper := hinv.upper
  refine ⟨⟨hlinked, hinv.lower, ?_, hinv.ring, hinv.wired, hinv.id⟩, hidle, hmmio, ?_⟩
  · show s₀.queue + 4096 ≤ s₀.heap.heapArea.toNat + offset.toNat
    omega
  · show 529 * availIdx s₀.mem s₀.queue ≤ offset.toNat
    omega

end FromInit

/-- **Reads use the heap up.** After a successful `virtio_init`, with the heap filled up
to any offset, and with a device that completes every request with status OK: reads in a
row all return, and they all return 0 exactly when there are none or the heap has room
for a request object of 529 bytes every 544 bytes. -/
theorem reads_return_zero_iff (s : State) (base : Nat) (regs : Nat → Nat) (offset : Mm.Word)
    (rs : List Read) (hl : Linked s.heap s.writeReq s.flushReq) (hbase : base ≠ 0)
    (hcode : (virtioInit s base regs).1 = 0) (hqueue : (virtioInit s base regs).2.queue ≠ 0)
    (hlo : (virtioInit s base regs).2.heap.heapOffset.toNat ≤ offset.toNat)
    (hhi : offset.toNat ≤ 262144) (hrs : ∀ r ∈ rs, Served r) :
    ∃ codes s', readAll (withHeap (virtioInit s base regs).2 offset) rs = some (codes, s') ∧
      ((∀ code ∈ codes, code = 0) ↔
        rs = [] ∨ roundUp 16 offset.toNat + 529 + 544 * (rs.length - 1) ≤ 262144) :=
  readAll_spec (ready_init hl hbase hcode hqueue hlo hhi) rs hrs

/-- A read that is completed at once. -/
def promptRead : Read := ⟨0, 0, [[⟨0, 0⟩]]⟩

theorem served_promptRead : Served promptRead :=
  ⟨by simp [promptRead, VIRTIO_BLK_S_OK], _, List.mem_cons_self .., List.cons_ne_nil _ _⟩

/-- 474 reads right after `virtio_init`. -/
theorem reads_return_zero_474 :
    ∃ codes s', readAll (withHeap (virtioInit bootState 0x10001000 bootRegs).2 4096#64)
        (List.replicate 474 promptRead) = some (codes, s') ∧ ∀ code ∈ codes, code = 0 := by
  have hlo : (virtioInit bootState 0x10001000 bootRegs).2.heap.heapOffset.toNat ≤ 4096 := by
    rw [boot_spec.2.2.2.2.1]
    exact Nat.le_refl _
  obtain ⟨codes, s', hcodes, hiff⟩ := reads_return_zero_iff bootState 0x10001000 bootRegs 4096#64
    (List.replicate 474 promptRead) linked_boot (by decide) code_boot queue_boot_ne_zero hlo
    (by decide) fun r hr => List.eq_of_mem_replicate hr ▸ served_promptRead
  refine ⟨codes, s', hcodes, hiff.mpr (.inr ?_)⟩
  rw [List.length_replicate]
  decide

/-- With room for one request object, one read returns 0 and of two one does not. -/
theorem second_read_fails :
    (∃ codes s', readAll (withHeap (virtioInit bootState 0x10001000 bootRegs).2 261600#64)
        [promptRead] = some (codes, s') ∧ ∀ code ∈ codes, code = 0) ∧
      ∃ codes s', readAll (withHeap (virtioInit bootState 0x10001000 bootRegs).2 261600#64)
        [promptRead, promptRead] = some (codes, s') ∧ ¬ ∀ code ∈ codes, code = 0 := by
  have hlo : (virtioInit bootState 0x10001000 bootRegs).2.heap.heapOffset.toNat ≤
      (261600#64).toNat := by
    rw [boot_spec.2.2.2.2.1]
    decide
  have hready := ready_init linked_boot (by decide) code_boot queue_boot_ne_zero hlo (by decide)
  obtain ⟨codes₁, s₁, hcodes₁, hiff₁⟩ := readAll_spec hready [promptRead]
    (by simpa using served_promptRead)
  obtain ⟨codes₂, s₂, hcodes₂, hiff₂⟩ := readAll_spec hready [promptRead, promptRead]
    (by simpa using served_promptRead)
  exact ⟨⟨codes₁, s₁, hcodes₁, hiff₁.mpr (.inr (by decide))⟩,
    codes₂, s₂, hcodes₂, fun hall => absurd (hiff₂.mp hall) (by decide)⟩

end AegisKernel.Virtio.Blk
