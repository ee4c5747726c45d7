import AegisKernel.Library.Runs
import AegisKernel.Mm.Heap
import AegisKernel.Virtio.Blk

/-!
# Virtio — requests to the block device

Every request uses descriptors 0 to 2 of the queue, and every slot of the
available ring holds the head 0.

* `Inv` — where the queue and the requests lie, and what the queue holds; every
  step of a history keeps it.
* `submit_spec` — what `virtio_submit_request` does.
* `complete_spec` — what the device does with such a request.
* `DeviceRun` — what the device can do while a call is in its loop.
* `Inv.exec` — what a call can change in memory, whatever the device does.
-/

namespace AegisKernel.Virtio.Blk

open Library

-- ---------------------------------------------------------------------------
-- Placement
-- ---------------------------------------------------------------------------

/-- A request object outside of the heap. -/
structure Apart (heap : Mm.State) (a : Nat) : Prop where
  outside : a + REQ_SIZE ≤ heap.heapArea.toNat ∨ heap.heapArea.toNat + 262144 ≤ a
  addressable : a + REQ_SIZE ≤ 2 ^ 64

/-- The heap and the two static requests, as the linker placed them. -/
structure Linked (heap : Mm.State) (writeReq flushReq : Nat) : Prop where
  area_pos : 0 < heap.heapArea.toNat
  area : heap.heapArea.toNat + 262144 ≤ 2 ^ 64
  offset : heap.heapOffset.toNat ≤ 262144
  writeReq : Apart heap writeReq
  flushReq : Apart heap flushReq

/-- Descriptors 0 to 2 lead the device to a data buffer and a status byte inside
of the queue. -/
structure Wired (m : Memory) (q : Nat) : Prop where
  header : (readDesc m q 0).next = 1
  data : (readDesc m q 1).addr = q + 512
  data_next : (readDesc m q 1).next = 2
  status : (readDesc m q 2).addr = usedRingAt q 0

structure Inv (s : State) : Prop where
  linked : Linked s.heap s.writeReq s.flushReq
  lower : s.heap.heapArea.toNat ≤ s.queue
  upper : s.queue + 4096 ≤ s.heap.heapArea.toNat + s.heap.heapOffset.toNat
  ring : ∀ i < 128, availRing s.mem s.queue i = 0
  wired : usedIdx s.mem s.queue ≠ availIdx s.mem s.queue → Wired s.mem s.queue
  -- the three bytes of `used.ring[0].id` that no status byte is stored to
  id : ∀ k < 3, s.mem (s.queue + 2319 + k) = 0

/-- A request object that does not overlap the queue. -/
def Clear (s : State) (req : Nat) : Prop :=
  (req + REQ_SIZE ≤ s.queue ∨ s.queue + 4096 ≤ req) ∧ req + REQ_SIZE ≤ 2 ^ 64

theorem Inv.queue_lt {s : State} (h : Inv s) : s.queue + 4096 ≤ 2 ^ 64 := by
  have hupper := h.upper
  have harea := h.linked.area
  have hoffset := h.linked.offset
  omega

theorem Inv.clear_of_apart {s : State} (h : Inv s) {a : Nat} (ha : Apart s.heap a) : Clear s a := by
  have hlower := h.lower
  have hupper := h.upper
  have hoffset := h.linked.offset
  have houtside := ha.outside
  exact ⟨by omega, ha.addressable⟩

theorem Wired.congr {m m' : Memory} {q : Nat} (h : Wired m q)
    (hsame : ∀ i < 3, readDesc m' q i = readDesc m q i) : Wired m' q := by
  refine ⟨?_, ?_, ?_, ?_⟩
  · rw [hsame 0 (by decide), h.header]
  · rw [hsame 1 (by decide), h.data]
  · rw [hsame 1 (by decide), h.data_next]
  · rw [hsame 2 (by decide), h.status]

/-- Stores that stay outside of the queue change nothing the driver relies on. -/
theorem Inv.outside {s : State} (h : Inv s) {R : Nat → Prop} {m : Memory}
    (hwithin : Within R s.mem m) (hR : ∀ x, s.queue ≤ x → x < s.queue + 4096 → ¬ R x) :
    Inv { s with mem := m } ∧ availIdx m s.queue = availIdx s.mem s.queue ∧
      usedIdx m s.queue = usedIdx s.mem s.queue := by
  have hdesc : ∀ i < 3, readDesc m s.queue i = readDesc s.mem s.queue i := by
    intro i hi
    refine readDesc_of_within hwithin fun x hx => ?_
    unfold DescArea at hx
    exact hR x (by omega) (by omega)
  -- the two counters and the ring of heads
  have havailArea : ∀ x, AvailArea s.queue x → ¬ R x := by
    intro x hx
    unfold AvailArea at hx
    exact hR x (by omega) (by omega)
  have havail := availIdx_of_within hwithin havailArea
  have hused : usedIdx m s.queue = usedIdx s.mem s.queue := by
    refine usedIdx_of_within hwithin fun x hx => ?_
    unfold UsedArea at hx
    exact hR x (by omega) (by omega)
  refine ⟨⟨h.linked, h.lower, h.upper, fun i hi => ?_, fun hbusy => ?_, fun k hk => ?_⟩, havail,
    hused⟩
  · exact (availRing_of_within hwithin havailArea hi).trans (h.ring i hi)
  · have hbusy : usedIdx m s.queue ≠ availIdx m s.queue := hbusy
    rw [havail, hused] at hbusy
    exact (h.wired hbusy).congr hdesc
  · show m (s.queue + 2319 + k) = 0
    rw [hwithin _ (hR _ (by omega) (by omega)), h.id k hk]

-- ---------------------------------------------------------------------------
-- Submitting
-- ---------------------------------------------------------------------------

/-- The descriptors of a request, and the fields of the request itself. -/
def RequestArea (q req x : Nat) : Prop := (q ≤ x ∧ x < q + 48) ∨ (req ≤ x ∧ x < req + 16)

/-- `virtio_submit_request` fills in the request and three descriptors, and posts
them. -/
theorem submit_spec (s : State) (req type sector : Nat) :
    ∃ m, virtioSubmitRequest s req type sector = { s with mem := post m s.queue } ∧
      Within (RequestArea s.queue req) s.mem m ∧
      readDesc m s.queue 0 = Desc.stored ⟨req, REQ_SIZE, VIRTIO_DESC_F_NEXT, 1⟩ ∧
      readDesc m s.queue 1 = Desc.stored ⟨s.queue + 512, 512,
        (if type = VIRTIO_BLK_T_OUT then VIRTIO_DESC_F_WRITE else 0) ||| VIRTIO_DESC_F_NEXT, 2⟩ ∧
      readDesc m s.queue 2 =
        Desc.stored ⟨usedRingAt s.queue 0, 1, VIRTIO_DESC_F_WRITE, 0⟩ := by
  have hdesc : ∀ i < 3, ∀ x, DescArea s.queue i x → RequestArea s.queue req x := by
    intro i hi x hx
    unfold DescArea at hx
    exact .inl ⟨by omega, by omega⟩
  refine ⟨_, rfl, ?_, ?_, ?_, ?_⟩
  · refine Within.trans ?_ ((within_writeDesc _ _ 2 _).mono (hdesc 2 (by decide)))
    refine Within.trans ?_ ((within_writeDesc _ _ 1 _).mono (hdesc 1 (by decide)))
    refine Within.trans ?_ ((within_writeDesc _ _ 0 _).mono (hdesc 0 (by decide)))
    -- the three fields of the request
    refine Within.store (Within.store (Within.store (Within.refl _ _) ?_) ?_) ?_
    · exact fun k hk => .inr ⟨by omega, by omega⟩
    · exact fun k hk => .inr ⟨by omega, by omega⟩
    · exact fun k hk => .inr ⟨by omega, by omega⟩
  · rw [readDesc_writeDesc_of_ne (by decide), readDesc_writeDesc_of_ne (by decide),
      readDesc_writeDesc]
  · rw [readDesc_writeDesc_of_ne (by decide), readDesc_writeDesc]
  · rw [readDesc_writeDesc]

section Submit

variable {s : State} {req : Nat}

theorem Clear.not_requestArea (hc : Clear s req) {x : Nat} (hlo : s.queue + 48 ≤ x)
    (hhi : x < s.queue + 4096) : ¬ RequestArea s.queue req x := by
  have hapart := hc.1
  unfold REQ_SIZE at hapart
  rintro (h | h)
  · omega
  · omega

/-- One more request is posted; the ring of heads and the used ring stay as they
are, and the device will find its way. -/
theorem Inv.submit (h : Inv s) (hc : Clear s req) (type sector : Nat) :
    Inv (virtioSubmitRequest s req type sector) ∧
      availIdx (virtioSubmitRequest s req type sector).mem s.queue =
        (availIdx s.mem s.queue + 1) % 65536 ∧
      usedIdx (virtioSubmitRequest s req type sector).mem s.queue = usedIdx s.mem s.queue := by
  obtain ⟨m, heq, hwithin, h₀, h₁, h₂⟩ := submit_spec s req type sector
  have hq := h.queue_lt
  -- neither ring is where the descriptors and the request are
  have havail : availIdx m s.queue = availIdx s.mem s.queue := by
    refine availIdx_of_within hwithin fun x hx => ?_
    unfold AvailArea at hx
    exact hc.not_requestArea (by omega) (by omega)
  have hused : usedIdx m s.queue = usedIdx s.mem s.queue := by
    refine usedIdx_of_within hwithin fun x hx => ?_
    unfold UsedArea at hx
    exact hc.not_requestArea (by omega) (by omega)
  rw [heq]
  refine ⟨⟨h.linked, h.lower, h.upper, fun i hi => ?_, fun _ => ?_, fun k hk => ?_⟩, ?_, ?_⟩
  · show availRing (post m s.queue) s.queue i = 0
    have hring : availRing m s.queue i = availRing s.mem s.queue i := by
      refine availRing_of_within hwithin (fun x hx => ?_) hi
      unfold AvailArea at hx
      exact hc.not_requestArea (by omega) (by omega)
    rw [availRing_post hi, hring, h.ring i hi, ite_self]
  · -- addresses are kept whole, because the queue ends below 2^64
    show Wired (post m s.queue) s.queue
    refine ⟨?_, ?_, ?_, ?_⟩
    · rw [readDesc_post (by decide), h₀]
      rfl
    · rw [readDesc_post (by decide), h₁]
      show (s.queue + 512) % 2 ^ 64 = s.queue + 512
      exact Nat.mod_eq_of_lt (by omega)
    · rw [readDesc_post (by decide), h₁]
      rfl
    · rw [readDesc_post (by decide), h₂]
      show (s.queue + 2318 + 8 * 0) % 2 ^ 64 = s.queue + 2318 + 8 * 0
      exact Nat.mod_eq_of_lt (by omega)
  · show post m s.queue (s.queue + 2319 + k) = 0
    have hpost : ¬ AvailArea s.queue (s.queue + 2319 + k) := by
      unfold AvailArea
      omega
    rw [within_post m s.queue _ hpost, hwithin _ (hc.not_requestArea (by omega) (by omega)),
      h.id k hk]
  · show availIdx (post m s.queue) s.queue = _
    rw [availIdx_post, havail]
  · show usedIdx (post m s.queue) s.queue = _
    rw [usedIdx_post, hused]

end Submit

-- ---------------------------------------------------------------------------
-- Completing
-- ---------------------------------------------------------------------------

/-- What the device stores to: the data buffer and the used ring. -/
def DeviceArea (q x : Nat) : Prop := (q + 512 ≤ x ∧ x < q + 1024) ∨ UsedArea q x

section Complete

variable {s : State} {c : Completion}

theorem complete_idle (h : usedIdx s.mem s.queue = availIdx s.mem s.queue) (c : Completion) :
    complete s c = s := if_pos h

theorem within_transfer (s : State) (type sector buf : Nat) :
    Within (fun x => buf ≤ x ∧ x < buf + 512) s.mem (transfer s type sector buf).1 := by
  unfold transfer
  split
  · exact (Within.refl _ _).put fun i hi => ⟨by omega, by omega⟩
  · split
    · exact Within.refl _ _
    · exact Within.refl _ _

/-- What the device does with the next request. -/
theorem complete_spec (h : Inv s) (hbusy : usedIdx s.mem s.queue ≠ availIdx s.mem s.queue)
    (c : Completion) :
    ∃ m disk, complete s c = { s with
        mem := publish (put m (usedRingAt s.queue 0) 1 fun _ => c.status) s.queue 0 c.len, disk } ∧
      Within (fun x => s.queue + 512 ≤ x ∧ x < s.queue + 1024) s.mem m := by
  have hw := h.wired hbusy
  have hhead : nextHead s.mem s.queue = 0 := h.ring _ (slot_lt _)
  have hdata := within_transfer s (load s.mem (readDesc s.mem s.queue 0).addr 4)
    (load s.mem ((readDesc s.mem s.queue 0).addr + 8) 8) (s.queue + 512)
  refine ⟨_, (transfer s (load s.mem (readDesc s.mem s.queue 0).addr 4)
    (load s.mem ((readDesc s.mem s.queue 0).addr + 8) 8) (s.queue + 512)).2, ?_,
    hdata.mono fun x hx => ⟨by omega, by omega⟩⟩
  unfold complete
  dsimp only
  rw [if_neg hbusy, hhead, hw.header, hw.data, hw.data_next, hw.status]

/-- Publishing the head 0 leaves the upper bytes of `used.ring[0].id` zero. -/
theorem id_publish {m : Memory} (q len : Nat) (hid : ∀ k < 3, m (q + 2319 + k) = 0) :
    ∀ k < 3, publish m q 0 len (q + 2319 + k) = 0 := by
  intro k hk
  unfold publish usedRingAt usedIdxAt
  rw [store_outside (by omega), store_outside (by omega)]
  by_cases hslot : usedIdx m q % VIRTIO_QUEUE_SIZE = 0
  · rw [hslot]
    exact store_zero_inside (by omega) (by omega)
  · rw [store_outside (by omega), hid k hk]

/-- The device changes no variable of the driver. -/
structure SameDriver (s s' : State) : Prop where
  heap : s'.heap = s.heap
  mmio : s'.mmio = s.mmio
  queue : s'.queue = s.queue
  writeReq : s'.writeReq = s.writeReq
  flushReq : s'.flushReq = s.flushReq

theorem SameDriver.refl (s : State) : SameDriver s s := ⟨rfl, rfl, rfl, rfl, rfl⟩

theorem SameDriver.trans {s₁ s₂ s₃ : State} (h : SameDriver s₁ s₂) (h' : SameDriver s₂ s₃) :
    SameDriver s₁ s₃ :=
  ⟨h'.heap.trans h.heap, h'.mmio.trans h.mmio, h'.queue.trans h.queue,
    h'.writeReq.trans h.writeReq, h'.flushReq.trans h.flushReq⟩

theorem sameDriver_complete (s : State) (c : Completion) : SameDriver s (complete s c) := by
  unfold complete
  dsimp only
  split
  · exact SameDriver.refl s
  · exact ⟨rfl, rfl, rfl, rfl, rfl⟩

/-- One more request is completed; nothing but the data buffer and the used ring
has changed. -/
theorem Inv.busy (h : Inv s) (hbusy : usedIdx s.mem s.queue ≠ availIdx s.mem s.queue)
    (c : Completion) :
    Inv (complete s c) ∧ Within (DeviceArea s.queue) s.mem (complete s c).mem ∧
      availIdx (complete s c).mem s.queue = availIdx s.mem s.queue ∧
      usedIdx (complete s c).mem s.queue = (usedIdx s.mem s.queue + 1) % 65536 := by
  obtain ⟨m, disk, heq, hdata⟩ := complete_spec h hbusy c
  have hstatus : Within (DeviceArea s.queue) s.mem
      (put m (usedRingAt s.queue 0) 1 fun _ => c.status) := by
    refine (hdata.mono fun x hx => .inl hx).put fun i hi => .inr ?_
    unfold usedRingAt UsedArea
    omega
  have hwithin : Within (DeviceArea s.queue) s.mem
      (publish (put m (usedRingAt s.queue 0) 1 fun _ => c.status) s.queue 0 c.len) :=
    hstatus.trans ((within_publish _ _ _ _).mono fun x hx => .inr hx)
  have hout : ∀ x, AvailArea s.queue x → ¬ DeviceArea s.queue x := by
    intro x hx hx'
    unfold AvailArea at hx
    unfold DeviceArea UsedArea at hx'
    omega
  have hdesc : ∀ i < 3, ∀ x, DescArea s.queue i x → ¬ DeviceArea s.queue x := by
    intro i hi x hx hx'
    unfold DescArea at hx
    unfold DeviceArea UsedArea at hx'
    omega
  -- the status byte is behind `used.idx`
  have hidx : usedIdx (put m (usedRingAt s.queue 0) 1 fun _ => c.status) s.queue =
      usedIdx s.mem s.queue := by
    refine load_congr fun i hi => ?_
    unfold usedIdxAt usedRingAt
    rw [put_outside (by omega), hdata _ (by omega)]
  rw [heq]
  refine ⟨⟨h.linked, h.lower, h.upper, fun i hi => ?_, fun _ => ?_, fun k hk => ?_⟩, hwithin,
    availIdx_of_within hwithin hout, ?_⟩
  · exact (availRing_of_within hwithin hout hi).trans (h.ring i hi)
  · exact (h.wired hbusy).congr fun i hi => readDesc_of_within hwithin (hdesc i hi)
  · exact id_publish s.queue c.len (fun k hk => by
      rw [put_outside (by unfold usedRingAt; omega), hdata _ (by omega), h.id k hk]) k hk
  · show usedIdx (publish _ s.queue 0 c.len) s.queue = _
    rw [usedIdx_publish, hidx]

end Complete

-- ---------------------------------------------------------------------------
-- The loop
-- ---------------------------------------------------------------------------

/-- What the device can do while the driver only looks on. -/
structure DeviceRun (s s' : State) : Prop where
  inv : Inv s'
  driver : SameDriver s s'
  within : Within (DeviceArea s.queue) s.mem s'.mem
  avail : availIdx s'.mem s'.queue = availIdx s.mem s.queue

section Loop

variable {s s' : State}

theorem DeviceRun.refl (h : Inv s) : DeviceRun s s :=
  ⟨h, SameDriver.refl s, Within.refl _ _, rfl⟩

theorem DeviceRun.trans {s₁ s₂ s₃ : State} (h : DeviceRun s₁ s₂) (h' : DeviceRun s₂ s₃) :
    DeviceRun s₁ s₃ := by
  have hwithin := h'.within
  rw [h.driver.queue] at hwithin
  exact ⟨h'.inv, h.driver.trans h'.driver, h.within.trans hwithin, h'.avail.trans h.avail⟩

theorem deviceRun_complete (h : Inv s) (c : Completion) : DeviceRun s (complete s c) := by
  by_cases hidle : usedIdx s.mem s.queue = availIdx s.mem s.queue
  · rw [complete_idle hidle]
    exact DeviceRun.refl h
  · obtain ⟨hinv, hwithin, havail, -⟩ := h.busy hidle c
    have hdriver := sameDriver_complete s c
    refine ⟨hinv, hdriver, hwithin, ?_⟩
    rw [hdriver.queue, havail]

theorem deviceRun_foldl (h : Inv s) (cs : List Completion) :
    DeviceRun s (cs.foldl complete s) := by
  induction cs generalizing s with
  | nil => exact DeviceRun.refl h
  | cons c cs ih =>
    have hstep := deviceRun_complete h c
    exact hstep.trans (ih hstep.inv)

theorem deviceRun_wait (h : Inv s) {polls : List (List Completion)}
    (hw : wait s polls = some s') : DeviceRun s s' := by
  induction polls generalizing s with
  | nil => exact absurd hw (by simp [wait])
  | cons cs polls ih =>
    have hstep := deviceRun_foldl h cs
    rw [wait] at hw
    split at hw
    · exact hstep.trans (ih hstep.inv hw)
    · rw [← Option.some.inj hw]
      exact hstep

end Loop

-- ---------------------------------------------------------------------------
-- Calls
-- ---------------------------------------------------------------------------

/-- Memory a call may change: the queue, the static requests, and the part of the
heap nobody has asked for. -/
def DriverArea (s : State) (x : Nat) : Prop :=
  (s.queue ≤ x ∧ x < s.queue + 4096) ∨
    (s.writeReq ≤ x ∧ x < s.writeReq + REQ_SIZE) ∨
    (s.flushReq ≤ x ∧ x < s.flushReq + REQ_SIZE) ∨
    (s.heap.heapArea.toNat + s.heap.heapOffset.toNat ≤ x ∧ x < s.heap.heapArea.toNat + 262144)

section Calls

variable {s s' : State}

/-- The request object of a read lies behind everything the heap has granted. -/
theorem Inv.alloc (h : Inv s) :
    Mm.mmAlloc s.heap 529#64 16#64 = (none, s.heap) ∨
      ∃ start heap, Mm.mmAlloc s.heap 529#64 16#64 = (some start, heap) ∧ Inv { s with heap } ∧
        Clear s (s.heap.heapArea + start).toNat ∧
        ∀ x, (s.heap.heapArea + start).toNat ≤ x →
          x < (s.heap.heapArea + start).toNat + REQ_SIZE → DriverArea s x := by
  have hlower := h.lower
  have hupper := h.upper
  have harea := h.linked.area
  rcases Mm.alloc_block (s := s.heap) h.linked.offset h.linked.area (⟨4, rfl⟩ : Mm.PowerOfTwo 16#64)
    (by decide : 0 < (529#64).toNat) (by decide) (by decide) with
    hres | ⟨start, hres, hstart, hstop, hfit⟩
  · exact .inl hres
  · have hsize : (529#64).toNat = REQ_SIZE := rfl
    rw [hsize] at hstop
    rw [Mm.heapSize_toNat] at hfit
    refine .inr ⟨start, _, hres, ?_, ⟨.inr (by omega), by omega⟩, fun x hlo hhi => ?_⟩
    · -- the heap moves on, and the queue stays below its new end
      have hlinked : Linked { s.heap with heapOffset := start + 529#64 } s.writeReq s.flushReq :=
        ⟨h.linked.area_pos, h.linked.area, hfit, ⟨h.linked.writeReq.1, h.linked.writeReq.2⟩,
          ⟨h.linked.flushReq.1, h.linked.flushReq.2⟩⟩
      refine ⟨hlinked, h.lower, ?_, h.ring, h.wired, h.id⟩
      show s.queue + 4096 ≤ s.heap.heapArea.toNat + (start + 529#64).toNat
      omega
    · exact .inr (.inr (.inr ⟨by omega, by omega⟩))

/-- A call is over at once and changes nothing, or it submits a request. -/
theorem Inv.begin_cases (h : Inv s) (c : Call) :
    (∃ code, begin s c = .done code s) ∨
      ∃ heap req type sector,
        begin s c = .waiting (virtioSubmitRequest { s with heap } req type sector) ∧
        Inv { s with heap } ∧ Clear s req ∧ ∀ x, req ≤ x → x < req + REQ_SIZE → DriverArea s x := by
  have hwrite := h.clear_of_apart h.linked.writeReq
  have hflush := h.clear_of_apart h.linked.flushReq
  by_cases hmmio : s.mmio = true
  rotate_left
  · refine .inl ⟨-1, ?_⟩
    cases c with
    | read sector buf count => simp [Blk.begin, virtioBlkRead, hmmio]
    | write sector buf count => simp [Blk.begin, virtioBlkWrite, hmmio]
    | flush => simp [Blk.begin, virtioBlkFlush, hmmio]
  have hon : ¬ (!s.mmio) = true := by simp [hmmio]
  cases c with
  | read sector buf count =>
    show (∃ code, virtioBlkRead s sector buf count = .done code s) ∨
      ∃ heap req type sector', virtioBlkRead s sector buf count =
        .waiting (virtioSubmitRequest { s with heap } req type sector') ∧ _
    unfold virtioBlkRead
    rw [if_neg hon]
    by_cases hcount : count = 0
    · rw [if_pos hcount]
      exact .inl ⟨0, rfl⟩
    rw [if_neg hcount]
    rcases h.alloc with hres | ⟨start, heap, hres, hinv, hclear, harea⟩
    · -- no room for the request
      rw [hres]
      exact .inl ⟨-1, rfl⟩
    · rw [hres]
      exact .inr ⟨heap, _, _, _, rfl, hinv, hclear, harea⟩
  | write sector buf count =>
    show (∃ code, virtioBlkWrite s sector buf count = .done code s) ∨
      ∃ heap req type sector', virtioBlkWrite s sector buf count =
        .waiting (virtioSubmitRequest { s with heap } req type sector') ∧ _
    unfold virtioBlkWrite
    rw [if_neg hon]
    by_cases hcount : count = 0
    · rw [if_pos hcount]
      exact .inl ⟨0, rfl⟩
    · rw [if_neg hcount]
      exact .inr ⟨s.heap, _, _, _, rfl, h, hwrite, fun x hlo hhi => .inr (.inl ⟨hlo, hhi⟩)⟩
  | flush =>
    show (∃ code, virtioBlkFlush s = .done code s) ∨
      ∃ heap req type sector', virtioBlkFlush s =
        .waiting (virtioSubmitRequest { s with heap } req type sector') ∧ _
    unfold virtioBlkFlush
    rw [if_neg hon]
    exact .inr ⟨s.heap, _, _, _, rfl, h, hflush, fun x hlo hhi => .inr (.inr (.inl ⟨hlo, hhi⟩))⟩

/-- A call that submits a request. -/
theorem Inv.submitted (h : Inv s) {c : Call} {w : State} (hw : begin s c = .waiting w) :
    Inv w ∧ w.queue = s.queue ∧ availIdx w.mem w.queue = (availIdx s.mem s.queue + 1) % 65536 ∧
      usedIdx w.mem w.queue = usedIdx s.mem s.queue := by
  rcases h.begin_cases c with ⟨code, hdone⟩ | ⟨heap, req, type, sector, hwait, hinv, hclear, -⟩
  · rw [hdone] at hw
    exact absurd hw (by simp)
  · rw [hwait] at hw
    obtain rfl := Begun.waiting.inj hw
    obtain ⟨hsub, havail, hused⟩ := hinv.submit hclear type sector
    obtain ⟨m, hm, -⟩ := submit_spec { s with heap } req type sector
    have hqueue : (virtioSubmitRequest { s with heap } req type sector).queue = s.queue := by
      rw [hm]
    rw [hqueue]
    exact ⟨hsub, hqueue, havail, hused⟩

/-- What a call that returns can have changed, whatever the device did. -/
theorem Inv.exec (h : Inv s) {c : Call} {polls : List (List Completion)} {code : Int}
    (hexec : exec s c polls = some (code, s')) :
    Inv s' ∧ s'.queue = s.queue ∧ Within (DriverArea s) s.mem s'.mem := by
  unfold Blk.exec at hexec
  rcases h.begin_cases c with ⟨code', hdone⟩ | ⟨heap, req, type, sector, hwait, hinv, hclear, harea⟩
  · rw [hdone] at hexec
    obtain ⟨-, rfl⟩ := Prod.mk.inj (Option.some.inj hexec)
    exact ⟨h, rfl, Within.refl _ _⟩
  · rw [hwait] at hexec
    obtain ⟨s₁, hs₁, heq⟩ := Option.map_eq_some_iff.mp hexec
    obtain ⟨-, rfl⟩ := Prod.mk.inj heq
    obtain ⟨hsub, -, -⟩ := hinv.submit hclear type sector
    have hrun := deviceRun_wait hsub hs₁
    obtain ⟨m, hm, hwithin, -⟩ := submit_spec { s with heap } req type sector
    have hqueue : (virtioSubmitRequest { s with heap } req type sector).queue = s.queue := by
      rw [hm]
    refine ⟨hrun.inv, hrun.driver.queue.trans hqueue, ?_⟩
    -- first the request, then the ring, then what the device does
    have hrequest : Within (DriverArea s) s.mem m := by
      refine hwithin.mono fun x hx => ?_
      rcases hx with ⟨hlo, hhi⟩ | hx
      · have hhi : x < s.queue + 48 := hhi
        exact .inl ⟨hlo, by omega⟩
      · refine harea x hx.1 ?_
        unfold REQ_SIZE
        omega
    have hpost : Within (DriverArea s) m (post m s.queue) := by
      refine (within_post m s.queue).mono fun x hx => .inl ?_
      unfold AvailArea at hx
      omega
    have hdevice := hrun.within
    rw [hqueue, hm] at hdevice
    refine (hrequest.trans hpost).trans (hdevice.mono fun x hx => .inl ?_)
    unfold DeviceArea UsedArea at hx
    omega

end Calls

end AegisKernel.Virtio.Blk
