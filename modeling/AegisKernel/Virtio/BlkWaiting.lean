import AegisKernel.Virtio.BlkRequests

/-!
# Virtio — waiting for the block device

`while (used.idx == avail.idx - 1)` compares two 16-bit counters as `int`. After
65536 requests `avail.idx` is 0 again, and `0 - 1` is no value of `used.idx`: the
loop does not wait.

* `Idle` — nothing is outstanding.
* `wait_one` — the loop with one request outstanding.
* `waits_for_completion_iff` — the calls of a history all wait exactly when the
  device is quick enough at every 65536th request.
-/

namespace AegisKernel.Virtio.Blk

open Library

/-- Every request has been completed. -/
def Idle (s : State) : Prop := usedIdx s.mem s.queue = availIdx s.mem s.queue

/-- The call submits a request. -/
def Submits (s : State) (c : Call) : Prop := ∃ w, begin s c = .waiting w

/-- A caller's store is not to the queue. -/
def OwnStore : Option State → Op → Prop
  | some s, .caller a bs => a + bs.length ≤ s.queue ∨ s.queue + 4096 ≤ a
  | _, _ => True

/-- If the call returns from a request, the device has completed it. -/
def Waited : Option State → Op → Prop
  | some s, .call c polls => Submits s c → ∀ code s', exec s c polls = some (code, s') → Idle s'
  | _, _ => True

/-- A request that makes `avail.idx` wrap is completed before the loop looks for
the first time. -/
def Prompt : Option State → Op → Prop
  | some s, .call c polls =>
    Submits s c → availIdx s.mem s.queue = 65535 → polls.head? ≠ some []
  | _, _ => True

-- ---------------------------------------------------------------------------
-- After initialisation
-- ---------------------------------------------------------------------------

section Init

variable {s : State} {base : Nat} {regs : Nat → Nat}

/-- A new queue. -/
theorem setup_spec (hl : Linked s.heap s.writeReq s.flushReq)
    (hqueue : (virtioQueueSetup s).queue ≠ 0) :
    Inv (virtioQueueSetup s) ∧
      availIdx (virtioQueueSetup s).mem (virtioQueueSetup s).queue = 0 ∧
      Idle (virtioQueueSetup s) := by
  unfold virtioQueueSetup at hqueue ⊢
  rcases Mm.alloc_page (s := s.heap) hl.offset hl.area with
    hres | ⟨start, hres, hstart, hstop, hfit⟩
  · rw [hres] at hqueue
    exact absurd rfl hqueue
  · rw [hres]
    have hlinked : Linked { s.heap with heapOffset := start + Mm.AEGIS_PAGE_SIZE } s.writeReq
        s.flushReq :=
      ⟨hl.area_pos, hl.area, hfit, ⟨hl.writeReq.1, hl.writeReq.2⟩,
        ⟨hl.flushReq.1, hl.flushReq.2⟩⟩
    dsimp only
    generalize (s.heap.heapArea + start).toNat = q at hstart hstop
    -- both counters of a cleared queue are 0
    have hidle : usedIdx (clearQueue s.mem q) q = availIdx (clearQueue s.mem q) q :=
      usedIdx_clearQueue.trans availIdx_clearQueue.symm
    refine ⟨⟨hlinked, ?_, Nat.le_of_eq hstop, fun i hi => availRing_clearQueue hi,
      fun h => absurd hidle h, fun k hk => ?_⟩, availIdx_clearQueue, hidle⟩
    · show s.heap.heapArea.toNat ≤ q
      omega
    · show clearQueue s.mem q (q + 2319 + k) = 0
      exact if_pos ⟨by omega, by omega⟩

theorem init_eq (hcode : (virtioInit s base regs).1 = 0) :
    virtioInit s base regs = (0, virtioQueueSetup { s with mmio := base ≠ 0 }) := by
  unfold virtioInit at hcode ⊢
  dsimp only at hcode ⊢
  exact of_tests hcode

/-- After a successful `virtio_init` with a queue. -/
theorem init_spec (hl : Linked s.heap s.writeReq s.flushReq)
    (hcode : (virtioInit s base regs).1 = 0) (hqueue : (virtioInit s base regs).2.queue ≠ 0) :
    Inv (virtioInit s base regs).2 ∧
      availIdx (virtioInit s base regs).2.mem (virtioInit s base regs).2.queue = 0 ∧
      Idle (virtioInit s base regs).2 := by
  obtain ⟨s', hs', hinit⟩ : ∃ s', s' = { s with mmio := base ≠ 0 } ∧
      virtioInit s base regs = (0, virtioQueueSetup s') := ⟨_, rfl, init_eq hcode⟩
  rw [hinit] at hqueue ⊢
  have hl' : Linked s'.heap s'.writeReq s'.flushReq := by
    rw [hs']
    exact hl
  dsimp only at hqueue ⊢
  exact setup_spec hl' hqueue

end Init

-- ---------------------------------------------------------------------------
-- The loop
-- ---------------------------------------------------------------------------

section Loop

variable {s w : State}

theorem foldl_idle (h : Idle s) (cs : List Completion) : cs.foldl complete s = s := by
  induction cs with
  | nil => rfl
  | cons c cs ih =>
    rw [List.foldl_cons, complete_idle h]
    exact ih

/-- The loop's condition fails when nothing is outstanding. -/
theorem Idle.leaves (hidle : Idle w) :
    ¬ (usedIdx w.mem w.queue : Int) = availIdx w.mem w.queue - 1 := by
  unfold Idle at hidle
  omega

theorem not_idle_one (hone : availIdx w.mem w.queue = (usedIdx w.mem w.queue + 1) % 65536) :
    ¬ Idle w := by
  have hlt : usedIdx w.mem w.queue < 65536 := usedIdx_lt
  unfold Idle
  omega

/-- With one request outstanding, the first completion is that of the request. -/
theorem idle_foldl_one (h : Inv w)
    (hone : availIdx w.mem w.queue = (usedIdx w.mem w.queue + 1) % 65536) (c : Completion)
    (cs : List Completion) : Idle ((c :: cs).foldl complete w) := by
  obtain ⟨-, -, havail, hused⟩ := h.busy (not_idle_one hone) c
  have hidle : Idle (complete w c) := by
    unfold Idle
    rw [(sameDriver_complete w c).queue, havail, hused, hone]
  rw [List.foldl_cons, foldl_idle hidle]
  exact hidle

/-- The loop with one request outstanding: it waits for the completion, unless
`avail.idx` is 0; then it looks once. -/
theorem wait_one (h : Inv w)
    (hone : availIdx w.mem w.queue = (usedIdx w.mem w.queue + 1) % 65536)
    (polls : List (List Completion)) :
    (availIdx w.mem w.queue = 0 → polls.head? = some [] → wait w polls = some w) ∧
      ∀ s', (availIdx w.mem w.queue = 0 → polls.head? ≠ some []) → wait w polls = some s' →
        Idle s' := by
  have hlt : usedIdx w.mem w.queue < 65536 := usedIdx_lt
  induction polls with
  | nil => exact ⟨fun _ h0 => absurd h0 (by simp), fun s' _ hw => absurd hw (by simp [wait])⟩
  | cons cs polls ih =>
    cases cs with
    | nil =>
      rw [wait, List.foldl_nil, List.head?_cons]
      refine ⟨fun h0 _ => if_neg (by omega), fun s' hquick hw => ?_⟩
      -- not yet completed, and `avail.idx - 1` is `used.idx`
      have hne : availIdx w.mem w.queue ≠ 0 := fun h0 => hquick h0 rfl
      rw [if_pos (by omega)] at hw
      exact ih.2 s' (fun h0 => absurd h0 hne) hw
    | cons c cs =>
      have hidle := idle_foldl_one h hone c cs
      refine ⟨fun _ h0 => absurd h0 (by simp), fun s' _ hw => ?_⟩
      rw [wait, if_neg hidle.leaves] at hw
      rw [← Option.some.inj hw]
      exact hidle

/-- The loop whose first look finds the completion. -/
theorem wait_completed (h : Inv w)
    (hone : availIdx w.mem w.queue = (usedIdx w.mem w.queue + 1) % 65536) (c : Completion) :
    wait w [[c]] = some (complete w c) := by
  have hidle : Idle (complete w c) := idle_foldl_one h hone c []
  rw [wait, List.foldl_cons, List.foldl_nil, if_neg hidle.leaves]

/-- A call in a state where nothing is outstanding. -/
theorem submit_one (h : Inv s) (hidle : Idle s) {c : Call} (hw : begin s c = .waiting w) :
    Inv w ∧ w.queue = s.queue ∧
      availIdx w.mem w.queue = (availIdx s.mem s.queue + 1) % 65536 ∧
      availIdx w.mem w.queue = (usedIdx w.mem w.queue + 1) % 65536 := by
  obtain ⟨hinv, hqueue, havail, hused⟩ := h.submitted hw
  have hidle : usedIdx s.mem s.queue = availIdx s.mem s.queue := hidle
  refine ⟨hinv, hqueue, havail, ?_⟩
  rw [havail, hused, hidle]

/-- What is found in `used.ring[0].id` after a completion: its status, unless the used
element is published in slot 0 and overwrites it. -/
theorem id_complete (h : Inv w) (hbusy : ¬ Idle w) (c : Completion) :
    load (complete w c).mem (usedRingAt w.queue 0) 4 = 0 ↔
      usedIdx w.mem w.queue % 128 = 0 ∨ c.status = VIRTIO_BLK_S_OK := by
  have hqueue := (sameDriver_complete w c).queue
  have hid := (h.busy hbusy c).1.id
  rw [hqueue] at hid
  -- the first byte; the other three are 0
  have hfirst : load (complete w c).mem (usedRingAt w.queue 0) 4 = 0 ↔
      (complete w c).mem (usedRingAt w.queue 0) = 0 := by
    refine load_eq_zero_iff.trans ⟨fun hall => hall 0 (by omega), fun hzero i hi => ?_⟩
    rcases Nat.eq_zero_or_pos i with rfl | hpos
    · exact hzero
    · have hbyte := hid (i - 1) (by omega)
      unfold usedRingAt
      rwa [show w.queue + 2319 + (i - 1) = w.queue + 2318 + 8 * 0 + i by omega] at hbyte
  obtain ⟨m, disk, heq, hdata⟩ := complete_spec h hbusy c
  have hidx : usedIdx (put m (w.queue + 2318 + 8 * 0) 1 fun _ => c.status) w.queue =
      usedIdx w.mem w.queue := by
    refine load_congr fun i hi => ?_
    unfold usedIdxAt
    rw [put_outside (by omega), hdata _ (by omega)]
  rw [hfirst, heq]
  unfold publish usedIdxAt usedRingAt VIRTIO_QUEUE_SIZE
  dsimp only
  rw [hidx, store_outside (by omega), store_outside (by omega)]
  by_cases hslot : usedIdx w.mem w.queue % 128 = 0
  · rw [hslot]
    exact iff_of_true (store_zero_inside (by omega) (by omega)) (.inl rfl)
  · have hstatus : put m (w.queue + 2318 + 8 * 0) 1 (fun _ => c.status) (w.queue + 2318 + 8 * 0) =
        c.status := put_inside (i := 0) (by omega)
    rw [store_outside (by omega), hstatus]
    exact ⟨.inr, fun hor => hor.resolve_left hslot⟩

/-- A device that completes the request at once makes the call return 0. -/
theorem exec_prompt (h : Inv s) (hidle : Idle s) {c : Call} (hw : begin s c = .waiting w)
    (len : Nat) :
    exec s c [[⟨0, len⟩]] = some (0, complete w ⟨0, len⟩) ∧ Idle (complete w ⟨0, len⟩) := by
  obtain ⟨hinv, -, -, hone⟩ := submit_one h hidle hw
  have hdone : Idle (complete w ⟨0, len⟩) := idle_foldl_one hinv hone ⟨0, len⟩ []
  have hcode : load (complete w ⟨0, len⟩).mem (usedRingAt (complete w ⟨0, len⟩).queue 0) 4 = 0 := by
    rw [(sameDriver_complete w ⟨0, len⟩).queue]
    exact (id_complete hinv (not_idle_one hone) ⟨0, len⟩).mpr (.inr rfl)
  refine ⟨?_, hdone⟩
  unfold Blk.exec
  rw [hw, Begun.finish, wait_completed hinv hone ⟨0, len⟩, Option.map_some,
    if_neg (by rw [hcode]; simp)]

end Loop

-- ---------------------------------------------------------------------------
-- Histories
-- ---------------------------------------------------------------------------

/-- Nothing happens after a call that has not returned. -/
theorem run_none (ops : List Op) : run step none ops = none := by
  induction ops with
  | nil => rfl
  | cons op ops ih => exact ih

theorem run_cons_some {s s' : State} {op : Op} {ops : List Op}
    (hrun : run step (some s) (op :: ops) = some s') :
    ∃ s₁, step (some s) op = some s₁ ∧ run step (some s₁) ops = some s' := by
  rw [run_cons] at hrun
  rcases hnext : step (some s) op with _ | s₁
  · rw [hnext, run_none] at hrun
    exact absurd hrun (by simp)
  · rw [hnext] at hrun
    exact ⟨s₁, rfl, hrun⟩

/-- Nothing is outstanding, or a call has not returned. -/
def RunIdle (o : Option State) : Prop := ∀ s, o = some s → Inv s ∧ Idle s

theorem runIdle_some {s : State} (h : Inv s) (hidle : Idle s) : RunIdle (some s) := by
  intro s' hs'
  rw [← Option.some.inj hs']
  exact ⟨h, hidle⟩

/-- A call waits exactly when the device is quick enough. -/
theorem waited_iff {o : Option State} (h : RunIdle o) (op : Op) : Waited o op ↔ Prompt o op := by
  match o, op with
  | none, _ => exact Iff.rfl
  | some s, .device c => exact Iff.rfl
  | some s, .caller a bs => exact Iff.rfl
  | some s, .call c polls =>
    obtain ⟨hinv, hidle⟩ := h s rfl
    unfold Waited Prompt
    refine forall_congr' fun hsub => ?_
    obtain ⟨w, hw⟩ := hsub
    obtain ⟨hinvw, -, havail, hone⟩ := submit_one hinv hidle hw
    have hlt : availIdx s.mem s.queue < 65536 := availIdx_lt
    obtain ⟨hearly, hlate⟩ := wait_one hinvw hone polls
    unfold Blk.exec
    rw [hw]
    constructor
    · intro hall hmax hlazy
      -- the loop is left although the request is outstanding
      have hret : Begun.finish polls (.waiting w) = some _ :=
        congrArg (Option.map _) (hearly (by omega) hlazy)
      have hw' : usedIdx w.mem w.queue = availIdx w.mem w.queue := hall _ w hret
      omega
    · intro hprompt code s' hret
      obtain ⟨s₁, hs₁, heq⟩ := Option.map_eq_some_iff.mp hret
      obtain ⟨-, rfl⟩ := Prod.mk.inj heq
      exact hlate s₁ (fun h0 => hprompt (by omega)) hs₁

/-- A caller's store to its own memory. -/
theorem inv_caller {s : State} (h : Inv s) {a : Nat} {bs : Bytes}
    (hown : OwnStore (some s) (.caller a bs)) :
    Inv { s with mem := write s.mem a bs } ∧
      availIdx (write s.mem a bs) s.queue = availIdx s.mem s.queue ∧
      usedIdx (write s.mem a bs) s.queue = usedIdx s.mem s.queue := by
  have hwithin : Within (fun x => a ≤ x ∧ x < a + bs.length) s.mem (write s.mem a bs) :=
    (Within.refl _ _).put fun i hi => ⟨by omega, by omega⟩
  have hown : a + bs.length ≤ s.queue ∨ s.queue + 4096 ≤ a := hown
  exact h.outside hwithin fun x hlo hhi => by omega

/-- A step that waits leaves nothing outstanding. -/
theorem runIdle_step {o : Option State} (h : RunIdle o) {op : Op} (hown : OwnStore o op)
    (hwaited : Waited o op) : RunIdle (step o op) := by
  match o, op with
  | none, _ => exact fun s hs => absurd hs (by simp [step])
  | some s, .device c =>
    obtain ⟨hinv, hidle⟩ := h s rfl
    intro s' hs'
    rw [← Option.some.inj hs', complete_idle hidle]
    exact ⟨hinv, hidle⟩
  | some s, .caller a bs =>
    obtain ⟨hinv, hidle⟩ := h s rfl
    intro s' hs'
    rw [← Option.some.inj hs']
    obtain ⟨hinv', havail, hused⟩ := inv_caller hinv hown
    exact ⟨hinv', hused.trans (hidle.trans havail.symm)⟩
  | some s, .call c polls =>
    obtain ⟨hinv, hidle⟩ := h s rfl
    intro s' hs'
    -- a call that is still in its loop has no next state
    obtain ⟨⟨code, s₁⟩, hexec, rfl⟩ := Option.map_eq_some_iff.mp hs'
    refine ⟨(hinv.exec hexec).1, ?_⟩
    by_cases hsub : Submits s c
    · exact hwaited hsub code s₁ hexec
    · -- no request: nothing has changed
      rcases hinv.begin_cases c with ⟨code', hdone⟩ | ⟨heap, req, type, sector, hwait, -⟩
      · unfold Blk.exec at hexec
        rw [hdone] at hexec
        obtain ⟨-, rfl⟩ := Prod.mk.inj (Option.some.inj hexec)
        exact hidle
      · exact absurd ⟨_, hwait⟩ hsub

-- ---------------------------------------------------------------------------
-- A device that is late once
-- ---------------------------------------------------------------------------

/-- A machine with nothing in memory, and the registers of a device that
`virtio_init` takes. -/
def bootState : State where
  mem := fun _ => 0
  heap := Mm.boot 0x200000#64 fun _ => 0#64
  mmio := false
  queue := 0
  writeReq := 0x100000
  flushReq := 0x101000
  disk := fun _ _ => 0

def bootRegs (r : Nat) : Nat :=
  if r = VIRTIO_MMIO_VERSION then 1
  else if r = VIRTIO_MMIO_DEVICE_ID then 2
  else if r = VIRTIO_MMIO_VENDOR_ID then 0x1af4
  else 0

theorem linked_boot : Linked bootState.heap bootState.writeReq bootState.flushReq :=
  ⟨by decide, by decide, by decide, ⟨.inl (by decide), by decide⟩, ⟨.inl (by decide), by decide⟩⟩

theorem code_boot : (virtioInit bootState 0x10001000 bootRegs).1 = 0 := rfl

theorem queue_boot : (virtioInit bootState 0x10001000 bootRegs).2.queue = 0x200000 := by
  decide +kernel

theorem queue_boot_ne_zero : (virtioInit bootState 0x10001000 bootRegs).2.queue ≠ 0 := by
  rw [queue_boot]
  decide

theorem begin_flush {s : State} (h : s.mmio = true) :
    begin s .flush = .waiting (virtioSubmitRequest s s.flushReq VIRTIO_BLK_T_FLUSH 0) := by
  simp [Blk.begin, virtioBlkFlush, h]

theorem begin_write {s : State} (h : s.mmio = true) (sector buf : Nat) :
    begin s (.write sector buf 1) =
      .waiting (virtioSubmitRequest s s.writeReq VIRTIO_BLK_T_OUT sector) := by
  simp [Blk.begin, virtioBlkWrite, h]

theorem begin_read_of_alloc {s : State} (h : s.mmio = true) {start : BitVec 64} {heap : Mm.State}
    (halloc : Mm.mmAlloc s.heap 529#64 16#64 = (some start, heap)) (sector buf : Nat) :
    begin s (.read sector buf 1) = .waiting (virtioSubmitRequest { s with heap }
      (s.heap.heapArea + start).toNat VIRTIO_BLK_T_IN sector) := by
  show virtioBlkRead s sector buf 1 = _
  unfold virtioBlkRead
  rw [if_neg (by simp [h]), if_neg (by decide), halloc]

/-- A request that is completed at once, as a step. -/
theorem step_prompt {s w : State} (h : Inv s) (hidle : Idle s) {c : Call}
    (hw : begin s c = .waiting w) :
    ∃ s', step (some s) (.call c [[⟨0, 0⟩]]) = some s' ∧ Inv s' ∧ Idle s' ∧ SameDriver w s' ∧
      availIdx s'.mem s'.queue = (availIdx s.mem s.queue + 1) % 65536 := by
  obtain ⟨hexec, hdone⟩ := exec_prompt h hidle hw 0
  obtain ⟨hinvw, -, havail, -⟩ := submit_one h hidle hw
  have hrun := deviceRun_complete hinvw ⟨0, 0⟩
  exact ⟨_, congrArg (Option.map Prod.snd) hexec, hrun.inv, hdone, hrun.driver,
    hrun.avail.trans havail⟩

/-- Flushes that are completed at once. -/
theorem run_flushes {s : State} (h : Inv s) (hidle : Idle s) (hmmio : s.mmio = true) (n : Nat) :
    ∃ s', run step (some s) (List.replicate n (.call .flush [[⟨0, 0⟩]])) = some s' ∧ Inv s' ∧
      Idle s' ∧ s'.mmio = true ∧
      availIdx s'.mem s'.queue = (availIdx s.mem s.queue + n) % 65536 := by
  induction n generalizing s with
  | zero => exact ⟨s, rfl, h, hidle, hmmio, (Nat.mod_eq_of_lt availIdx_lt).symm⟩
  | succ n ih =>
    -- the first flush is completed at once, and the others start where it ends
    obtain ⟨s₁, hstep, hinv₁, hidle₁, hdriver, havail₁⟩ := step_prompt h hidle (begin_flush hmmio)
    obtain ⟨s', hs', hinv', hidle', hm', havail'⟩ := ih hinv₁ hidle₁ (hdriver.mmio.trans hmmio)
    refine ⟨s', ?_, hinv', hidle', hm', ?_⟩
    · rw [List.replicate_succ, run_cons, hstep]
      exact hs'
    · rw [havail', havail₁]
      omega

/-- **Waiting.** From a successful `virtio_init` on, in every history of calls and
for every delay of the device: each call that submits a request returns only when
the device has completed it, exactly when every request that makes `avail.idx`
wrap to 0 is completed before its loop looks for the first time. -/
theorem waits_for_completion_iff (s : State) (base : Nat) (regs : Nat → Nat) (ops : List Op)
    (hl : Linked s.heap s.writeReq s.flushReq) (hcode : (virtioInit s base regs).1 = 0)
    (hqueue : (virtioInit s base regs).2.queue ≠ 0)
    (hown : Meets step OwnStore (some (virtioInit s base regs).2) ops) :
    Meets step Waited (some (virtioInit s base regs).2) ops ↔
      Meets step Prompt (some (virtioInit s base regs).2) ops := by
  obtain ⟨hinv, -, hidle⟩ := init_spec hl hcode hqueue
  have hstart := runIdle_some hinv hidle
  exact meets_congr (fun o op h _ => waited_iff h op)
    (fun o op h hown hprompt => runIdle_step h hown ((waited_iff h op).mpr hprompt)) hstart hown

/-- One flush that is completed when its loop looks for the third time. -/
theorem waits_for_completion_late :
    Meets step Waited (some (virtioInit bootState 0x10001000 bootRegs).2)
      [.call .flush [[], [], [⟨0, 0⟩]]] := by
  refine (waits_for_completion_iff bootState 0x10001000 bootRegs [.call .flush [[], [], [⟨0, 0⟩]]]
    linked_boot code_boot queue_boot_ne_zero ⟨trivial, trivial⟩).mpr ⟨fun _ hmax => ?_, trivial⟩
  rw [(init_spec linked_boot code_boot queue_boot_ne_zero).2.1] at hmax
  exact absurd hmax (by decide)

/-- The 65536th flush returns although the device has not completed it. -/
theorem late_flush_not_waited :
    (virtioInit bootState 0x10001000 bootRegs).1 = 0 ∧
      ¬ Meets step Waited (some (virtioInit bootState 0x10001000 bootRegs).2)
        (List.replicate 65535 (.call .flush [[⟨0, 0⟩]]) ++ [.call .flush [[]]]) := by
  refine ⟨code_boot, fun hall => ?_⟩
  obtain ⟨hinv, hzero, hidle⟩ := init_spec linked_boot code_boot queue_boot_ne_zero
  have hmmio : (virtioInit bootState 0x10001000 bootRegs).2.mmio = true := by decide +kernel
  obtain ⟨s, hs, hinv', hidle', hmmio', havail⟩ := run_flushes hinv hidle hmmio 65535
  have hlast := (meets_append.mp hall).2
  rw [hs] at hlast
  have hprompt : Prompt (some s) (.call .flush [[]]) :=
    (waited_iff (runIdle_some hinv' hidle') _).mp hlast.1
  refine hprompt ⟨_, begin_flush hmmio'⟩ ?_ rfl
  rw [havail, hzero]

end AegisKernel.Virtio.Blk
