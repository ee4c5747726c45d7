import AegisKernel.Virtio.BlkData

/-!
# Virtio — the status of a block request

The status byte of every request is the first byte of `used.ring[0].id`, and the
calls look for it there. The device stores it and then publishes a used element
with the id 0, which for every 128th request is `used.ring[0]` itself.

* `seen` — what the device completes before a loop is left; `CompletedBy` — the
  completion of the request the loop waits for.
* `submissions`, `availIdx_run` — `avail.idx` counts the requests of a history.
* `block_status_iff` — which calls return what the device reported.
-/

namespace AegisKernel.Virtio.Blk

open Library

/-- What the device completes before the loop is left. -/
def seen (s : State) : List (List Completion) → List Completion
  | [] => []
  | cs :: polls =>
    let s₁ := cs.foldl complete s
    if (usedIdx s₁.mem s₁.queue : Int) = availIdx s₁.mem s₁.queue - 1 then cs ++ seen s₁ polls
    else cs

/-- This completion is that of the last request posted: before it the request is
outstanding, and after it nothing is. -/
def CompletedBy (w : State) (polls : List (List Completion)) (c : Completion) : Prop :=
  ∃ pre post, seen w polls = pre ++ c :: post ∧ ¬ Idle (pre.foldl complete w) ∧
    Idle (complete (pre.foldl complete w) c)

/-- The requests an operation submits. -/
def submittedBy : Option State → Op → Nat
  | some s, .call c _ =>
    match begin s c with
    | .done _ _ => 0
    | .waiting _ => 1
  | _, _ => 0

/-- The requests a history submits. -/
def submissions (o : Option State) : List Op → Nat
  | [] => 0
  | op :: ops => submittedBy o op + submissions (step o op) ops

-- ---------------------------------------------------------------------------
-- The loop
-- ---------------------------------------------------------------------------

section Loop

variable {s w s' v : State} {polls : List (List Completion)} {c : Completion}

theorem wait_eq (h : wait w polls = some s') : s' = (seen w polls).foldl complete w := by
  induction polls generalizing w with
  | nil => exact absurd h (by simp [wait])
  | cons cs polls ih =>
    rw [wait] at h
    rw [seen]
    split at h
    · rename_i hwaiting
      rw [if_pos hwaiting, List.foldl_append]
      exact ih h
    · rename_i hleft
      rw [if_neg hleft]
      exact (Option.some.inj h).symm

/-- The state in which the call looks for its status is that right after the
completion. -/
theorem CompletedBy.final (hc : CompletedBy w polls c) (h : wait w polls = some s') (hinv : Inv w) :
    ∃ v, Inv v ∧ ¬ Idle v ∧ s' = complete v c ∧ Idle s' ∧ v.queue = w.queue ∧
      availIdx v.mem v.queue = availIdx w.mem w.queue := by
  obtain ⟨pre, post, hseen, hbusy, hidle⟩ := hc
  have hrun := deviceRun_foldl hinv pre
  have hs' : s' = complete (pre.foldl complete w) c := by
    rw [wait_eq h, hseen, List.foldl_append, List.foldl_cons, foldl_idle hidle]
  exact ⟨_, hrun.inv, hbusy, hs', hs' ▸ hidle, hrun.driver.queue, hrun.avail⟩

/-- A call whose request is completed when its loop looks for the first time. -/
theorem exec_once (h : Inv s) (hidle : Idle s) {call : Call} (hw : begin s call = .waiting w)
    (c : Completion) :
    exec s call [[c]] =
        some (if load (complete w c).mem (usedRingAt w.queue 0) 4 ≠ 0 then -1 else 0,
          complete w c) ∧
      CompletedBy w [[c]] c ∧
      (load (complete w c).mem (usedRingAt w.queue 0) 4 = 0 ↔
        usedIdx s.mem s.queue % 128 = 0 ∨ c.status = VIRTIO_BLK_S_OK) := by
  obtain ⟨hinv, -, -, hused⟩ := h.submitted hw
  obtain ⟨-, -, -, hone⟩ := submit_one h hidle hw
  have hbusy := not_idle_one hone
  have hdone : Idle (complete w c) := idle_foldl_one hinv hone c []
  have hseen : seen w [[c]] = [c] := by
    rw [seen, List.foldl_cons, List.foldl_nil, if_neg hdone.leaves]
  refine ⟨?_, ⟨[], [], hseen, hbusy, hdone⟩, ?_⟩
  · unfold Blk.exec
    rw [hw, Begun.finish, wait_completed hinv hone c, Option.map_some,
      (sameDriver_complete w c).queue]
  · rw [id_complete hinv hbusy c, hused]

end Loop

-- ---------------------------------------------------------------------------
-- Histories
-- ---------------------------------------------------------------------------

section Histories

variable {s s' : State} {c : Call} {polls : List (List Completion)}

theorem submittedBy_done {code : Int} (h : begin s c = .done code s') :
    submittedBy (some s) (.call c polls) = 0 := by
  simp [submittedBy, h]

theorem submittedBy_waiting (h : begin s c = .waiting s') :
    submittedBy (some s) (.call c polls) = 1 := by
  simp [submittedBy, h]

theorem availIdx_step (h : Inv s) {op : Op} (hown : OwnStore (some s) op)
    (hstep : step (some s) op = some s') :
    availIdx s'.mem s'.queue = (availIdx s.mem s.queue + submittedBy (some s) op) % 65536 := by
  have hlt : availIdx s.mem s.queue < 65536 := availIdx_lt
  cases op with
  | call c polls =>
    obtain ⟨⟨code, s₁⟩, hexec, rfl⟩ := Option.map_eq_some_iff.mp hstep
    unfold Blk.exec at hexec
    cases hbegin : begin s c with
    | done code' s₂ =>
      -- nothing has changed
      rw [submittedBy_done hbegin]
      rcases h.begin_cases c with ⟨code'', hdone⟩ | ⟨heap, req, type, sector, hwait, -⟩
      · rw [hdone] at hexec
        obtain ⟨-, rfl⟩ := Prod.mk.inj (Option.some.inj hexec)
        exact (Nat.mod_eq_of_lt hlt).symm
      · rw [hwait] at hbegin
        exact absurd hbegin (by simp)
    | waiting w =>
      rw [hbegin] at hexec
      rw [submittedBy_waiting hbegin]
      obtain ⟨s₂, hwait, heq⟩ := Option.map_eq_some_iff.mp hexec
      obtain ⟨-, rfl⟩ := Prod.mk.inj heq
      obtain ⟨hinv, -, havail, -⟩ := h.submitted hbegin
      exact (deviceRun_wait hinv hwait).avail.trans havail
  | device c =>
    rw [← Option.some.inj hstep]
    exact (deviceRun_complete h c).avail.trans (Nat.mod_eq_of_lt hlt).symm
  | caller a bs =>
    rw [← Option.some.inj hstep]
    exact (inv_caller h hown).2.1.trans (Nat.mod_eq_of_lt hlt).symm

/-- `avail.idx` counts the requests of a history. -/
theorem availIdx_run (h : Inv s) {ops : List Op} (hown : Meets step OwnStore (some s) ops)
    (hrun : run step (some s) ops = some s') :
    availIdx s'.mem s'.queue = (availIdx s.mem s.queue + submissions (some s) ops) % 65536 := by
  induction ops generalizing s with
  | nil =>
    rw [← Option.some.inj hrun]
    exact (Nat.mod_eq_of_lt availIdx_lt).symm
  | cons op ops ih =>
    obtain ⟨hop, hown⟩ := hown
    obtain ⟨s₁, hnext, hrun⟩ := run_cons_some hrun
    rw [hnext] at hown
    rw [ih (inv_step h hop hnext) hown hrun, availIdx_step h hop hnext, submissions, hnext]
    omega

/-- One call after any others. -/
theorem code_iff (h : Inv s) {w : State} {code : Int} {done : Completion}
    (hw : begin s c = .waiting w) (hexec : exec s c polls = some (code, s'))
    (hdone : CompletedBy w polls done) :
    (code = if done.status = VIRTIO_BLK_S_OK then 0 else -1) ↔
      ¬ (availIdx s.mem s.queue % 128 = 0 ∧ done.status ≠ VIRTIO_BLK_S_OK) := by
  obtain ⟨hinv, -, havail, -⟩ := h.submitted hw
  unfold Blk.exec at hexec
  rw [hw] at hexec
  obtain ⟨s₂, hwait, heq⟩ := Option.map_eq_some_iff.mp hexec
  obtain ⟨hcode, rfl⟩ := Prod.mk.inj heq
  obtain ⟨v, hinvv, hbusy, rfl, hidle, hqueue, hsame⟩ := hdone.final hwait hinv
  -- `used.idx` counts the requests before this one
  have hused : usedIdx v.mem v.queue = availIdx s.mem s.queue := by
    obtain ⟨-, -, havail', hused'⟩ := hinvv.busy hbusy done
    have hlt : usedIdx v.mem v.queue < 65536 := usedIdx_lt
    have hlt' : availIdx s.mem s.queue < 65536 := availIdx_lt
    unfold Idle at hidle
    rw [(sameDriver_complete v done).queue, havail', hused', hsame, havail] at hidle
    omega
  have hid := id_complete hinvv hbusy done
  rw [hused] at hid
  rw [← hcode, (sameDriver_complete v done).queue]
  by_cases hok : done.status = VIRTIO_BLK_S_OK
  · rw [if_pos hok, if_neg (not_not_intro (hid.mpr (.inr hok)))]
    exact iff_of_true rfl fun hbad => hbad.2 hok
  · by_cases hslot : availIdx s.mem s.queue % 128 = 0
    · rw [if_neg hok, if_neg (not_not_intro (hid.mpr (.inl hslot)))]
      exact iff_of_false (by omega) fun hgood => hgood ⟨hslot, hok⟩
    · have hne := fun hzero => (hid.mp hzero).elim hslot hok
      rw [if_neg hok, if_pos hne]
      exact iff_of_true rfl fun hbad => hslot hbad.1

end Histories

/-- **Block errors.** In every history from a successful `virtio_init` on, a call whose
request the device has completed returns what the device reported exactly when it is
not an error reported for a request that a multiple of 128 others came before. -/
theorem block_status_iff (s : State) (base : Nat) (regs : Nat → Nat) (ops : List Op)
    (hl : Linked s.heap s.writeReq s.flushReq) (hcode : (virtioInit s base regs).1 = 0)
    (hqueue : (virtioInit s base regs).2.queue ≠ 0)
    (hown : Meets step OwnStore (some (virtioInit s base regs).2) ops) (s₁ w s' : State)
    (hrun : run step (some (virtioInit s base regs).2) ops = some s₁) (c : Call)
    (polls : List (List Completion)) (code : Int) (done : Completion)
    (hw : begin s₁ c = .waiting w) (hexec : exec s₁ c polls = some (code, s'))
    (hdone : CompletedBy w polls done) :
    (code = if done.status = VIRTIO_BLK_S_OK then 0 else -1) ↔
      ¬ (128 ∣ submissions (some (virtioInit s base regs).2) ops ∧
        done.status ≠ VIRTIO_BLK_S_OK) := by
  obtain ⟨hinv, havail, -⟩ := init_spec hl hcode hqueue
  have hcount := availIdx_run hinv hown hrun
  have hslot : availIdx s₁.mem s₁.queue % 128 = 0 ↔
      128 ∣ submissions (some (virtioInit s base regs).2) ops := by
    rw [hcount, havail]
    omega
  rw [code_iff (inv_run hinv hown hrun) hw hexec hdone, hslot]

/-- The machine after `virtio_init`, at its first flush. -/
theorem first_flush :
    Inv (virtioInit bootState 0x10001000 bootRegs).2 ∧
      Idle (virtioInit bootState 0x10001000 bootRegs).2 ∧
      usedIdx (virtioInit bootState 0x10001000 bootRegs).2.mem
        (virtioInit bootState 0x10001000 bootRegs).2.queue = 0 ∧
      ∃ w, begin (virtioInit bootState 0x10001000 bootRegs).2 .flush = .waiting w := by
  obtain ⟨hinv, havail, hidle⟩ := init_spec linked_boot code_boot queue_boot_ne_zero
  exact ⟨hinv, hidle, hidle.trans havail, _, begin_flush boot_spec.1⟩

/-- The error of the second flush is reported. -/
theorem block_status_second_flush :
    ∃ s₁ s', run step (some (virtioInit bootState 0x10001000 bootRegs).2)
        [.call .flush [[⟨0, 0⟩]]] = some s₁ ∧
      exec s₁ .flush [[⟨1, 0⟩]] = some (-1, s') := by
  obtain ⟨hinv, hidle, -, w, hw⟩ := first_flush
  obtain ⟨s₁, hrun, hinv₁, hidle₁, hmmio₁, -⟩ := run_flushes hinv hidle boot_spec.1 1
  have hw₁ := begin_flush hmmio₁
  obtain ⟨hexec, hdone, -⟩ := exec_once hinv₁ hidle₁ hw₁ ⟨1, 0⟩
  have hone : submissions (some (virtioInit bootState 0x10001000 bootRegs).2)
      [.call .flush [[⟨0, 0⟩]]] = 1 := by
    rw [submissions, submittedBy_waiting hw, submissions]
  have hcode := (block_status_iff bootState 0x10001000 bootRegs [.call .flush [[⟨0, 0⟩]]]
    linked_boot code_boot queue_boot_ne_zero ⟨trivial, trivial⟩ s₁ _ _ hrun .flush [[⟨1, 0⟩]] _
    ⟨1, 0⟩ hw₁ hexec hdone).mpr fun hbad => absurd (hone ▸ hbad.1) (by decide)
  rw [if_neg (by decide : (1 : UInt8) ≠ VIRTIO_BLK_S_OK)] at hcode
  exact ⟨s₁, _, hrun, hcode ▸ hexec⟩

/-- The first flush returns 0 although the device reports an error. -/
theorem first_error_lost :
    ∃ w s', begin (virtioInit bootState 0x10001000 bootRegs).2 .flush = .waiting w ∧
      exec (virtioInit bootState 0x10001000 bootRegs).2 .flush [[⟨1, 0⟩]] = some (0, s') ∧
      CompletedBy w [[⟨1, 0⟩]] ⟨1, 0⟩ ∧ (1 : UInt8) ≠ VIRTIO_BLK_S_OK := by
  obtain ⟨hinv, hidle, hzero, w, hw⟩ := first_flush
  obtain ⟨hexec, hdone, hid⟩ := exec_once hinv hidle hw ⟨1, 0⟩
  rw [if_neg (not_not_intro (hid.mpr (.inl (by rw [hzero]))))] at hexec
  exact ⟨w, _, hw, hexec, hdone, by decide⟩

end AegisKernel.Virtio.Blk
