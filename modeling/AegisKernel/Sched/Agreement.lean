import AegisKernel.Sched.Chains

/-!
# Scheduler — when task states and ready queues agree

The agreement the scheduler is meant to maintain is between three things it
updates by hand: the `state` field, `current_task` and the queues.
`sched_start` establishes it for the first task it switches to. `task_yield`
and `task_sleep` do not: the task they switch to stays READY, so a second
`task_yield` no longer puts it back on its queue. The agreement therefore ends
with the first switch.

* `StateQueueAgreement` — the agreement, over the traversals of the queues.
* `KeepsAgreement s op` — the calls that keep it: no `task_yield` that
  switches, no `task_sleep` by a running task, and only `Movable` slots
  changed in priority.
* `AgreeInv` — the invariant of runs whose calls all do.

The result about whole runs is `stateQueueAgreement_throughout_iff`.
-/

namespace AegisKernel.Sched

open Library

/-- RUNNING is the current task of a running scheduler; READY are the other
slots that are on exactly one queue, their own; nothing BLOCKED or EMPTY is on
a queue. -/
structure StateQueueAgreement (s : State) : Prop where
  running_iff : ∀ i < TASK_MAX,
    (s.tasks i).state = .running ↔ s.schedulerRunning = true ∧ i = s.currentTask
  ready_iff : ∀ i < TASK_MAX, (s.tasks i).state = .ready ↔
    i ≠ s.currentTask ∧ (s.tasks i).priority ≤ TASK_PRIORITY_MAX ∧
    InQueue s (s.tasks i).priority i ∧
    ∀ p ≤ TASK_PRIORITY_MAX, InQueue s p i → p = (s.tasks i).priority
  not_queued : ∀ i < TASK_MAX,
    (s.tasks i).state = .blocked ∨ (s.tasks i).state = .empty → ¬ Queued s i

/-- The calls that keep the agreement. -/
def KeepsAgreement (s : State) : Op → Prop
  | .taskSetPriority id priority =>
      ∀ i, firstSlot (fun i => (s.tasks i).id == id) = some i →
        (s.tasks i).priority ≠ clampPriority priority → Movable s i
  | .taskYield _ =>
      ¬ (s.schedulerRunning = true ∧ s.currentTask ≠ 0 ∧
        s.readyQueueHead (s.tasks s.currentTask).priority ≠ 0)
  | .taskSleep _ _ => ¬ (s.schedulerRunning = true ∧ s.currentTask ≠ 0)
  | _ => True

/-- The invariant of runs whose calls all meet `KeepsAgreement`. -/
structure AgreeInv (s : State) (L : Nat → List Nat) : Prop where
  queues : Queues s L
  closed : Closed s
  idle : s.schedulerRunning = false → s.currentTask = 0
  busy : s.schedulerRunning = true →
    s.currentTask ≠ 0 ∧ (s.tasks s.currentTask).state = .running
  ready : ∀ i, Created s i → i ≠ s.currentTask →
    (s.tasks i).state = .ready ∧ i ∈ L (s.tasks i).priority
  slot_zero : (s.tasks 0).state = .empty
  empty_next : ∀ i, Slot i → (s.tasks i).state = .empty → s.next i = 0

/-- The side condition of the runs considered: `sched_start` is only called
before the scheduler runs. -/
def StartsIdle (s : State) (op : Op) : Prop := op = .schedStart → s.schedulerRunning = false

section Invariant

variable {s : State} {L : Nat → List Nat}

theorem AgreeInv.current_lt (h : AgreeInv s L) : s.currentTask < TASK_MAX := by
  rcases h.queues.slots.current with h0 | hcr
  · rw [h0]
    decide
  · exact hcr.1.2

theorem AgreeInv.state_current (h : AgreeInv s L) (hc0 : s.currentTask ≠ 0) :
    s.schedulerRunning = true ∧ (s.tasks s.currentTask).state = .running := by
  have hrun : s.schedulerRunning = true := by
    by_contra hrun
    exact hc0 (h.idle (by simpa using hrun))
  exact ⟨hrun, (h.busy hrun).2⟩

/-- No task is BLOCKED while the agreement lasts. -/
theorem AgreeInv.state_cases (h : AgreeInv s L) {i : Nat} (hi : i < TASK_MAX) :
    ((s.tasks i).state = .empty ∧ (i = 0 ∨ Slot i)) ∨
      ((s.tasks i).state = .running ∧ s.schedulerRunning = true ∧ i = s.currentTask) ∨
      ((s.tasks i).state = .ready ∧ Slot i ∧ i ≠ s.currentTask ∧
        i ∈ L (s.tasks i).priority) := by
  rcases slot_or_zero hi with rfl | hsl
  · exact .inl ⟨h.slot_zero, .inl rfl⟩
  · by_cases hempty : (s.tasks i).state = .empty
    · exact .inl ⟨hempty, .inr hsl⟩
    · by_cases hcur : i = s.currentTask
      · obtain ⟨hrun, hst⟩ := h.state_current (hcur ▸ hsl.ne_zero)
        exact .inr (.inl ⟨hcur ▸ hst, hrun, hcur⟩)
      · obtain ⟨hst, hmem⟩ := h.ready i ⟨hsl, hempty⟩ hcur
        exact .inr (.inr ⟨hst, hsl, hcur, hmem⟩)

theorem AgreeInv.agreement (h : AgreeInv s L) : StateQueueAgreement s := by
  obtain ⟨hQ, hc⟩ := And.intro h.queues h.closed
  have hin : ∀ p ≤ TASK_PRIORITY_MAX, ∀ i, InQueue s p i ↔ i ∈ L p :=
    fun p hp i => hQ.links.inQueue_iff hp (hc p hp)
  refine ⟨fun i hi => ?_, fun i hi => ?_, fun i hi hst hqd => ?_⟩
  · constructor
    · intro hst
      rcases h.state_cases hi with ⟨he, -⟩ | ⟨-, hrun⟩ | ⟨hr, -⟩
      · simp [he] at hst
      · exact hrun
      · simp [hr] at hst
    · rintro ⟨hrun, rfl⟩
      exact (h.busy hrun).2
  · constructor
    · intro hst
      rcases h.state_cases hi with ⟨he, -⟩ | ⟨hr, -⟩ | ⟨-, hsl, hcur, hmem⟩
      · simp [he] at hst
      · simp [hr] at hst
      · have hp := hQ.slots.prio_le i hsl
        refine ⟨hcur, hp, (hin _ hp i).mpr hmem, fun p hp' hi' => ?_⟩
        exact hQ.members.only i p hp' ((hin p hp' i).mp hi')
    · rintro ⟨hcur, hp, hmem, -⟩
      have hcr := (hQ.members _ hp i ((hin _ hp i).mp hmem)).1
      exact (h.ready i hcr hcur).1
  · obtain ⟨p, hp, hmem⟩ := (hQ.links.queued_iff hc).mp hqd
    have hcr := (hQ.members p hp i hmem).1
    rcases hst with hst | hst
    · rcases h.state_cases hi with ⟨he, -⟩ | ⟨hr, -⟩ | ⟨hr, -⟩
      · exact hcr.2 he
      · simp [hr] at hst
      · simp [hr] at hst
    · exact hcr.2 hst

end Invariant

theorem agreeInv_initial (tasksAddr : Nat) : AgreeInv (initial tasksAddr) fun _ => [] := by
  obtain ⟨hQ, hc⟩ := queues_initial tasksAddr
  have hempty : ∀ i, Slot i → ((initial tasksAddr).tasks i).state = .empty := by
    intro i hi
    rw [initial_task _ hi.2]
  refine ⟨hQ, hc, fun _ => rfl, fun h => ?_, fun i hi _ => ?_, rfl, fun i hi _ => ?_⟩
  · exact absurd h (by simp [initial, schedInit])
  · exact absurd (hempty i hi.1) hi.2
  · exact initial_next tasksAddr i

/-! ## Calls that keep the agreement -/

section Keeping

variable {s : State} {L : Nat → List Nat}

/-- A call that leaves the current task alone: what is left to show is that the READY
tasks are queued, and the links of EMPTY slots. -/
theorem AgreeInv.sameCurrent {s' : State} {L' : Nat → List Nat} (h : AgreeInv s L)
    (hQ' : Queues s' L') (hc' : Closed s') (hcur : s'.currentTask = s.currentTask)
    (hrun : s'.schedulerRunning = s.schedulerRunning)
    (hbusy : s.currentTask ≠ 0 →
      (s'.tasks s.currentTask).state = (s.tasks s.currentTask).state)
    (hzero : (s'.tasks 0).state = (s.tasks 0).state)
    (hready : ∀ i, Created s' i → i ≠ s.currentTask →
      (s'.tasks i).state = .ready ∧ i ∈ L' (s'.tasks i).priority)
    (hempty : ∀ i, Slot i → (s'.tasks i).state = .empty → s'.next i = 0) : AgreeInv s' L' := by
  refine ⟨hQ', hc', fun hr => ?_, fun hr => ?_, fun i hi hic => ?_, ?_, hempty⟩
  · rw [hcur]
    exact h.idle (hrun ▸ hr)
  · obtain ⟨hc0, hst⟩ := h.busy (hrun ▸ hr)
    rw [hcur, hbusy hc0]
    exact ⟨hc0, hst⟩
  · exact hready i hi (hcur ▸ hic)
  · rw [hzero]
    exact h.slot_zero

/-- Only a created slot can be the end of a non-empty queue. -/
theorem Queues.tail_created (hQ : Queues s L) {p : Nat} (hp : p ≤ TASK_PRIORITY_MAX)
    (hne : s.readyQueueHead p ≠ 0) : Created s (s.readyQueueTail p) := by
  have ht : s.readyQueueTail p ≠ 0 := by
    intro ht
    rw [(hQ.links.queue p hp).tail_eq_nil_iff, ← (hQ.links.queue p hp).head_eq_nil_iff] at ht
    exact hne ht
  exact (hQ.members p hp _ ((hQ.links.queue p hp).tail_mem ht)).1

theorem AgreeInv.taskCreatePriority (h : AgreeInv s L) (entry priority : Nat) :
    ∃ L', AgreeInv (taskCreatePriority s entry priority).2 L' := by
  rcases taskCreatePriority_cases s entry priority with ⟨-, heq⟩ | ⟨slot, hentry, hslot, -⟩
  · rw [heq]
    exact ⟨L, h⟩
  obtain ⟨hsl, hempty⟩ := firstSlot_empty hslot
  have hp := clampPriority_le priority
  obtain ⟨hno, hQ', hc'⟩ := h.queues.create h.closed priority hentry hslot
  -- the current task is RUNNING, so its slot is not the empty one
  have hnotcur : slot ≠ s.currentTask := by
    rintro rfl
    obtain ⟨-, hst⟩ := h.state_current hsl.ne_zero
    simp [hst] at hempty
  -- the lists are those of `Queues.create`; what is left are states and links
  rw [taskCreatePriority_eq hentry hslot] at hQ' hc' ⊢
  set s₁ : State := { s with taskCounter := s.taskCounter + 1 } with hs₁
  set s' := enqueue (s₁.setTask slot (fresh s slot entry (clampPriority priority)))
    (clampPriority priority) slot with hs'
  have hsame := sameTasks_enqueue (s₁.setTask slot (fresh s slot entry (clampPriority priority)))
    (clampPriority priority) slot
  have hcur : s'.currentTask = s.currentTask := by simp [hs', hs₁]
  have hrun : s'.schedulerRunning = s.schedulerRunning := by simp [hs', hs₁]
  have hother : ∀ i, i ≠ slot → (s'.tasks i).state = (s.tasks i).state ∧
      (s'.tasks i).priority = (s.tasks i).priority := by
    intro i hi
    rw [hsame.state, hsame.priority]
    simp [hi, hs₁]
  refine ⟨_, h.sameCurrent hQ' hc' hcur hrun (fun _ => (hother _ hnotcur.symm).1)
    (hother 0 hsl.ne_zero.symm).1 (fun i hi hic => ?_) fun i hi he => ?_⟩
  · by_cases his : i = slot
    · subst his
      have hfields : (s'.tasks i).state = .ready ∧
          (s'.tasks i).priority = clampPriority priority := by
        rw [hsame.state, hsame.priority]
        simp [fresh]
      rw [hfields.2, Function.update_self]
      exact ⟨hfields.1, self_mem_requeued _ _⟩
    · obtain ⟨hst, hpr⟩ := hother i his
      have hcr : Created s i := ⟨hi.1, hst ▸ hi.2⟩
      obtain ⟨hready, hmem⟩ := h.ready i hcr hic
      refine ⟨hst.trans hready, ?_⟩
      rw [hpr]
      by_cases hpp : (s.tasks i).priority = clampPriority priority
      · rw [hpp, Function.update_self]
        exact mem_requeued_of_not_mem hno (hpp ▸ hmem)
      · rwa [Function.update_of_ne hpp]
  · have his : i ≠ slot := by
      rintro rfl
      rw [hsame.state] at he
      simp [fresh] at he
    have hempty' : (s.tasks i).state = .empty := (hother i his).1 ▸ he
    -- the only link written is that of the old tail, a created slot
    have hnt : ¬ (s₁.readyQueueHead (clampPriority priority) ≠ 0 ∧
        i = s₁.readyQueueTail (clampPriority priority)) := by
      rintro ⟨hne, rfl⟩
      exact (h.queues.tail_created hp hne).2 hempty'
    rw [hs', requeue_next rfl, if_neg hnt, if_neg his]
    exact h.empty_next i hi hempty'

theorem AgreeInv.schedStart (h : AgreeInv s L) (hidle : s.schedulerRunning = false) :
    ∃ L', AgreeInv (schedStart s) L' := by
  rcases hp : highestPrio s with _ | p
  · have heq : Sched.schedStart s = s := by simp [Sched.schedStart, hp]
    rw [heq]
    exact ⟨L, h⟩
  obtain ⟨hple, hne⟩ := highestPrio_eq_some hp
  obtain ⟨l, hl, hQ', hc'⟩ := h.queues.start h.closed hp
  have hcr := h.queues.links.head_created h.queues.members h.closed hple hne
  have hcur : (Sched.schedStart s).currentTask = s.readyQueueHead p := by
    rw [schedStart_eq hp]
    simp
  have hrun : (Sched.schedStart s).schedulerRunning = true := by
    rw [schedStart_eq hp]
    simp
  -- switching takes the head off without touching links
  have hnext : (Sched.schedStart s).next = s.next := by
    rw [schedStart_eq hp, setTask_next, dispatch_tasks]
    funext i
    simp [State.next, Function.update_apply]
    rintro rfl
    rfl
  have hother : ∀ i, i ≠ s.readyQueueHead p →
      (Sched.schedStart s).tasks i = s.tasks i := by
    intro i hi
    rw [schedStart_eq hp]
    simp [hi]
  refine ⟨_, hQ', hc', fun hr => ?_, fun _ => ?_, fun i hi hic => ?_, ?_, fun i hi he => ?_⟩
  · rw [hrun] at hr
    simp at hr
  · rw [hcur]
    refine ⟨hne, ?_⟩
    rw [schedStart_eq hp]
    simp
  · rw [hcur] at hic
    have hcr : Created s i := ⟨hi.1, hother i hic ▸ hi.2⟩
    -- before the start there is no current task
    have hnc : i ≠ s.currentTask := by
      rw [h.idle hidle]
      exact hi.1.ne_zero
    obtain ⟨hready, hmem⟩ := h.ready i hcr hnc
    rw [hother i hic]
    refine ⟨hready, ?_⟩
    by_cases hpp : (s.tasks i).priority = p
    · rw [hpp, hl] at hmem
      rw [hpp, Function.update_self]
      exact (List.mem_cons.mp hmem).resolve_left hic
    · rwa [Function.update_of_ne hpp]
  · rw [hother 0 hne.symm]
    exact h.slot_zero
  · have hih : i ≠ s.readyQueueHead p := by
      rintro rfl
      rw [schedStart_eq hp] at he
      simp at he
    rw [hother i hih] at he
    rw [hnext]
    exact h.empty_next i hi he

/-- While nothing is BLOCKED, waking does nothing. -/
theorem AgreeInv.taskWake_eq (h : AgreeInv s L) (id : Nat) : taskWake s id = s := by
  have hnone : firstSlot
      (fun i => (s.tasks i).id == id && (s.tasks i).state == .blocked) = none := by
    by_contra hne
    obtain ⟨i, hi⟩ := Option.ne_none_iff_exists'.mp hne
    obtain ⟨hsl, hq⟩ := firstSlot_eq_some hi
    have hst : (s.tasks i).state = .blocked := by
      rw [Bool.and_eq_true] at hq
      simpa using hq.2
    rcases h.state_cases hsl.2 with ⟨hr, -⟩ | ⟨hr, -⟩ | ⟨hr, -⟩ <;> simp [hr] at hst
  unfold taskWake
  rw [hnone]

theorem AgreeInv.schedTick_eq (h : AgreeInv s L) : schedTick s = s := by
  have hslot : ∀ i, Slot i → tickSlot s i = s := by
    intro i hi
    unfold tickSlot
    rw [if_neg]
    rintro ⟨hst, -⟩
    rcases h.state_cases hi.2 with ⟨hr, -⟩ | ⟨hr, -⟩ | ⟨hr, -⟩ <;> simp [hr] at hst
  -- the loop, by induction on the slots it still visits
  have hfold : ∀ is : List Nat, (∀ i ∈ is, Slot i) → is.foldl tickSlot s = s := by
    intro is
    induction is with
    | nil => exact fun _ => rfl
    | cons i is ih =>
      intro hall
      rw [List.foldl_cons, hslot i (hall i (List.mem_cons_self ..))]
      exact ih fun j hj => hall j (List.mem_cons_of_mem _ hj)
  exact hfold _ fun i hi => mem_slots.mp hi

/-- Removing a slot writes no link that was 0. -/
theorem unlink_next_zero {p i j : Nat} (hi : i ≠ 0) (hj : s.next j = 0) :
    (unlink s p i).next j = 0 := by
  by_cases hhead : s.readyQueueHead p = i
  · unfold unlink
    rw [if_pos hhead]
    dsimp only
    split_ifs <;> exact hj
  · rcases hk : firstSlot (fun k => (s.tasks k).next == i) with _ | k
    · unfold unlink
      rw [if_neg hhead, hk]
      exact hj
    · have hnext : s.next k = i := by simpa [State.next] using (firstSlot_eq_some hk).2
      have hjk : j ≠ k := by
        rintro rfl
        exact hi (hnext.symm.trans hj)
      rw [(unlink_scan s p i hhead hk).1, Function.update_of_ne hjk]
      exact hj

section SetPriority

variable {id priority i : Nat}

theorem AgreeInv.taskSetPriority (h : AgreeInv s L)
    (hfind : firstSlot (fun i => (s.tasks i).id == id) = some i)
    (hne : (s.tasks i).priority ≠ clampPriority priority) (hgood : Movable s i) :
    ∃ L', AgreeInv (taskSetPriority s id priority) L' := by
  obtain ⟨L', hQ', hc', hmem, hkept⟩ := h.queues.setPriority h.closed hfind hne hgood
  have hsl := (firstSlot_eq_some hfind).1
  have hp' := clampPriority_le priority
  have hfields := move_fields (s := s) (clampPriority priority) (s.tasks i).priority i
  have heq := h.queues.taskSetPriority_eq hfind hne
  rw [heq] at hQ' hc' ⊢
  set s₁ := unlink s (s.tasks i).priority i with hs₁
  set s' := enqueue (s₁.setTask i (moved (clampPriority priority))) (clampPriority priority) i
    with hs'
  have hcur : s'.currentTask = s.currentTask := by simp [hs', hs₁]
  have hrun : s'.schedulerRunning = s.schedulerRunning := by simp [hs', hs₁]
  have hsame := sameTasks_enqueue (s₁.setTask i (moved (clampPriority priority)))
    (clampPriority priority) i
  have hsame₁ := sameTasks_unlink s (s.tasks i).priority i
  have hother : ∀ j, j ≠ i → (s'.tasks j).state = (s.tasks j).state ∧
      (s'.tasks j).priority = (s.tasks j).priority := by
    intro j hji
    rw [hsame.state, hsame.priority, setTask_tasks, Function.update_of_ne hji]
    exact ⟨hsame₁.state j, hsame₁.priority j⟩
  have hstate : ∀ j, (s'.tasks j).state = (s.tasks j).state := by
    intro j
    by_cases hji : j = i
    · rw [hji]
      exact hfields.1
    · exact (hother j hji).1
  refine ⟨L', h.sameCurrent hQ' hc' hcur hrun (fun _ => hstate _) (hstate 0)
    (fun j hj hjc => ?_) fun j hj he => ?_⟩
  · have hcr : Created s j := ⟨hj.1, hstate j ▸ hj.2⟩
    obtain ⟨hready, hjm⟩ := h.ready j hcr hjc
    rw [hstate j]
    refine ⟨hready, ?_⟩
    by_cases hji : j = i
    · rw [hji, hfields.2]
      exact hmem
    · rw [(hother j hji).2]
      exact hkept _ (h.queues.slots.prio_le j hj.1) j hjm hji
  · -- neither the scan nor the append writes the link of an empty slot
    rw [hstate] at he
    have hji : j ≠ i := by
      rintro rfl
      exact hgood.1 he
    have hnt : ¬ (s₁.readyQueueHead (clampPriority priority) ≠ 0 ∧
        j = s₁.readyQueueTail (clampPriority priority)) := by
      rw [hs₁, unlink_head_of_ne _ _ _ (Ne.symm hne), unlink_tail_of_ne _ _ _ (Ne.symm hne)]
      rintro ⟨hhead, rfl⟩
      exact (h.queues.tail_created hp' hhead).2 he
    rw [hs', requeue_next rfl, if_neg hnt, if_neg hji]
    exact unlink_next_zero hsl.ne_zero (h.empty_next j hj he)

/-- The slot a scan for a predecessor stops at is queued, unless it is the
current task: empty slots have link 0. -/
theorem AgreeInv.scan_queued (h : AgreeInv s L) {j : Nat} (hi : i ≠ 0)
    (hj : firstSlot (fun j => (s.tasks j).next == i) = some j) (hjc : j ≠ s.currentTask) :
    Queued s j := by
  obtain ⟨hjsl, hnext⟩ := firstSlot_eq_some hj
  have hnext : s.next j = i := by simpa [State.next] using hnext
  have hjcr : Created s j := by
    refine ⟨hjsl, fun he => hi ?_⟩
    rw [← hnext]
    exact h.empty_next j hjsl he
  have hjm := (h.ready j hjcr hjc).2
  exact (h.queues.links.queued_iff h.closed).mpr ⟨_, h.queues.slots.prio_le j hjsl, hjm⟩

/-- A priority change of a slot that is not `Movable` breaks the agreement: an
empty slot is queued, or a READY slot is on two queues. -/
theorem AgreeInv.taskSetPriority_breaks (h : AgreeInv s L)
    (hfind : firstSlot (fun i => (s.tasks i).id == id) = some i)
    (hne : (s.tasks i).priority ≠ clampPriority priority) (hbad : ¬ Movable s i) :
    ¬ StateQueueAgreement (Sched.taskSetPriority s id priority) := by
  intro hag
  have hsl := (firstSlot_eq_some hfind).1
  have hp := h.queues.slots.prio_le i hsl
  have hp' := clampPriority_le priority
  have hfields := move_fields (s := s) (clampPriority priority) (s.tasks i).priority i
  rw [← h.queues.taskSetPriority_eq hfind hne] at hfields
  rcases h.queues.setPriority_stray h.closed hfind hne hbad with
    ⟨hempty, hin⟩ | ⟨hqd, ⟨j, hj, hjq⟩, hin⟩
  · exact hag.not_queued i hsl.2 (.inr (hfields.1.trans hempty)) ⟨_, hp', hin⟩
  · obtain ⟨q, hq, hiq⟩ := (h.queues.links.queued_iff h.closed).mp hqd
    -- the slot the scan stops at is on no queue, so it is the current task
    have hnextj : s.next j = i := by simpa [State.next] using (firstSlot_eq_some hj).2
    have hjcur : j = s.currentTask := by
      by_contra hjc
      exact hjq (h.scan_queued hsl.ne_zero hj hjc)
    -- were `i` current, the slot found would be `i` itself: a loop
    have hicur : i ≠ s.currentTask := by
      intro hic
      have hself : s.next i = i := by
        rw [← hjcur] at hic
        rwa [← hic] at hnextj
      exact (h.queues.links.linked hq (h.closed q hq)).not_mem_of_self hself hiq
    have hready := (h.ready i (h.queues.members q hq i hiq).1 hicur).1
    have honly := ((hag.ready_iff i hsl.2).mp (hfields.1.trans hready)).2.2.2
    have hold := honly _ hp hin
    rw [hfields.2] at hold
    exact hne hold

end SetPriority

/-- A running scheduler whose current task is not RUNNING is not in agreement. -/
theorem StateQueueAgreement.state_current {s : State} (h : StateQueueAgreement s)
    (hrun : s.schedulerRunning = true) (hlt : s.currentTask < TASK_MAX) :
    (s.tasks s.currentTask).state = .running :=
  (h.running_iff _ hlt).mpr ⟨hrun, rfl⟩

/-- The head of a queue is READY unless it is the current task. -/
theorem AgreeInv.head_ready (h : AgreeInv s L) {p : Nat} (hp : p ≤ TASK_PRIORITY_MAX)
    (hne : s.readyQueueHead p ≠ 0) (hnc : s.readyQueueHead p ≠ s.currentTask) :
    (s.tasks (s.readyQueueHead p)).state = .ready :=
  (h.ready _ (h.queues.links.head_created h.queues.members h.closed hp hne) hnc).1

/-- A `task_yield` that switches leaves a current task that is not RUNNING. -/
theorem AgreeInv.taskYield_breaks (h : AgreeInv s L) (rsp : Nat)
    (hrun : s.schedulerRunning = true) (hc0 : s.currentTask ≠ 0)
    (hhead : s.readyQueueHead (s.tasks s.currentTask).priority ≠ 0) :
    ¬ StateQueueAgreement (taskYield s rsp) := by
  intro hag
  have hcr := h.queues.slots.current_created hc0
  have hp := h.queues.slots.prio_le _ hcr.1
  have hst := (h.busy hrun).2
  obtain ⟨hnew, hfields⟩ := taskYield_fields hrun hc0 hhead rsp
  have hrun' : (taskYield s rsp).schedulerRunning = true := by
    rw [taskYield_eq_of_running hrun hc0 hhead rsp hst]
    simp [hrun]
  have hhcr := h.queues.links.head_created h.queues.members h.closed hp hhead
  have hcurrent := hag.state_current hrun' (hnew ▸ hhcr.1.2)
  rw [hnew, (hfields _).2] at hcurrent
  -- the task switched to is the old one, now READY, or another READY one
  split at hcurrent
  · exact absurd hcurrent (by simp)
  · rename_i hnc
    rw [h.head_ready hp hhead fun hc => hnc ⟨hc, hst⟩] at hcurrent
    exact absurd hcurrent (by simp)

/-- A `task_sleep` by a running task leaves a current task that is not RUNNING:
the sleeper itself, or the task switched to. -/
theorem AgreeInv.taskSleep_breaks (h : AgreeInv s L) (ms rsp : Nat)
    (hrun : s.schedulerRunning = true) (hc0 : s.currentTask ≠ 0) :
    ¬ StateQueueAgreement (taskSleep s ms rsp) := by
  intro hag
  have hcr := h.queues.slots.current_created hc0
  have hp := h.queues.slots.prio_le _ hcr.1
  -- with an empty queue the sleeper stays current, BLOCKED
  by_cases hhead : s.readyQueueHead (s.tasks s.currentTask).priority = 0
  · rw [taskSleep_eq_of_empty hrun hc0 hhead ms rsp] at hag
    have hcurrent := hag.state_current hrun h.current_lt
    simp [asleep] at hcurrent
  · obtain ⟨hnew, -, hfields⟩ := taskSleep_fields hrun hc0 hhead ms rsp
    have hrun' : (taskSleep s ms rsp).schedulerRunning = true := by
      rw [taskSleep_eq_of_switch hrun hc0 hhead ms rsp]
      simp [hrun]
    have hhcr := h.queues.links.head_created h.queues.members h.closed hp hhead
    have hcurrent := hag.state_current hrun' (hnew ▸ hhcr.1.2)
    rw [hnew, (hfields _).2] at hcurrent
    -- the task switched to is the sleeper itself, or a READY one
    split at hcurrent
    · exact absurd hcurrent (by simp)
    · rename_i hnc
      rw [h.head_ready hp hhead hnc] at hcurrent
      exact absurd hcurrent (by simp)

end Keeping

/-! ## Whole runs -/

/-- From a state with the invariant, a call keeps the agreement exactly when it
meets `KeepsAgreement`, and then keeps the invariant. -/
theorem step_agreement {s : State} {L : Nat → List Nat} (h : AgreeInv s L) (op : Op)
    (hidle : StartsIdle s op) :
    (StateQueueAgreement (step s op) ↔ KeepsAgreement s op) ∧
      (KeepsAgreement s op → ∃ L', AgreeInv (step s op) L') := by
  -- a call that keeps the invariant whatever its arguments
  have hsafe : ∀ {s' : State} {C : Prop}, (∃ L', AgreeInv s' L') → C →
      (StateQueueAgreement s' ↔ C) ∧ (C → ∃ L', AgreeInv s' L') := by
    rintro s' C ⟨L', h'⟩ hC
    exact ⟨⟨fun _ => hC, fun _ => h'.agreement⟩, fun _ => ⟨L', h'⟩⟩
  -- a call that breaks the agreement exactly when its condition fails
  have hbreak : ∀ {s' : State} {C : Prop}, ¬ StateQueueAgreement s' → ¬ C →
      (StateQueueAgreement s' ↔ C) ∧ (C → ∃ L', AgreeInv s' L') := by
    intro s' C hs' hC
    exact ⟨⟨fun h => absurd h hs', fun h => absurd h hC⟩, fun h => absurd h hC⟩
  cases op with
  | taskCreatePriority entry priority => exact hsafe (h.taskCreatePriority entry priority) trivial
  | schedStart => exact hsafe (h.schedStart (hidle rfl)) trivial
  | taskWake id =>
    refine hsafe ⟨L, ?_⟩ trivial
    rw [step, h.taskWake_eq]
    exact h
  | schedTick =>
    refine hsafe ⟨L, ?_⟩ trivial
    rw [step, h.schedTick_eq]
    exact h
  | taskYield rsp =>
    by_cases hsw : s.schedulerRunning = true ∧ s.currentTask ≠ 0 ∧
        s.readyQueueHead (s.tasks s.currentTask).priority ≠ 0
    · exact hbreak (h.taskYield_breaks rsp hsw.1 hsw.2.1 hsw.2.2) fun hC => hC hsw
    · refine hsafe ⟨L, ?_⟩ hsw
      rw [step, taskYield_eq_self hsw]
      exact h
  | taskSleep ms rsp =>
    by_cases hsw : s.schedulerRunning = true ∧ s.currentTask ≠ 0
    · exact hbreak (h.taskSleep_breaks ms rsp hsw.1 hsw.2) fun hC => hC hsw
    · refine hsafe ⟨L, ?_⟩ hsw
      rw [step, taskSleep_eq_self hsw]
      exact h
  | taskSetPriority id priority =>
    rcases hfind : firstSlot (fun i => (s.tasks i).id == id) with _ | i
    · have heq : taskSetPriority s id priority = s := by simp [taskSetPriority, hfind]
      refine hsafe ⟨L, ?_⟩ fun i hi => ?_
      · rw [step, heq]
        exact h
      · rw [hfind] at hi
        simp at hi
    · have hcond : KeepsAgreement s (.taskSetPriority id priority) ↔
          ((s.tasks i).priority ≠ clampPriority priority → Movable s i) := by
        simp only [KeepsAgreement, hfind, Option.some.injEq, forall_eq']
      by_cases hsame : (s.tasks i).priority = clampPriority priority
      · have heq : taskSetPriority s id priority = s := by simp [taskSetPriority, hfind, hsame]
        refine hsafe ⟨L, ?_⟩ (hcond.mpr fun hne => absurd hsame hne)
        rw [step, heq]
        exact h
      · by_cases hgood : Movable s i
        · exact hsafe (h.taskSetPriority hfind hsame hgood) (hcond.mpr fun _ => hgood)
        · exact hbreak (h.taskSetPriority_breaks hfind hsame hgood)
            fun hC => hgood (hcond.mp hC hsame)

/-- Only `sched_start` changes `scheduler_running`. -/
theorem step_running {s : State} {op : Op} (hop : op ≠ .schedStart) :
    (step s op).schedulerRunning = s.schedulerRunning := by
  have hwake : ∀ (s : State) (id : Nat),
      (taskWake s id).schedulerRunning = s.schedulerRunning := by
    intro s id
    unfold taskWake
    split
    · rfl
    · simp
  cases op with
  | schedStart => exact absurd rfl hop
  | taskCreatePriority entry priority =>
    simp only [step, taskCreatePriority]
    split
    · rfl
    · split <;> simp
  | taskSetPriority id priority =>
    simp only [step, taskSetPriority]
    split
    · rfl
    · split <;> simp
  | taskYield rsp =>
    simp only [step, taskYield]
    split
    · rfl
    · split
      · rfl
      · split <;> simp
  | taskSleep ms rsp =>
    simp only [step, taskSleep]
    split
    · rfl
    · split <;> simp
  | taskWake id => exact hwake s id
  | schedTick =>
    have hslot : ∀ s i, (tickSlot s i).schedulerRunning = s.schedulerRunning := by
      intro s i
      unfold tickSlot
      split
      · split
        · exact hwake _ _
        · rfl
      · rfl
    -- the loop, by induction on the slots it still visits
    have hfold : ∀ (is : List Nat) (s : State),
        (is.foldl tickSlot s).schedulerRunning = s.schedulerRunning := by
      intro is
      induction is with
      | nil => exact fun _ => rfl
      | cons i is ih =>
        intro s
        rw [List.foldl_cons, ih, hslot]
    exact hfold _ s

/-- A run that calls `sched_start` at most once calls it on an idle scheduler. -/
theorem startsIdle_of_count {s : State} {ops : List Op} (hidle : s.schedulerRunning = false)
    (hOnce : ops.count .schedStart ≤ 1) : Meets step StartsIdle s ops := by
  induction ops generalizing s with
  | nil => exact trivial
  | cons op ops ih =>
    refine ⟨fun _ => hidle, ?_⟩
    by_cases hop : op = .schedStart
    · subst hop
      rw [List.count_cons_self] at hOnce
      -- after the one start, no other follows
      have hnone : .schedStart ∉ ops := List.count_eq_zero.mp (by omega)
      refine meets_of_forall fun op' hop' s' h => ?_
      exact absurd (h ▸ hop') hnone
    · rw [List.count_cons_of_ne hop] at hOnce
      exact ih ((step_running hop).trans hidle) hOnce

/-- **State and queue agreement along a run.** Over the runs that call
`sched_start` at most once, task states, `current_task` and the ready queues
agree in every state if and only if every call meets `KeepsAgreement` in the
state it is made in. -/
theorem stateQueueAgreement_throughout_iff (tasksAddr : Nat) (ops : List Op)
    (hOnce : ops.count .schedStart ≤ 1) :
    Throughout step StateQueueAgreement (initial tasksAddr) ops ↔
      Meets step KeepsAgreement (initial tasksAddr) ops := by
  have hidle : (initial tasksAddr).schedulerRunning = false := rfl
  refine throughout_iff_meets (D := StartsIdle) (fun s (h : ∃ L, AgreeInv s L) => ?_)
    (fun s op h hd => ?_) (fun s op h hd hC => ?_) ⟨_, agreeInv_initial tasksAddr⟩
    (startsIdle_of_count hidle hOnce)
  · obtain ⟨L, hL⟩ := h
    exact hL.agreement
  · obtain ⟨L, hL⟩ := h
    exact (step_agreement hL op hd).1
  · obtain ⟨L, hL⟩ := h
    exact (step_agreement hL op hd).2 hC

/-- A run of three tasks that keeps the agreement: one of the first two is moved to
another queue, and the third one runs by itself. -/
theorem stateQueueAgreement_three_tasks :
    Throughout step StateQueueAgreement (initial 0)
      [.taskCreatePriority 1 1, .taskCreatePriority 2 1, .taskCreatePriority 3 2,
        .taskSetPriority 1 0, .schedStart, .taskYield 0, .taskWake 1, .schedTick] := by
  rw [stateQueueAgreement_throughout_iff 0 _ (by decide)]
  refine ⟨trivial, trivial, trivial, fun i hi _ => ?_, trivial, ?_, trivial, trivial, trivial⟩
  · -- the first task is at the head of its queue
    have hslot : firstSlot (fun i => ((run step (initial 0) [.taskCreatePriority 1 1,
        .taskCreatePriority 2 1, .taskCreatePriority 3 2]).tasks i).id == 1) = some 1 := by decide
    obtain rfl : 1 = i := Option.some.inj (hslot.symm.trans hi)
    exact ⟨by decide, fun _ => .inl (by decide)⟩
  · rintro ⟨-, -, hhead⟩
    exact hhead (by decide)

/-- With two tasks of one priority, the first `task_yield` already breaks the
agreement: task 2 is current and READY. -/
theorem yield_leaves_current_ready :
    ¬ StateQueueAgreement (run step (initial 0)
      [.taskCreatePriority 1 1, .taskCreatePriority 1 1, .schedStart, .taskYield 0]) := by
  intro h
  have hcurrent := h.state_current (by decide) (by decide)
  revert hcurrent
  decide

end AegisKernel.Sched
