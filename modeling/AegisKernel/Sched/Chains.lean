import AegisKernel.Sched.Queues

/-!
# Scheduler — when the ready queues stay well formed

`task_set_priority`, `task_yield`, `task_wake` and `sched_tick` can corrupt
the ready queues. This module pins down exactly which calls do.

* `KeepsChains s op` — the condition on a call and the state it is made in:
  `task_set_priority` must not move an empty slot, and the scan for a
  predecessor must not stop at a slot that is on no queue (links are not
  cleared on dequeue); a slot that is already the last of its queue must not
  be appended to it again by `task_yield`, `task_wake` or a `sched_tick` that
  wakes no other task of the same priority.
* `ChainInv` — the invariant conforming calls keep: `Slots` (slot `i` holds id
  `i`, created slots are an initial segment, priorities are in range) and the
  list description of the queues.
* `step_exact` — from a state with the invariant, a call leaves the
  queues well formed exactly when it meets `KeepsChains`.

The result about whole runs is `wellFormedQueues_throughout_iff`.
-/

namespace AegisKernel.Sched

open Library

/-- Slot `i` is woken by the next `sched_tick`. -/
def Waking (s : State) (i : Nat) : Prop :=
  Slot i ∧ (s.tasks i).state = .blocked ∧ (s.tasks i).wakeTime = 1

/-- The calls that leave well-formed queues well formed. -/
def KeepsChains (s : State) : Op → Prop
  | .taskSetPriority id priority =>
      ∀ i, firstSlot (fun i => (s.tasks i).id == id) = some i →
        (s.tasks i).priority ≠ clampPriority priority →
        (s.tasks i).state ≠ .empty ∧
        (Queued s i → s.readyQueueHead (s.tasks i).priority = i ∨
          ∃ j, firstSlot (fun j => (s.tasks j).next == i) = some j ∧ Queued s j)
  | .taskYield _ =>
      ¬ (s.schedulerRunning = true ∧ s.currentTask ≠ 0 ∧
        (s.tasks s.currentTask).state = .running ∧
        s.readyQueueHead (s.tasks s.currentTask).priority ≠ s.currentTask ∧
        s.readyQueueTail (s.tasks s.currentTask).priority = s.currentTask)
  | .taskWake id =>
      ∀ i, firstSlot (fun i => (s.tasks i).id == id && (s.tasks i).state == .blocked) = some i →
        s.readyQueueTail (s.tasks i).priority ≠ i
  | .schedTick =>
      ∀ i, Waking s i → s.readyQueueTail (s.tasks i).priority = i →
        ∃ j, j ≠ i ∧ Waking s j ∧ (s.tasks j).priority = (s.tasks i).priority
  | _ => True

/-- What holds of the task table in every state: slot `i` holds task `i`, the
created slots are `1 … task_counter - 1`, priorities index a queue, and the
current task, if any, is a created one. -/
structure Slots (s : State) : Prop where
  counter_pos : 1 ≤ s.taskCounter
  created_iff : ∀ i, Slot i → ((s.tasks i).state ≠ .empty ↔ i < s.taskCounter)
  id_eq : ∀ i, Created s i → (s.tasks i).id = i
  prio_le : ∀ i, Slot i → (s.tasks i).priority ≤ TASK_PRIORITY_MAX
  current : s.currentTask = 0 ∨ Created s s.currentTask

/-- The list description of a state, except for where the chains end. -/
structure Queues (s : State) (L : Nat → List Nat) : Prop where
  slots : Slots s
  links : Links s L
  members : Members s L

/-- The invariant of runs whose calls all meet `KeepsChains`. -/
def ChainInv (s : State) : Prop := ∃ L, Queues s L ∧ Closed s

theorem ChainInv.wellFormed {s : State} (h : ChainInv s) : WellFormedQueues s := by
  obtain ⟨L, hQ, hc⟩ := h
  exact (wellFormedQueues_iff hQ.links).mpr ⟨hc, hQ.members⟩

/-! ## The task table -/

theorem firstSlot_min {q : Nat → Bool} {i j : Nat} (h : firstSlot q = some i)
    (hj : Slot j) (hji : j < i) : q j = false := by
  unfold firstSlot at h
  rw [List.find?_range'_eq_some] at h
  simpa using h.2.2 j hj.1 hji

theorem clampPriority_le (p : Nat) : clampPriority p ≤ TASK_PRIORITY_MAX := by
  unfold clampPriority
  split
  · exact le_refl _
  · omega

theorem Created.of_sameTasks {s s' : State} (h : SameTasks s s') {i : Nat} :
    Created s' i ↔ Created s i := by
  unfold Created
  rw [h.state]

/-- The table facts survive any change that creates no task, keeps the ids and
keeps priorities in range. -/
theorem Slots.of_fields {s s' : State} (h : Slots s)
    (hcounter : s'.taskCounter = s.taskCounter)
    (hstate : ∀ i, (s'.tasks i).state = .empty ↔ (s.tasks i).state = .empty)
    (hid : ∀ i, (s'.tasks i).id = (s.tasks i).id)
    (hprio : ∀ i, Slot i → (s'.tasks i).priority ≤ TASK_PRIORITY_MAX)
    (hcur : s'.currentTask = 0 ∨ Created s s'.currentTask) : Slots s' := by
  have hcreated : ∀ i, Created s' i ↔ Created s i := by
    intro i
    simp only [Created, ne_eq, hstate i]
  refine ⟨hcounter ▸ h.counter_pos, fun i hi => ?_, fun i hi => ?_, hprio, ?_⟩
  · rw [hcounter, ne_eq, hstate i]
    exact h.created_iff i hi
  · rw [hid]
    exact h.id_eq i ((hcreated i).mp hi)
  · rw [hcreated]
    exact hcur

/-- Changes of links and queue pointers only, with a task on a queue or the old
one as the current task. -/
theorem Slots.of_sameTasks {s s' : State} (h : Slots s) (hs : SameTasks s s')
    (hcounter : s'.taskCounter = s.taskCounter)
    (hcur : s'.currentTask = 0 ∨ Created s s'.currentTask) : Slots s' := by
  refine h.of_fields hcounter (fun i => by rw [hs.state]) (fun i => hs.id i) (fun i hi => ?_) hcur
  rw [hs.priority]
  exact h.prio_le i hi

/-- One task edited, without emptying or filling its slot; links and queue
pointers may change as well. -/
theorem Slots.edit {s s' : State} (h : Slots s) {i : Nat} {f : Task → Task}
    (hs : SameTasks (s.setTask i f) s') (hcounter : s'.taskCounter = s.taskCounter)
    (hcur : s'.currentTask = s.currentTask)
    (hid : (f (s.tasks i)).id = (s.tasks i).id)
    (hstate : (f (s.tasks i)).state = .empty ↔ (s.tasks i).state = .empty)
    (hprio : Slot i → (f (s.tasks i)).priority ≤ TASK_PRIORITY_MAX) : Slots s' := by
  refine h.of_fields hcounter (fun j => ?_) (fun j => ?_) (fun j => ?_) ?_
  · rw [hs.state]
    exact iff_of_eq (setTask_kept (fun t => t.state = .empty) (propext hstate) j)
  · rw [hs.id]
    exact setTask_kept Task.id hid j
  · rw [hs.priority]
    revert j
    exact (Function.forall_update_iff s.tasks fun j t =>
      Slot j → t.priority ≤ TASK_PRIORITY_MAX).mpr ⟨hprio, fun j _ => h.prio_le j⟩
  · rw [hcur]
    exact h.current

theorem slots_initial (tasksAddr : Nat) : Slots (initial tasksAddr) := by
  have hslot : ∀ i, Slot i → ((initial tasksAddr).tasks i).state = .empty := by
    intro i hi
    rw [initial_task _ hi.2]
  refine ⟨le_refl _, fun i hi => ?_, fun i hi => ?_, fun i hi => ?_, .inl rfl⟩
  · have h1 : (initial tasksAddr).taskCounter = 1 := rfl
    have := hi.1
    rw [hslot i hi, h1]
    simp
    omega
  · exact absurd (hslot i hi.1) hi.2
  · rw [initial_task _ hi.2]
    exact Nat.le_succ 1

theorem queues_initial (tasksAddr : Nat) :
    Queues (initial tasksAddr) (fun _ => []) ∧ Closed (initial tasksAddr) := by
  refine ⟨⟨slots_initial tasksAddr, ⟨fun p hp => ?_, ?_⟩, ?_⟩, ?_⟩
  · rw [initial_head, initial_tail]
    exact .empty
  · intro p _ q _ i hi
    simp at hi
  · intro p _ i hi
    simp at hi
  · intro p _ ht
    exact absurd (initial_tail tasksAddr p) ht

theorem chainInv_initial (tasksAddr : Nat) : ChainInv (initial tasksAddr) :=
  ⟨_, queues_initial tasksAddr⟩

/-! ## One call at a time

For each function: the queues stay well formed exactly when the call meets its
condition, and then the whole invariant survives. -/

/-- The two facts proved about each call. -/
def Exact (s' : State) (C : Prop) : Prop :=
  (WellFormedQueues s' ↔ C) ∧ (C → ChainInv s')

/-- The common case: the lists and members are known whatever the call did, and
closedness is what the condition decides. -/
theorem Queues.exact {s' : State} {L : Nat → List Nat} {C : Prop} (hQ : Queues s' L)
    (hc : Closed s' ↔ C) : Exact s' C := by
  refine ⟨?_, fun h => ⟨L, hQ, hc.mpr h⟩⟩
  rw [wellFormedQueues_iff hQ.links, ← hc]
  exact ⟨fun h => h.1, fun h => ⟨h, hQ.members⟩⟩

/-- A call that changes nothing, or is always safe. -/
theorem ChainInv.exact {s' : State} {C : Prop} (h : ChainInv s') (hC : C) : Exact s' C :=
  ⟨⟨fun _ => hC, fun _ => h.wellFormed⟩, fun _ => h⟩

section Calls

variable {s : State} {L : Nat → List Nat}

theorem Members.sub (hm : Members s L) {L' : Nat → List Nat} {s' : State}
    (hsub : ∀ p ≤ TASK_PRIORITY_MAX, ∀ i ∈ L' p, i ∈ L p)
    (hstate : ∀ i, (s'.tasks i).state = .empty → (s.tasks i).state = .empty)
    (hprio : ∀ i, (s'.tasks i).priority = (s.tasks i).priority) : Members s' L' := by
  intro p hp i hi
  obtain ⟨hcr, hpr⟩ := hm p hp i (hsub p hp i hi)
  refine ⟨⟨hcr.1, fun h => hcr.2 (hstate i h)⟩, ?_⟩
  rw [hprio]
  exact hpr

theorem Members.requeue (hm : Members s L) {p i : Nat} {f : Task → Task} (hi : Slot i)
    (hstate : (f (s.tasks i)).state ≠ .empty) (hprio : (f (s.tasks i)).priority = p)
    (honly : ∀ q ≤ TASK_PRIORITY_MAX, i ∈ L q → q = p) :
    Members (enqueue (s.setTask i f) p i) (Function.update L p (requeued (L p) i)) := by
  have hs := sameTasks_enqueue (s.setTask i f) p i
  have hself : Created (enqueue (s.setTask i f) p i) i ∧
      ((enqueue (s.setTask i f) p i).tasks i).priority = p := by
    rw [Created.of_sameTasks hs, hs.priority]
    simp [Created, hi, hstate, hprio]
  have hother : ∀ q ≤ TASK_PRIORITY_MAX, ∀ j ∈ L q, j ≠ i →
      Created (enqueue (s.setTask i f) p i) j ∧
      ((enqueue (s.setTask i f) p i).tasks j).priority = q := by
    intro q hq j hj hji
    rw [Created.of_sameTasks hs, hs.priority]
    simpa [Created, hji] using hm q hq j hj
  intro q hq j hj
  by_cases hqp : q = p
  · subst hqp
    rw [Function.update_self] at hj
    rcases mem_requeued hj with rfl | ⟨hmem, hne⟩
    · exact hself
    · exact hother q hq j hmem hne
  · rw [Function.update_of_ne hqp] at hj
    exact hother q hq j hj fun h => hqp (honly q hq (h ▸ hj))

/-- A queued slot can only be on the queue of its own priority. -/
theorem Members.only (hm : Members s L) (i : Nat) :
    ∀ q ≤ TASK_PRIORITY_MAX, i ∈ L q → q = (s.tasks i).priority :=
  fun q hq hi => (hm q hq i hi).2.symm

theorem Links.head_created (hL : Links s L) (hm : Members s L) (hc : Closed s) {p : Nat}
    (hp : p ≤ TASK_PRIORITY_MAX) (hne : s.readyQueueHead p ≠ 0) :
    Created s (s.readyQueueHead p) :=
  (hm p hp _ ((hL.linked hp (hc p hp)).head_mem hne)).1

theorem Slots.current_created (hS : Slots s) (hne : s.currentTask ≠ 0) :
    Created s s.currentTask := hS.current.resolve_left hne

theorem Slot.ne_zero {i : Nat} (hi : Slot i) : i ≠ 0 := by
  have := hi.1
  omega

theorem firstSlot_empty {slot : Nat}
    (hslot : firstSlot (fun i => (s.tasks i).state == .empty) = some slot) :
    Slot slot ∧ (s.tasks slot).state = .empty := by
  obtain ⟨hsl, hempty⟩ := firstSlot_eq_some hslot
  exact ⟨hsl, by simpa using hempty⟩

/-- The first empty slot is the one numbered `task_counter`. -/
theorem Slots.first_empty (hS : Slots s) {slot : Nat}
    (h : firstSlot (fun i => (s.tasks i).state == .empty) = some slot) :
    slot = s.taskCounter := by
  obtain ⟨hsl, hempty⟩ := firstSlot_empty h
  -- not below: those slots are created
  have hge : s.taskCounter ≤ slot := by
    by_contra hlt
    exact (hS.created_iff slot hsl).mpr (by omega) hempty
  by_contra hne
  -- not above: the scan would have stopped at slot `task_counter`
  have hlt : s.taskCounter < slot := by omega
  have hcs : Slot s.taskCounter := ⟨hS.counter_pos, by have := hsl.2; omega⟩
  have hst : (s.tasks s.taskCounter).state ≠ .empty := by
    simpa using firstSlot_min h hcs hlt
  exact absurd ((hS.created_iff _ hcs).mp hst) (by omega)

/-- Filling the slot numbered `task_counter` and counting on. -/
theorem Slots.create (hS : Slots s) {s' : State} {t : Task} {slot : Nat} (hsl : Slot slot)
    (hslot : slot = s.taskCounter) (hempty : (s.tasks slot).state = .empty)
    (hs' : SameTasks { s with tasks := Function.update s.tasks slot t } s')
    (hcounter : s'.taskCounter = s.taskCounter + 1) (hcur : s'.currentTask = s.currentTask)
    (hid : t.id = s.taskCounter) (hstate : t.state ≠ .empty)
    (hprio : t.priority ≤ TASK_PRIORITY_MAX) : Slots s' := by
  refine ⟨?_, fun i hi => ?_, fun i hi => ?_, fun i hi => ?_, ?_⟩
  · have := hS.counter_pos
    omega
  · rw [hs'.state, hcounter]
    by_cases his : i = slot
    · subst his
      simp [hstate, hslot]
    · simp only [Function.update_of_ne his]
      rw [hS.created_iff i hi]
      omega
  · rw [Created.of_sameTasks hs'] at hi
    rw [hs'.id]
    by_cases his : i = slot
    · subst his
      simp [hid, hslot]
    · have hci : Created s i := by simpa [Created, his] using hi
      simpa [his] using hS.id_eq i hci
  · rw [hs'.priority]
    by_cases his : i = slot
    · subst his
      simpa using hprio
    · simpa [his] using hS.prio_le i hi
  · rw [hcur, Created.of_sameTasks hs']
    rcases hS.current with h0 | hcr
    · exact .inl h0
    · have his : s.currentTask ≠ slot := fun h => hcr.2 (h ▸ hempty)
      exact .inr (by simpa [Created, his] using hcr)

/-- Editing fields of one task other than its link, priority and id, without
emptying or filling its slot. -/
theorem Queues.setTask (hQ : Queues s L) {i : Nat} {f : Task → Task}
    (hnext : (f (s.tasks i)).next = (s.tasks i).next)
    (hprio : (f (s.tasks i)).priority = (s.tasks i).priority)
    (hid : (f (s.tasks i)).id = (s.tasks i).id)
    (hstate : (f (s.tasks i)).state = .empty ↔ (s.tasks i).state = .empty) :
    Queues (s.setTask i f) L ∧ (Closed (s.setTask i f) ↔ Closed s) := by
  -- the link field is rewritten with its own value
  have hlinks : (s.setTask i f).next = s.next := by
    rw [setTask_next, hnext]
    exact Function.update_eq_self i s.next
  have hempty : ∀ j, ((s.setTask i f).tasks j).state = .empty ↔ (s.tasks j).state = .empty :=
    fun j => iff_of_eq (setTask_kept (fun t => t.state = .empty) (propext hstate) j)
  have hprios : ∀ j, ((s.setTask i f).tasks j).priority = (s.tasks j).priority :=
    setTask_kept Task.priority hprio
  refine ⟨⟨?_, ?_, ?_⟩, ?_⟩
  · refine hQ.slots.edit (SameTasks.refl _) rfl rfl hid hstate fun hi => ?_
    rw [hprio]
    exact hQ.slots.prio_le i hi
  · exact hQ.links.congr (fun _ _ => rfl) (fun _ _ => rfl) fun _ _ j _ => by rw [hlinks]
  · exact hQ.members.sub (fun _ _ _ h => h) (fun j => (hempty j).mp) hprios
  · unfold Closed ClosedAt
    rw [hlinks]
    rfl

/-- Clearing and appending a created slot of priority `p`. -/
theorem Queues.requeue (hQ : Queues s L) {i : Nat} {f : Task → Task} (hi : Created s i)
    (hnext : (f (s.tasks i)).next = 0)
    (hprio : (f (s.tasks i)).priority = (s.tasks i).priority)
    (hid : (f (s.tasks i)).id = (s.tasks i).id)
    (hstate : (f (s.tasks i)).state ≠ .empty) :
    Queues (enqueue (s.setTask i f) (s.tasks i).priority i)
      (Function.update L (s.tasks i).priority (requeued (L (s.tasks i).priority) i)) := by
  have hp := hQ.slots.prio_le i hi.1
  have honly := hQ.members.only i
  have hsame := sameTasks_enqueue (s.setTask i f) (s.tasks i).priority i
  refine ⟨?_, hQ.links.requeue hp hi.1.ne_zero honly hnext,
    hQ.members.requeue hi.1 hstate hprio honly⟩
  refine hQ.slots.edit hsame ?_ ?_ hid (iff_of_false hstate hi.2) fun _ => hprio ▸ hp
  · rw [enqueue_counter, setTask_counter]
  · rw [enqueue_current, setTask_current]

theorem Queues.requeue_closed (hQ : Queues s L) (hc : Closed s) {i : Nat} {f : Task → Task}
    (hi : Created s i) (hnext : (f (s.tasks i)).next = 0) :
    Closed (enqueue (s.setTask i f) (s.tasks i).priority i) ↔
      s.readyQueueTail (s.tasks i).priority ≠ i :=
  hQ.links.requeue_closed hc (hQ.slots.prio_le i hi.1) hi.1.ne_zero (hQ.members.only i) hnext

/-- Dispatching from a non-empty queue. -/
theorem Queues.dispatch (hQ : Queues s L) (hc : Closed s) {p : Nat}
    (hp : p ≤ TASK_PRIORITY_MAX) (hne : s.readyQueueHead p ≠ 0) :
    ∃ l, L p = s.readyQueueHead p :: l ∧
      Queues (dispatch s p) (Function.update L p l) ∧ Closed (dispatch s p) := by
  obtain ⟨l, hl, hL', hc'⟩ := hQ.links.dispatch hc hp hne
  refine ⟨l, hl, ⟨?_, hL', ?_⟩, hc'⟩
  · refine hQ.slots.of_sameTasks (sameTasks_dispatch s p) (dispatch_counter s p) (.inr ?_)
    rw [dispatch_current]
    exact hQ.links.head_created hQ.members hc hp hne
  · refine hQ.members.sub (fun q hq i hi => ?_) (fun i h => ?_) fun i => ?_
    · by_cases hqp : q = p
      · subst hqp
        rw [Function.update_self] at hi
        rw [hl]
        exact List.mem_cons_of_mem _ hi
      · rwa [Function.update_of_ne hqp] at hi
    · rwa [dispatch_tasks] at h
    · rw [dispatch_tasks]

/-- The task `task_create_priority` puts into `slot`. -/
def fresh (s : State) (slot entry priority : Nat) (t : Task) : Task :=
  { t with id := s.taskCounter, state := .ready, entry := entry,
           stackTop := initialStackTop s slot, next := 0, wakeTime := 0, priority := priority }

/-- Without an entry function or an empty slot nothing happens; otherwise the first
empty slot is filled and appended to its queue. -/
theorem taskCreatePriority_cases (s : State) (entry priority : Nat) :
    ((entry = 0 ∨ firstSlot (fun i => (s.tasks i).state == .empty) = none) ∧
        taskCreatePriority s entry priority = (0, s)) ∨
      ∃ slot, entry ≠ 0 ∧ firstSlot (fun i => (s.tasks i).state == .empty) = some slot ∧
        taskCreatePriority s entry priority = (s.taskCounter,
          enqueue (State.setTask { s with taskCounter := s.taskCounter + 1 } slot
            (fresh s slot entry (clampPriority priority))) (clampPriority priority) slot) := by
  unfold taskCreatePriority
  by_cases hentry : entry = 0
  · exact .inl ⟨.inl hentry, if_pos hentry⟩
  · rw [if_neg hentry]
    rcases hslot : firstSlot fun i => (s.tasks i).state == .empty with _ | slot
    · exact .inl ⟨.inr rfl, rfl⟩
    · exact .inr ⟨slot, hentry, rfl, rfl⟩

theorem taskCreatePriority_eq {entry priority slot : Nat} (hentry : entry ≠ 0)
    (hslot : firstSlot (fun i => (s.tasks i).state == .empty) = some slot) :
    (taskCreatePriority s entry priority).2 =
      enqueue (State.setTask { s with taskCounter := s.taskCounter + 1 } slot
        (fresh s slot entry (clampPriority priority))) (clampPriority priority) slot := by
  rcases taskCreatePriority_cases s entry priority with ⟨hnull | hnone, -⟩ | ⟨k, -, hk, heq⟩
  · exact absurd hnull hentry
  · exact absurd (hnone.symm.trans hslot) (by simp)
  · obtain rfl := Option.some.inj (hk.symm.trans hslot)
    rw [heq]

/-- A new task is appended to the queue of its priority. -/
theorem Queues.create (hQ : Queues s L) (hc : Closed s) (priority : Nat) {entry slot : Nat}
    (hentry : entry ≠ 0)
    (hslot : firstSlot (fun i => (s.tasks i).state == .empty) = some slot) :
    slot ∉ L (clampPriority priority) ∧
      Queues (taskCreatePriority s entry priority).2 (Function.update L (clampPriority priority)
        (requeued (L (clampPriority priority)) slot)) ∧
      Closed (taskCreatePriority s entry priority).2 := by
  obtain ⟨hS, hL, hm⟩ := hQ
  obtain ⟨hsl, hempty⟩ := firstSlot_empty hslot
  have hp := clampPriority_le priority
  -- the new slot was empty, so it is on no queue
  have hno : ∀ q ≤ TASK_PRIORITY_MAX, slot ∉ L q := fun q hq hi =>
    (hm q hq slot hi).1.2 hempty
  have honly : ∀ q ≤ TASK_PRIORITY_MAX, slot ∈ L q → q = clampPriority priority :=
    fun q hq hi => absurd hi (hno q hq)
  -- so it is no tail either, and the append cannot close a loop
  have htail : s.readyQueueTail (clampPriority priority) ≠ slot := by
    intro ht
    have hmem := (hL.queue _ hp).tail_mem (ht ▸ hsl.ne_zero)
    exact hno _ hp (ht ▸ hmem)
  rw [taskCreatePriority_eq hentry hslot]
  set s₁ : State := { s with taskCounter := s.taskCounter + 1 } with hs₁
  have hL₁ : Links s₁ L := hL.congr (fun _ _ => rfl) (fun _ _ => rfl) fun _ _ _ _ => rfl
  have hm₁ : Members s₁ L := hm
  refine ⟨hno _ hp, ⟨?_, hL₁.requeue hp hsl.ne_zero honly rfl,
    hm₁.requeue hsl (by simp [fresh]) rfl honly⟩,
    (hL₁.requeue_closed hc hp hsl.ne_zero honly rfl).mpr htail⟩
  refine hS.create hsl (hS.first_empty hslot) hempty (sameTasks_enqueue _ _ _) ?_ ?_ rfl
    (by simp [fresh]) hp
  · rw [enqueue_counter, setTask_counter]
  · rw [enqueue_current, setTask_current]

/-- `task_create_priority` always keeps the queues well formed. -/
theorem taskCreatePriority_chainInv (h : ChainInv s) (entry priority : Nat) :
    ChainInv (taskCreatePriority s entry priority).2 := by
  rcases taskCreatePriority_cases s entry priority with ⟨-, heq⟩ | ⟨slot, hentry, hslot, -⟩
  · rw [heq]
    exact h
  · obtain ⟨L, hQ, hc⟩ := h
    exact ⟨_, (hQ.create hc priority hentry hslot).2⟩

theorem highestPrio_eq_some {p : Nat} (h : highestPrio s = some p) :
    p ≤ TASK_PRIORITY_MAX ∧ s.readyQueueHead p ≠ 0 := by
  have hmem := List.mem_of_find?_eq_some h
  rw [List.mem_reverse, List.mem_range] at hmem
  have hne := List.find?_some h
  exact ⟨by omega, by simpa using hne⟩

theorem schedStart_eq {p : Nat} (hp : highestPrio s = some p) :
    schedStart s = (dispatch { s with schedulerRunning := true } p).setTask (s.readyQueueHead p)
      fun t => { t with state := .running } := by
  simp [schedStart, hp]

/-- `sched_start` takes the head of the highest non-empty queue off. -/
theorem Queues.start (hQ : Queues s L) (hc : Closed s) {p : Nat} (hp : highestPrio s = some p) :
    ∃ l, L p = s.readyQueueHead p :: l ∧
      Queues (schedStart s) (Function.update L p l) ∧ Closed (schedStart s) := by
  obtain ⟨hple, hne⟩ := highestPrio_eq_some hp
  have hQ₁ : Queues { s with schedulerRunning := true } L :=
    ⟨hQ.slots.of_sameTasks (SameTasks.refl s) rfl hQ.slots.current,
      hQ.links.congr (fun _ _ => rfl) (fun _ _ => rfl) fun _ _ _ _ => rfl, hQ.members⟩
  have hc₁ : Closed { s with schedulerRunning := true } := hc
  obtain ⟨l, hl, hQ₂, hc₂⟩ := hQ₁.dispatch hc₁ hple hne
  have hcr := hQ₁.links.head_created hQ₁.members hc₁ hple hne
  have hQ₃ := hQ₂.setTask (i := s.readyQueueHead p)
    (f := fun t => { t with state := .running }) rfl rfl rfl
    (by simpa using hcr.2)
  rw [schedStart_eq hp]
  exact ⟨l, hl, hQ₃.1, hQ₃.2.mpr hc₂⟩

/-- `sched_start` always keeps the queues well formed. -/
theorem schedStart_chainInv (h : ChainInv s) : ChainInv (schedStart s) := by
  rcases hp : highestPrio s with _ | p
  · have heq : schedStart s = s := by simp [schedStart, hp]
    rw [heq]
    exact h
  · obtain ⟨L, hQ, hc⟩ := h
    obtain ⟨l, -, hQ', hc'⟩ := hQ.start hc hp
    exact ⟨_, hQ', hc'⟩

/-- A `task_sleep` that does nothing. -/
theorem taskSleep_eq_self {ms rsp : Nat}
    (h : ¬ (s.schedulerRunning = true ∧ s.currentTask ≠ 0)) : taskSleep s ms rsp = s := by
  unfold taskSleep
  rw [if_pos]
  by_contra hrun
  push Not at hrun
  exact h ⟨by simpa using hrun.1, hrun.2⟩

/-- The edit `task_sleep` makes to the task that goes to sleep. -/
def asleep (ms : Nat) (t : Task) : Task := { t with state := .blocked, wakeTime := ms }

/-- With nobody to switch to, the sleeper stays current. -/
theorem taskSleep_eq_of_empty (hrun : s.schedulerRunning = true) (hc0 : s.currentTask ≠ 0)
    (hhead : s.readyQueueHead (s.tasks s.currentTask).priority = 0) (ms rsp : Nat) :
    taskSleep s ms rsp = s.setTask s.currentTask (asleep ms) := by
  unfold taskSleep
  rw [if_neg (by simp [hrun, hc0])]
  dsimp only
  rw [setTask_tasks, Function.update_self, setTask_head, if_pos hhead]
  rfl

theorem taskSleep_eq_of_switch (hrun : s.schedulerRunning = true) (hc0 : s.currentTask ≠ 0)
    (hhead : s.readyQueueHead (s.tasks s.currentTask).priority ≠ 0) (ms rsp : Nat) :
    taskSleep s ms rsp = (dispatch (s.setTask s.currentTask (asleep ms))
      (s.tasks s.currentTask).priority).setTask s.currentTask
        fun t => { t with stackTop := rsp } := by
  unfold taskSleep
  rw [if_neg (by simp [hrun, hc0])]
  dsimp only
  rw [setTask_tasks, Function.update_self, setTask_head, if_neg hhead]
  rfl

/-- What a switching `task_sleep` does to the fields other than links. -/
theorem taskSleep_fields (hrun : s.schedulerRunning = true) (hc0 : s.currentTask ≠ 0)
    (hhead : s.readyQueueHead (s.tasks s.currentTask).priority ≠ 0) (ms rsp : Nat) :
    (taskSleep s ms rsp).currentTask = s.readyQueueHead (s.tasks s.currentTask).priority ∧
      (taskSleep s ms rsp).readyQueueHead =
        Function.update s.readyQueueHead (s.tasks s.currentTask).priority
          (s.next (s.readyQueueHead (s.tasks s.currentTask).priority)) ∧
      ∀ i, ((taskSleep s ms rsp).tasks i).priority = (s.tasks i).priority ∧
        ((taskSleep s ms rsp).tasks i).state =
          if i = s.currentTask then .blocked else (s.tasks i).state := by
  have hnext : (s.setTask s.currentTask (asleep ms)).next = s.next := by
    rw [setTask_next]
    exact Function.update_eq_self _ _
  rw [taskSleep_eq_of_switch hrun hc0 hhead ms rsp]
  refine ⟨by simp, ?_, fun i => ?_⟩
  · rw [setTask_head, dispatch_head, hnext]
    rfl
  · by_cases hi : i = s.currentTask
    · subst hi
      simp [asleep]
    · simp [hi]

/-- Going to sleep changes no queue. -/
theorem Queues.asleep (hQ : Queues s L) (hc : Closed s) (hc0 : s.currentTask ≠ 0) (ms : Nat) :
    Queues (s.setTask s.currentTask (asleep ms)) L ∧
      Closed (s.setTask s.currentTask (Sched.asleep ms)) := by
  have hcur := hQ.slots.current_created hc0
  obtain ⟨hQ₁, hc₁⟩ := hQ.setTask (i := s.currentTask) (f := Sched.asleep ms) rfl rfl rfl
    (by simpa [Sched.asleep] using hcur.2)
  exact ⟨hQ₁, hc₁.mpr hc⟩

/-- A `task_sleep` that switches takes the head off. -/
theorem Queues.sleep (hQ : Queues s L) (hc : Closed s) (hrun : s.schedulerRunning = true)
    (hc0 : s.currentTask ≠ 0)
    (hhead : s.readyQueueHead (s.tasks s.currentTask).priority ≠ 0) (ms rsp : Nat) :
    ∃ l, L (s.tasks s.currentTask).priority =
        s.readyQueueHead (s.tasks s.currentTask).priority :: l ∧
      Queues (taskSleep s ms rsp) (Function.update L (s.tasks s.currentTask).priority l) ∧
      Closed (taskSleep s ms rsp) := by
  have hp := hQ.slots.prio_le _ (hQ.slots.current_created hc0).1
  obtain ⟨hQ₁, hc₁⟩ := hQ.asleep hc hc0 ms
  obtain ⟨l, hl, hQ₂, hc₂⟩ := hQ₁.dispatch hc₁ hp hhead
  obtain ⟨hQ₃, hc₃⟩ := hQ₂.setTask (i := s.currentTask) (f := fun t => { t with stackTop := rsp })
    rfl rfl rfl Iff.rfl
  rw [taskSleep_eq_of_switch hrun hc0 hhead ms rsp]
  exact ⟨l, hl, hQ₃, hc₃.mpr hc₂⟩

/-- `task_sleep` always keeps the queues well formed. -/
theorem taskSleep_chainInv (h : ChainInv s) (ms rsp : Nat) : ChainInv (taskSleep s ms rsp) := by
  have hinv := h
  obtain ⟨L, hQ, hc⟩ := h
  by_cases hsw : s.schedulerRunning = true ∧ s.currentTask ≠ 0
  · obtain ⟨hrun, hc0⟩ := hsw
    by_cases hhead : s.readyQueueHead (s.tasks s.currentTask).priority = 0
    · rw [taskSleep_eq_of_empty hrun hc0 hhead ms rsp]
      exact ⟨L, hQ.asleep hc hc0 ms⟩
    · obtain ⟨l, -, hQ', hc'⟩ := hQ.sleep hc hrun hc0 hhead ms rsp
      exact ⟨_, hQ', hc'⟩
  · rw [taskSleep_eq_self hsw]
    exact hinv

/-- `task_wake` breaks the queues exactly when the woken task is already the
last of its queue. -/
theorem taskWake_exact (h : ChainInv s) (id : Nat) :
    Exact (taskWake s id) (KeepsChains s (.taskWake id)) := by
  have hinv := h
  obtain ⟨L, hQ, hc⟩ := h
  unfold taskWake KeepsChains
  rcases hfind : firstSlot
    (fun i => (s.tasks i).id == id && (s.tasks i).state == .blocked) with _ | i
  · refine hinv.exact fun i hi => ?_
    rw [hfind] at hi
    simp at hi
  · obtain ⟨hsl, hi⟩ := firstSlot_eq_some hfind
    have hblocked : (s.tasks i).state = .blocked := by
      rw [Bool.and_eq_true] at hi
      simpa using hi.2
    have hcr : Created s i := ⟨hsl, by simp [hblocked]⟩
    dsimp only
    -- `task_wake` reads the priority after the edit, which leaves it alone
    have hprio : ((s.setTask i fun t => { t with state := .ready, wakeTime := 0, next := 0 }).tasks
        i).priority = (s.tasks i).priority := by simp
    rw [hprio]
    refine (hQ.requeue hcr rfl rfl rfl (by simp)).exact ?_
    rw [hQ.requeue_closed hc hcr rfl, hfind]
    simp

/-- The tail a dispatch leaves behind is slot `c` exactly when `c` was the tail
and not also the head. -/
theorem dispatch_tail_eq_iff (hQ : Queues s L) (hc : Closed s) {p c : Nat}
    (hp : p ≤ TASK_PRIORITY_MAX) (hne : s.readyQueueHead p ≠ 0) (hc0 : c ≠ 0) :
    (dispatch s p).readyQueueTail p = c ↔
      s.readyQueueHead p ≠ c ∧ s.readyQueueTail p = c := by
  obtain ⟨l, hl, hrest⟩ := (hQ.links.linked hp (hc p hp)).dropHead hne
  have hqueue := hQ.links.queue p hp
  rw [hl] at hqueue
  have hsingle : s.readyQueueTail p = s.readyQueueHead p ↔ l = [] := hqueue.tail_eq_iff []
  have h0 : s.next (s.readyQueueHead p) = 0 ↔ l = [] := hrest.head_eq_nil_iff
  rw [dispatch_tail]
  by_cases hl0 : l = []
  · -- a single slot: head and tail are the same, and the queue is emptied
    have hsame := hsingle.mpr hl0
    rw [if_pos (h0.mpr hl0), Function.update_self]
    refine iff_of_false hc0.symm ?_
    rintro ⟨hhead, htail⟩
    exact hhead (hsame.symm.trans htail)
  · -- two slots or more: the tail stays, and it is not the head
    have htwo : s.readyQueueTail p ≠ s.readyQueueHead p := fun h => hl0 (hsingle.mp h)
    rw [if_neg fun h => hl0 (h0.mp h)]
    constructor
    · intro htail
      exact ⟨fun hhead => htwo (htail.trans hhead.symm), htail⟩
    · exact fun h => h.2

/-- A `task_yield` that does nothing. -/
theorem taskYield_eq_self {rsp : Nat}
    (h : ¬ (s.schedulerRunning = true ∧ s.currentTask ≠ 0 ∧
      s.readyQueueHead (s.tasks s.currentTask).priority ≠ 0)) : taskYield s rsp = s := by
  unfold taskYield
  split
  · rfl
  · rename_i hrun
    push Not at hrun
    dsimp only
    rw [if_pos]
    by_contra hhead
    exact h ⟨by simpa using hrun.1, hrun.2, hhead⟩

/-- The edit `task_yield` makes to a RUNNING task. -/
def readied (t : Task) : Task := { t with state := .ready, next := 0 }

section Yield

variable (hQ : Queues s L) (hc : Closed s) (hrun : s.schedulerRunning = true)
  (hc0 : s.currentTask ≠ 0) (hhead : s.readyQueueHead (s.tasks s.currentTask).priority ≠ 0)
  (rsp : Nat)

include hrun hc0 hhead

theorem taskYield_eq_of_running (hst : (s.tasks s.currentTask).state = .running) :
    taskYield s rsp =
      (enqueue ((dispatch s (s.tasks s.currentTask).priority).setTask s.currentTask readied)
        (s.tasks s.currentTask).priority s.currentTask).setTask s.currentTask
          fun t => { t with stackTop := rsp } := by
  unfold taskYield
  rw [if_neg (by simp [hrun, hc0])]
  dsimp only
  rw [if_neg hhead, dispatch_tasks, if_pos hst]
  rfl

theorem taskYield_eq_of_not_running (hst : (s.tasks s.currentTask).state ≠ .running) :
    taskYield s rsp = (dispatch s (s.tasks s.currentTask).priority).setTask s.currentTask
      fun t => { t with stackTop := rsp } := by
  unfold taskYield
  rw [if_neg (by simp [hrun, hc0])]
  dsimp only
  rw [if_neg hhead, dispatch_tasks, if_neg hst]

/-- What a switching `task_yield` does to the fields other than links and
queues: a RUNNING task becomes READY. -/
theorem taskYield_fields :
    (taskYield s rsp).currentTask = s.readyQueueHead (s.tasks s.currentTask).priority ∧
      ∀ i, ((taskYield s rsp).tasks i).priority = (s.tasks i).priority ∧
        ((taskYield s rsp).tasks i).state =
          if i = s.currentTask ∧ (s.tasks s.currentTask).state = .running then .ready
          else (s.tasks i).state := by
  by_cases hst : (s.tasks s.currentTask).state = .running
  · rw [taskYield_eq_of_running hrun hc0 hhead rsp hst]
    refine ⟨by simp, fun i => ?_⟩
    by_cases hi : i = s.currentTask
    · subst hi
      simp [readied, hst, (sameTasks_enqueue _ _ _).state, (sameTasks_enqueue _ _ _).priority]
    · simp [hi, (sameTasks_enqueue _ _ _).state, (sameTasks_enqueue _ _ _).priority]
  · rw [taskYield_eq_of_not_running hrun hc0 hhead rsp hst]
    refine ⟨by simp, fun i => ?_⟩
    by_cases hi : i = s.currentTask
    · subst hi
      simp [hst]
    · simp [hi]

/-- The queue heads after it: the old task is the new head if it was put back on
a queue that had become empty. -/
theorem taskYield_head :
    (taskYield s rsp).readyQueueHead =
      Function.update s.readyQueueHead (s.tasks s.currentTask).priority
        (if s.next (s.readyQueueHead (s.tasks s.currentTask).priority) = 0 ∧
            (s.tasks s.currentTask).state = .running then s.currentTask
          else s.next (s.readyQueueHead (s.tasks s.currentTask).priority)) := by
  by_cases hst : (s.tasks s.currentTask).state = .running
  · rw [taskYield_eq_of_running hrun hc0 hhead rsp hst]
    simp only [setTask_head, enqueue_head, dispatch_head, Function.update_self,
      Function.update_idem, hst, and_true]
  · rw [taskYield_eq_of_not_running hrun hc0 hhead rsp hst]
    simp only [setTask_head, dispatch_head, hst, and_false, if_false]

include hQ hc

/-- A RUNNING task that yields goes back on its queue, behind the others. -/
theorem Queues.yield_running (hst : (s.tasks s.currentTask).state = .running) :
    ∃ l, L (s.tasks s.currentTask).priority =
        s.readyQueueHead (s.tasks s.currentTask).priority :: l ∧
      Queues (taskYield s rsp) (Function.update L (s.tasks s.currentTask).priority
        (requeued l s.currentTask)) ∧
      (Closed (taskYield s rsp) ↔
        ¬ (s.readyQueueHead (s.tasks s.currentTask).priority ≠ s.currentTask ∧
          s.readyQueueTail (s.tasks s.currentTask).priority = s.currentTask)) := by
  have hcur := hQ.slots.current_created hc0
  have hp := hQ.slots.prio_le _ hcur.1
  obtain ⟨l, hl, hQ₁, hc₁⟩ := hQ.dispatch hc hp hhead
  have htasks := dispatch_tasks s (s.tasks s.currentTask).priority
  have hcur₁ : Created (Sched.dispatch s (s.tasks s.currentTask).priority) s.currentTask := by
    unfold Created
    rw [htasks]
    exact hcur
  have hQ₂ := hQ₁.requeue (f := readied) hcur₁ rfl rfl rfl (by simp [readied])
  have hc₂ := hQ₁.requeue_closed (f := readied) hc₁ hcur₁ rfl
  rw [htasks, Function.update_self, Function.update_idem] at hQ₂
  rw [htasks] at hc₂
  obtain ⟨hQ₃, hc₃⟩ := hQ₂.setTask (i := s.currentTask) (f := fun t => { t with stackTop := rsp })
    rfl rfl rfl Iff.rfl
  rw [taskYield_eq_of_running hrun hc0 hhead rsp hst]
  refine ⟨l, hl, hQ₃, ?_⟩
  rw [hc₃, hc₂, ne_eq, dispatch_tail_eq_iff hQ hc hp hhead hc0]

/-- Any other task that yields is not put back. -/
theorem Queues.yield_not_running (hst : (s.tasks s.currentTask).state ≠ .running) :
    ∃ l, L (s.tasks s.currentTask).priority =
        s.readyQueueHead (s.tasks s.currentTask).priority :: l ∧
      Queues (taskYield s rsp) (Function.update L (s.tasks s.currentTask).priority l) ∧
      Closed (taskYield s rsp) := by
  have hp := hQ.slots.prio_le _ (hQ.slots.current_created hc0).1
  obtain ⟨l, hl, hQ₁, hc₁⟩ := hQ.dispatch hc hp hhead
  obtain ⟨hQ₃, hc₃⟩ := hQ₁.setTask (i := s.currentTask) (f := fun t => { t with stackTop := rsp })
    rfl rfl rfl Iff.rfl
  rw [taskYield_eq_of_not_running hrun hc0 hhead rsp hst]
  exact ⟨l, hl, hQ₃, hc₃.mpr hc₁⟩

end Yield

/-- `task_yield` breaks the queues exactly when the running task is already the
last, and not the first, of its own queue. -/
theorem taskYield_exact (h : ChainInv s) (rsp : Nat) :
    Exact (taskYield s rsp) (KeepsChains s (.taskYield rsp)) := by
  have hinv := h
  obtain ⟨L, hQ, hc⟩ := h
  by_cases hsw : s.schedulerRunning = true ∧ s.currentTask ≠ 0 ∧
      s.readyQueueHead (s.tasks s.currentTask).priority ≠ 0
  · obtain ⟨hrun, hc0, hhead⟩ := hsw
    -- only a RUNNING task is put back on its queue
    by_cases hst : (s.tasks s.currentTask).state = .running
    · obtain ⟨l, -, hQ', hc'⟩ := hQ.yield_running hc hrun hc0 hhead rsp hst
      refine hQ'.exact ?_
      rw [hc']
      simp [KeepsChains, hrun, hc0, hst]
    · obtain ⟨l, -, hQ', hc'⟩ := hQ.yield_not_running hc hrun hc0 hhead rsp hst
      exact ChainInv.exact ⟨_, hQ', hc'⟩ (by simp [KeepsChains, hst])
  · rw [taskYield_eq_self hsw]
    refine hinv.exact ?_
    rintro ⟨hrun, hc0, -, -, htail⟩
    -- nothing to switch to: an empty queue has no tail
    have hp := hQ.slots.prio_le _ (hQ.slots.current_created hc0).1
    have hempty : s.readyQueueHead (s.tasks s.currentTask).priority = 0 := by
      by_contra hne
      exact hsw ⟨hrun, hc0, hne⟩
    have htail0 : s.readyQueueTail (s.tasks s.currentTask).priority = 0 := by
      rw [(hQ.links.queue _ hp).tail_eq_nil_iff, ← (hQ.links.queue _ hp).head_eq_nil_iff]
      exact hempty
    exact hc0 (htail.symm.trans htail0)

/-! ### `task_set_priority` -/

/-- The edit `task_set_priority` makes to the task it moves. -/
def moved (priority : Nat) (t : Task) : Task := { t with priority := priority, next := 0 }

theorem enqueue_setNext {p i n : Nat} (h : s.readyQueueTail p ≠ i) :
    (enqueue s p i).setNext i n = enqueue (s.setNext i n) p i := by
  unfold enqueue
  rw [setNext_head, setNext_tail]
  split
  · rfl
  · simp only [State.setNext, State.setTask, State.setTail]
    rw [Function.update_of_ne (Ne.symm h), Function.update_of_ne h, Function.update_comm h]

/-- A priority change is a removal followed by clearing and appending. -/
theorem taskSetPriority_eq {id priority i : Nat}
    (hfind : firstSlot (fun i => (s.tasks i).id == id) = some i)
    (hne : (s.tasks i).priority ≠ clampPriority priority)
    (htail : s.readyQueueTail (clampPriority priority) ≠ i) :
    taskSetPriority s id priority =
      enqueue ((unlink s (s.tasks i).priority i).setTask i (moved (clampPriority priority)))
        (clampPriority priority) i := by
  unfold taskSetPriority
  rw [hfind]
  dsimp only
  rw [if_neg hne, enqueue_setNext]
  · simp [State.setNext, State.setTask, moved]
  · rw [setTask_tail, unlink_tail_of_ne _ _ _ (Ne.symm hne)]
    exact htail

/-- Moving a created slot that is on no queue to queue `p`. -/
theorem Queues.move (hQ : Queues s L) (hc : Closed s) {p i : Nat}
    (hp : p ≤ TASK_PRIORITY_MAX) (hi : Created s i)
    (hno : ∀ q ≤ TASK_PRIORITY_MAX, i ∉ L q) :
    Queues (enqueue (s.setTask i (moved p)) p i) (Function.update L p (requeued (L p) i)) ∧
      Closed (enqueue (s.setTask i (moved p)) p i) := by
  have honly : ∀ q ≤ TASK_PRIORITY_MAX, i ∈ L q → q = p := fun q hq h => absurd h (hno q hq)
  have hsame := sameTasks_enqueue (s.setTask i (moved p)) p i
  have htail : s.readyQueueTail p ≠ i := by
    intro ht
    have hmem := (hQ.links.queue p hp).tail_mem (ht ▸ hi.1.ne_zero)
    exact hno p hp (ht ▸ hmem)
  refine ⟨⟨?_, hQ.links.requeue hp hi.1.ne_zero honly rfl,
    hQ.members.requeue hi.1 hi.2 rfl honly⟩,
    (hQ.links.requeue_closed hc hp hi.1.ne_zero honly rfl).mpr htail⟩
  refine hQ.slots.edit hsame ?_ ?_ rfl Iff.rfl fun _ => hp
  · rw [enqueue_counter, setTask_counter]
  · rw [enqueue_current, setTask_current]

/-- The removal leaves the table facts and the members alone. -/
theorem Queues.unlink (hQ : Queues s L) {L' : Nat → List Nat} {p i : Nat}
    (hL' : Links (unlink s p i) L')
    (hsub : ∀ q ≤ TASK_PRIORITY_MAX, ∀ j ∈ L' q, j ∈ L q) : Queues (unlink s p i) L' := by
  have hsame := sameTasks_unlink s p i
  refine ⟨hQ.slots.of_sameTasks hsame (unlink_counter s p i) ?_, hL', ?_⟩
  · rw [unlink_current]
    exact hQ.slots.current
  · exact hQ.members.sub hsub (fun j h => by rwa [hsame.state] at h) fun j => hsame.priority j

/-- Moving an empty slot puts it on a queue. -/
theorem inQueue_of_move_empty (hQ : Queues s L) (hc : Closed s) {p q i : Nat}
    (hq : q ≤ TASK_PRIORITY_MAX) (hp : p ≤ TASK_PRIORITY_MAX) (hi : Slot i)
    (hempty : (s.tasks i).state = .empty) :
    InQueue (enqueue ((Sched.unlink s q i).setTask i (moved p)) p i) p i := by
  have hno : ∀ r ≤ TASK_PRIORITY_MAX, i ∉ L r := fun r hr h => (hQ.members r hr i h).1.2 hempty
  obtain ⟨hL₁, -⟩ := hQ.links.unlink_unqueued hc hq hi.ne_zero hno
  have hL₂ := hL₁.requeue (f := moved p) hp hi.ne_zero
    (fun r hr h => absurd h (hno r hr)) rfl
  exact (hL₂.queue p hp).reaches (by simp [requeued])

/-- If the scan stops at a slot that is on no queue, the moved slot stays on
its old queue. -/
theorem inQueue_of_stale_scan (hQ : Queues s L) (hc : Closed s) {p q i j : Nat}
    (hq : q ≤ TASK_PRIORITY_MAX) (hp : p ≤ TASK_PRIORITY_MAX) (hqp : q ≠ p) (hi : i ∈ L q)
    (hhead : s.readyQueueHead q ≠ i)
    (hj : firstSlot (fun j => (s.tasks j).next == i) = some j)
    (hstale : ∀ r ≤ TASK_PRIORITY_MAX, j ∉ L r) :
    InQueue (enqueue ((Sched.unlink s q i).setTask i (moved p)) p i) q i := by
  have hi0 := hQ.links.ne_zero hq hi
  obtain ⟨hnext, hheads⟩ := unlink_scan s q i hhead hj
  have htail := unlink_tail_of_ne s q i (Ne.symm hqp)
  -- the old chain up to and including `i` is still there
  obtain ⟨l₁, l₂, hsplit⟩ := List.append_of_mem hi
  have hlink := hQ.links.linked hq (hc q hq)
  have hnd := hlink.nodup
  rw [hsplit] at hlink hnd
  -- the slots before `i` are neither `i`, nor the slot found, nor a tail of
  -- queue `p`: none of their links is written
  have hne : ∀ a ∈ l₁, a ∈ L q ∧ a ≠ i := by
    intro a ha
    refine ⟨by simp [hsplit, ha], fun h => ?_⟩
    exact (List.nodup_append.mp hnd).2.2 a ha i (by simp) h
  have hkept : Linked 0 (enqueue ((Sched.unlink s q i).setTask i (moved p)) p i).next
      (s.readyQueueHead q) (l₁ ++ [i]) := by
    refine seg_middle_iff.mpr ⟨(seg_middle_iff.mp hlink).1.congr fun a ha => ?_, hi0, ?_⟩
    · obtain ⟨haq, hai⟩ := hne a ha
      have hat : a ≠ s.readyQueueTail p := hQ.links.ne_tail hp hq hqp haq
      have haj : a ≠ j := fun h => hstale q hq (h ▸ haq)
      rw [requeue_next rfl, htail, if_neg fun h => hat h.2, if_neg hai, hnext,
        Function.update_of_ne haj]
    · have hit : i ≠ s.readyQueueTail p := hQ.links.ne_tail hp hq hqp hi
      rw [requeue_next rfl, htail, if_neg fun h => hit h.2, if_pos rfl]
      exact .stop
  unfold InQueue
  rw [enqueue_head, Function.update_of_ne hqp, setTask_head, hheads]
  exact hkept.reaches_iff.mpr (by simp)

/-- On well-formed queues a slot is only ever found on its own queue. -/
theorem WellFormedQueues.member (hw : WellFormedQueues s) {p i : Nat}
    (hp : p ≤ TASK_PRIORITY_MAX) (hi : InQueue s p i) :
    Created s i ∧ (s.tasks i).priority = p := by
  obtain ⟨l, hl, -, hmem, -⟩ := hw.chain p hp
  exact hmem i (hl.reaches_iff.mp hi)

/-- The moved task's fields after the move. -/
theorem move_fields (p q i : Nat) :
    ((enqueue ((Sched.unlink s q i).setTask i (moved p)) p i).tasks i).state =
        (s.tasks i).state ∧
      ((enqueue ((Sched.unlink s q i).setTask i (moved p)) p i).tasks i).priority = p := by
  rw [(sameTasks_enqueue _ _ _).state, (sameTasks_enqueue _ _ _).priority]
  simp [moved, (sameTasks_unlink s q i).state]

/-- The condition under which moving slot `i` to another queue is safe. -/
def Movable (s : State) (i : Nat) : Prop :=
  (s.tasks i).state ≠ .empty ∧
    (Queued s i → s.readyQueueHead (s.tasks i).priority = i ∨
      ∃ j, firstSlot (fun j => (s.tasks j).next == i) = some j ∧ Queued s j)

section SetPriority

variable {id priority i : Nat}

/-- A slot is not the last one of a queue of another priority. -/
theorem Queues.tail_ne (hQ : Queues s L) {p : Nat} (hp : p ≤ TASK_PRIORITY_MAX) (hi : Slot i)
    (hne : (s.tasks i).priority ≠ p) : s.readyQueueTail p ≠ i := by
  intro ht
  have hmem := (hQ.links.queue p hp).tail_mem (ht ▸ hi.ne_zero)
  exact hne (hQ.members p hp i (ht ▸ hmem)).2

theorem Queues.taskSetPriority_eq (hQ : Queues s L)
    (hfind : firstSlot (fun i => (s.tasks i).id == id) = some i)
    (hne : (s.tasks i).priority ≠ clampPriority priority) :
    taskSetPriority s id priority =
      enqueue ((Sched.unlink s (s.tasks i).priority i).setTask i (moved (clampPriority priority)))
        (clampPriority priority) i :=
  Sched.taskSetPriority_eq hfind hne
    (hQ.tail_ne (clampPriority_le priority) (firstSlot_eq_some hfind).1 hne)

/-- A safe priority change takes the slot off its queue, if it is on one, and
appends it to the new one; the other slots stay where they are. -/
theorem Queues.setPriority (hQ : Queues s L) (hc : Closed s)
    (hfind : firstSlot (fun i => (s.tasks i).id == id) = some i)
    (hne : (s.tasks i).priority ≠ clampPriority priority) (hgood : Movable s i) :
    ∃ L', Queues (taskSetPriority s id priority) L' ∧ Closed (taskSetPriority s id priority) ∧
      i ∈ L' (clampPriority priority) ∧
      ∀ q ≤ TASK_PRIORITY_MAX, ∀ j ∈ L q, j ≠ i → j ∈ L' q := by
  have hsl := (firstSlot_eq_some hfind).1
  have hp := hQ.slots.prio_le i hsl
  have hp' := clampPriority_le priority
  have hcr₁ := (Created.of_sameTasks (sameTasks_unlink s (s.tasks i).priority i)).mpr
    ⟨hsl, hgood.1⟩
  rw [hQ.taskSetPriority_eq hfind hne]
  -- whichever way the slot leaves its old queue, the lists `L₁` are `L` without it
  obtain ⟨L₁, hQ₁, hc₁, hgone, hkept⟩ : ∃ L₁,
      Queues (Sched.unlink s (s.tasks i).priority i) L₁ ∧
      Closed (Sched.unlink s (s.tasks i).priority i) ∧
      (∀ q ≤ TASK_PRIORITY_MAX, i ∉ L₁ q) ∧
      ∀ q ≤ TASK_PRIORITY_MAX, ∀ j ∈ L q, j ≠ i → j ∈ L₁ q := by
    -- a queued slot is on the queue of its own priority only
    by_cases hqd : Queued s i
    · obtain ⟨q, hq, hiq⟩ := (hQ.links.queued_iff hc).mp hqd
      obtain rfl := hQ.members.only i q hq hiq
      have hscan := hgood.2 hqd
      simp only [hQ.links.queued_iff hc] at hscan
      obtain ⟨hL₁, hc₁⟩ := hQ.links.unlink_queued hc hp hiq hscan
      have hmem : ∀ r j, j ∈ Function.update L (s.tasks i).priority
          ((L (s.tasks i).priority).erase i) r → j ∈ L r := by
        intro r j hj
        by_cases hrp : r = (s.tasks i).priority
        · subst hrp
          rw [Function.update_self] at hj
          exact List.mem_of_mem_erase hj
        · rwa [Function.update_of_ne hrp] at hj
      refine ⟨_, hQ.unlink hL₁ fun r _ j hj => hmem r j hj, hc₁, fun r hr hir => ?_,
        fun r hr j hj hji => ?_⟩
      · obtain rfl := hQ.members.only i r hr (hmem r i hir)
        rw [Function.update_self] at hir
        exact (hQ.links.queue _ hr).nodup.not_mem_erase hir
      · by_cases hrp : r = (s.tasks i).priority
        · subst hrp
          rw [Function.update_self]
          exact (List.mem_erase_of_ne hji).mpr hj
        · rwa [Function.update_of_ne hrp]
    · -- a task on no queue: current, blocked, or lost
      have hno : ∀ r ≤ TASK_PRIORITY_MAX, i ∉ L r := fun r hr h =>
        hqd ((hQ.links.queued_iff hc).mpr ⟨r, hr, h⟩)
      obtain ⟨hL₁, hc₁⟩ := hQ.links.unlink_unqueued hc hp hsl.ne_zero hno
      exact ⟨L, hQ.unlink hL₁ fun r _ j hj => hj, hc₁, hno, fun _ _ _ h _ => h⟩
  -- then it is appended to the new queue, which does not hold it
  obtain ⟨hQ₂, hc₂⟩ := hQ₁.move hc₁ hp' hcr₁ hgone
  refine ⟨_, hQ₂, hc₂, ?_, fun q hq j hj hji => ?_⟩
  · rw [Function.update_self]
    exact self_mem_requeued _ _
  · by_cases hqp : q = clampPriority priority
    · subst hqp
      rw [Function.update_self]
      exact mem_requeued_of_not_mem (hgone _ hq) (hkept _ hq j hj hji)
    · rw [Function.update_of_ne hqp]
      exact hkept q hq j hj hji

/-- An unsafe priority change leaves the slot on a queue it must not be on:
an empty slot on the new queue, or a slot on its old queue as well. -/
theorem Queues.setPriority_stray (hQ : Queues s L) (hc : Closed s)
    (hfind : firstSlot (fun i => (s.tasks i).id == id) = some i)
    (hne : (s.tasks i).priority ≠ clampPriority priority) (hbad : ¬ Movable s i) :
    ((s.tasks i).state = .empty ∧
        InQueue (taskSetPriority s id priority) (clampPriority priority) i) ∨
      (Queued s i ∧ (∃ j, firstSlot (fun j => (s.tasks j).next == i) = some j ∧ ¬ Queued s j) ∧
        InQueue (taskSetPriority s id priority) (s.tasks i).priority i) := by
  have hsl := (firstSlot_eq_some hfind).1
  have hp := hQ.slots.prio_le i hsl
  have hp' := clampPriority_le priority
  rw [hQ.taskSetPriority_eq hfind hne]
  by_cases hempty : (s.tasks i).state = .empty
  · exact .inl ⟨hempty, inQueue_of_move_empty hQ hc hp hp' hsl hempty⟩
  · unfold Movable at hbad
    push Not at hbad
    obtain ⟨hqd, hhead, hscan⟩ := hbad hempty
    obtain ⟨q, hq, hiq⟩ := (hQ.links.queued_iff hc).mp hqd
    obtain rfl := hQ.members.only i q hq hiq
    -- the predecessor exists, so the scan finds something
    obtain ⟨l₁, l₂, hsplit⟩ := List.append_of_mem hiq
    obtain ⟨j, hj⟩ : ∃ j, firstSlot (fun j => (s.tasks j).next == i) = some j := by
      have hlink := hQ.links.linked hp (hc _ hp)
      rw [hsplit] at hlink
      rcases List.eq_nil_or_concat l₁ with rfl | ⟨l', k, rfl⟩
      · exact absurd (seg_nil_iff.mp (seg_middle_iff.mp hlink).1) hhead
      · rw [List.concat_eq_append] at hlink hsplit
        have hk := (seg_middle_iff.mp (seg_middle_iff.mp hlink).1).2.2
        have hkcr := (hQ.members _ hp k (by simp [hsplit])).1
        exact firstSlot_isSome hkcr.1 (by simpa [State.next] using seg_nil_iff.mp hk)
    have hstale : ∀ r ≤ TASK_PRIORITY_MAX, j ∉ L r := fun r hr hjr =>
      hscan j hj ((hQ.links.queued_iff hc).mpr ⟨r, hr, hjr⟩)
    exact .inr ⟨hqd, ⟨j, hj, hscan j hj⟩,
      inQueue_of_stale_scan hQ hc hp hp' hne hiq hhead hj hstale⟩

end SetPriority

/-- `task_set_priority` breaks the queues exactly when it moves an empty slot
or its scan for the predecessor stops at a slot that is on no queue. -/
theorem taskSetPriority_exact (h : ChainInv s) (id priority : Nat) :
    Exact (taskSetPriority s id priority) (KeepsChains s (.taskSetPriority id priority)) := by
  have hinv := h
  obtain ⟨L, hQ, hc⟩ := h
  rcases hfind : firstSlot (fun i => (s.tasks i).id == id) with _ | i
  · have heq : taskSetPriority s id priority = s := by simp [taskSetPriority, hfind]
    rw [heq]
    refine hinv.exact fun i hi => ?_
    rw [hfind] at hi
    simp at hi
  have hcond : KeepsChains s (.taskSetPriority id priority) ↔
      ((s.tasks i).priority ≠ clampPriority priority → Movable s i) := by
    simp only [KeepsChains, hfind, Option.some.injEq, forall_eq', Movable]
  by_cases hsame : (s.tasks i).priority = clampPriority priority
  · have heq : taskSetPriority s id priority = s := by simp [taskSetPriority, hfind, hsame]
    rw [heq]
    exact hinv.exact (hcond.mpr fun hne => absurd hsame hne)
  by_cases hgood : Movable s i
  · obtain ⟨L', hQ', hc', -⟩ := hQ.setPriority hc hfind hsame hgood
    exact ChainInv.exact ⟨L', hQ', hc'⟩ (hcond.mpr fun _ => hgood)
  · have hbad : ¬ WellFormedQueues (taskSetPriority s id priority) := by
      intro hw
      have hp := hQ.slots.prio_le i (firstSlot_eq_some hfind).1
      -- the stray slot is empty, or on a queue of another priority than its own
      have hfields := move_fields (s := s) (clampPriority priority) (s.tasks i).priority i
      rw [← hQ.taskSetPriority_eq hfind hsame] at hfields
      rcases hQ.setPriority_stray hc hfind hsame hgood with ⟨hempty, hin⟩ | ⟨-, -, hin⟩
      · exact (hw.member (clampPriority_le priority) hin).1.2 (hfields.1.trans hempty)
      · exact hsame ((hw.member hp hin).2.symm.trans hfields.2)
    have hno : ¬ KeepsChains s (.taskSetPriority id priority) := fun h =>
      hgood (hcond.mp h hsame)
    exact ⟨⟨fun hw => absurd hw hbad, fun h => absurd h hno⟩, fun h => absurd h hno⟩

/-! ### `sched_tick`

Within one tick a task that is appended behind itself is repaired by the next
task of the same priority that the tick wakes: the link is written again. Only
the last task a tick wakes on a queue decides, and it can be the queue's last
slot already only if it is the only one woken. -/

/-- The edit `task_wake` makes to the task it wakes. -/
def woken (t : Task) : Task := { t with state := .ready, wakeTime := 0, next := 0 }

theorem tickSlot_waking (hQ : Queues s L) {i : Nat} (hi : Waking s i) :
    tickSlot s i = enqueue (s.setTask i woken) (s.tasks i).priority i := by
  obtain ⟨hsl, hst, hwt⟩ := hi
  have hcr : Created s i := ⟨hsl, by simp [hst]⟩
  -- ids are unique among created tasks, so the inner `task_wake` finds slot `i`
  have hfind : firstSlot (fun j => (s.tasks j).id == (s.tasks i).id &&
      (s.tasks j).state == .blocked) = some i := by
    obtain ⟨j, hj⟩ := firstSlot_isSome (q := fun j => (s.tasks j).id == (s.tasks i).id &&
      (s.tasks j).state == .blocked) hsl (by simp [hst])
    obtain ⟨hjsl, hjq⟩ := firstSlot_eq_some hj
    rw [Bool.and_eq_true, beq_iff_eq, beq_iff_eq] at hjq
    have hjcr : Created s j := ⟨hjsl, by simp [hjq.2]⟩
    have hji : j = i := by
      rw [← hQ.slots.id_eq j hjcr, ← hQ.slots.id_eq i hcr]
      exact hjq.1
    rw [hj, hji]
  unfold tickSlot
  rw [if_pos ⟨hst, by omega⟩, if_pos (by omega), taskWake, hfind]
  simp only [setTask_tasks, Function.update_self]
  rfl

theorem tickSlot_not_waking (hQ : Queues s L) {i : Nat} (hsl : Slot i) (hi : ¬ Waking s i) :
    Queues (tickSlot s i) L ∧ (tickSlot s i).next = s.next ∧
      (tickSlot s i).readyQueueTail = s.readyQueueTail ∧
      ∀ j, j ≠ i → (tickSlot s i).tasks j = s.tasks j := by
  unfold tickSlot
  split
  · rename_i hb
    have hwt : ¬ (s.tasks i).wakeTime ≤ 1 := fun h => hi ⟨hsl, hb.1, by omega⟩
    rw [if_neg hwt]
    refine ⟨(hQ.setTask rfl rfl rfl Iff.rfl).1, ?_, rfl, fun j hj => ?_⟩
    · rw [setTask_next]
      exact Function.update_eq_self i s.next
    · exact Function.update_of_ne hj _ _
  · exact ⟨hQ, rfl, rfl, fun _ _ => rfl⟩

/-- The slots among `is` that a tick wakes onto queue `p`. -/
def wakeList (s : State) (p : Nat) (is : List Nat) : List Nat :=
  is.filter fun i =>
    decide ((s.tasks i).state = .blocked ∧ (s.tasks i).wakeTime = 1 ∧ (s.tasks i).priority = p)

/-- Whether queue `p` is closed after the given slots were woken onto it in
this order. -/
def ClosesAfter (s : State) (p : Nat) : List Nat → Prop
  | [] => ClosedAt s p
  | [i] => s.readyQueueTail p ≠ i
  | _ :: _ :: _ => True

theorem wakeList_congr {s' : State} {p : Nat} {is : List Nat}
    (h : ∀ i ∈ is, (s'.tasks i).state = (s.tasks i).state ∧
      (s'.tasks i).wakeTime = (s.tasks i).wakeTime ∧
      (s'.tasks i).priority = (s.tasks i).priority) : wakeList s' p is = wakeList s p is := by
  refine List.filter_congr fun i hi => ?_
  obtain ⟨h₁, h₂, h₃⟩ := h i hi
  rw [h₁, h₂, h₃]

theorem closesAfter_congr {s' : State} {p : Nat} {l : List Nat}
    (hc : ClosedAt s' p ↔ ClosedAt s p) (ht : s'.readyQueueTail p = s.readyQueueTail p) :
    ClosesAfter s' p l ↔ ClosesAfter s p l := by
  match l with
  | [] => exact hc
  | [i] => rw [ClosesAfter, ClosesAfter, ht]
  | _ :: _ :: _ => exact Iff.rfl

/-- One iteration that wakes slot `i`: the rest of the loop decides about the
queue of `i` unless it wakes nothing more there. -/
theorem closesAfter_waking (hQ : Queues s L) {i : Nat} {is : List Nat} (hne : ∀ j ∈ is, j ≠ i)
    (hw : Waking s i) {p : Nat} (hpm : p ≤ TASK_PRIORITY_MAX) :
    ClosesAfter (tickSlot s i) p (wakeList (tickSlot s i) p is) ↔
      ClosesAfter s p (wakeList s p (i :: is)) := by
  have heq := tickSlot_waking hQ hw
  have hsl := hw.1
  have hp := hQ.slots.prio_le i hsl
  have hsame := sameTasks_enqueue (s.setTask i woken) (s.tasks i).priority i
  have hlist : wakeList (tickSlot s i) p is = wakeList s p is := by
    refine wakeList_congr fun j hj => ?_
    rw [heq, hsame.state, hsame.wakeTime, hsame.priority]
    simp [hne j hj]
  rw [hlist]
  by_cases hpp : p = (s.tasks i).priority
  · subst hpp
    have hcons : wakeList s (s.tasks i).priority (i :: is) =
        i :: wakeList s (s.tasks i).priority is := by
      simp [wakeList, hw.2.1, hw.2.2]
    have htail : (tickSlot s i).readyQueueTail (s.tasks i).priority = i := by
      rw [heq, enqueue_tail, Function.update_self]
    rw [hcons]
    rcases hrest : wakeList s (s.tasks i).priority is with _ | ⟨x, _ | ⟨y, l⟩⟩
    · -- nothing more is woken onto this queue
      rw [ClosesAfter, ClosesAfter, heq]
      exact hQ.links.requeue_closedAt hp hsl.ne_zero rfl
    · -- one more: by now the tail is `i`, which it is not
      have hx : x ∈ is := List.mem_of_mem_filter (p := fun i => decide
        ((s.tasks i).state = .blocked ∧ (s.tasks i).wakeTime = 1 ∧ _)) (by
          rw [show List.filter _ is = [x] from hrest]
          simp)
      rw [ClosesAfter, ClosesAfter, htail]
      exact ⟨fun _ => trivial, fun _ => (hne x hx).symm⟩
    · exact Iff.rfl
  · -- the other queues do not notice
    have hcons : wakeList s p (i :: is) = wakeList s p is := by
      simp [wakeList, Ne.symm hpp]
    rw [hcons]
    refine closesAfter_congr ?_ ?_
    · rw [heq]
      exact hQ.links.requeue_closedAt_of_ne hp (hQ.members.only i) rfl hpm hpp
    · rw [heq, enqueue_tail, Function.update_of_ne hpp, setTask_tail]

/-- An iteration that wakes nothing. -/
theorem closesAfter_not_waking (hQ : Queues s L) {i : Nat} {is : List Nat}
    (hne : ∀ j ∈ is, j ≠ i) (hsl : Slot i) (hw : ¬ Waking s i) (p : Nat) :
    ClosesAfter (tickSlot s i) p (wakeList (tickSlot s i) p is) ↔
      ClosesAfter s p (wakeList s p (i :: is)) := by
  obtain ⟨-, hnext, htail, htasks⟩ := tickSlot_not_waking hQ hsl hw
  have hlist : wakeList (tickSlot s i) p is = wakeList s p is := by
    refine wakeList_congr fun j hj => ?_
    rw [htasks j (hne j hj)]
    exact ⟨rfl, rfl, rfl⟩
  have hcons : wakeList s p (i :: is) = wakeList s p is := by
    unfold wakeList
    rw [List.filter_cons_of_neg]
    simp only [decide_eq_true_eq]
    exact fun h => hw ⟨hsl, h.1, h.2.1⟩
  rw [hlist, hcons]
  refine closesAfter_congr ?_ (by rw [htail])
  unfold ClosedAt
  rw [hnext, htail]

/-- The whole loop, by induction on the slots still to come: the lists survive,
and each queue's end is what `ClosesAfter` says. -/
theorem tick_fold (is : List Nat) : ∀ (s : State) (L : Nat → List Nat), is.Nodup →
    (∀ i ∈ is, Slot i) → Queues s L →
    ∃ L', Queues (is.foldl tickSlot s) L' ∧ ∀ p ≤ TASK_PRIORITY_MAX,
      (ClosedAt (is.foldl tickSlot s) p ↔ ClosesAfter s p (wakeList s p is)) := by
  induction is with
  | nil =>
    intro s L _ _ hQ
    exact ⟨L, hQ, fun p _ => Iff.rfl⟩
  | cons i is ih =>
    intro s L hnd hslots hQ
    obtain ⟨hni, hnd⟩ := List.nodup_cons.mp hnd
    have hsl : Slot i := hslots i (List.mem_cons_self ..)
    have hslots' : ∀ j ∈ is, Slot j := fun j hj => hslots j (List.mem_cons_of_mem _ hj)
    have hne : ∀ j ∈ is, j ≠ i := fun j hj h => hni (h ▸ hj)
    rw [List.foldl_cons]
    by_cases hw : Waking s i
    · have hcr : Created s i := ⟨hsl, by simp [hw.2.1]⟩
      have hQ₁ := hQ.requeue (f := woken) hcr rfl rfl rfl (by simp [woken])
      rw [← tickSlot_waking hQ hw] at hQ₁
      obtain ⟨L', hQ', hclosed⟩ := ih (tickSlot s i) _ hnd hslots' hQ₁
      exact ⟨L', hQ', fun p hp => (hclosed p hp).trans (closesAfter_waking hQ hne hw hp)⟩
    · have hQ₁ := (tickSlot_not_waking hQ hsl hw).1
      obtain ⟨L', hQ', hclosed⟩ := ih (tickSlot s i) L hnd hslots' hQ₁
      exact ⟨L', hQ', fun p hp => (hclosed p hp).trans (closesAfter_not_waking hQ hne hsl hw p)⟩

theorem mem_wakeList_slots {p i : Nat} :
    i ∈ wakeList s p (List.range' 1 (TASK_MAX - 1)) ↔
      Waking s i ∧ (s.tasks i).priority = p := by
  unfold wakeList Waking
  rw [List.mem_filter, mem_slots, decide_eq_true_eq]
  constructor
  · rintro ⟨h, h₁, h₂, h₃⟩
    exact ⟨⟨h, h₁, h₂⟩, h₃⟩
  · rintro ⟨⟨h, h₁, h₂⟩, h₃⟩
    exact ⟨h, h₁, h₂, h₃⟩

/-- `sched_tick` breaks the queues exactly when the only task it wakes on some
queue is that queue's last slot already. -/
theorem schedTick_exact (h : ChainInv s) : Exact (schedTick s) (KeepsChains s .schedTick) := by
  obtain ⟨L, hQ, hc⟩ := h
  have hslots : ∀ i ∈ List.range' 1 (TASK_MAX - 1), Slot i := fun i hi => mem_slots.mp hi
  -- the lists are fine whatever the tick does; only the ends can go wrong
  obtain ⟨L', hQ', hclosed⟩ := tick_fold _ s L List.nodup_range' hslots hQ
  refine hQ'.exact ?_
  unfold KeepsChains
  constructor
  · intro hcl i hi htail
    have hp := hQ.slots.prio_le i hi.1
    have hmem : i ∈ wakeList s (s.tasks i).priority (List.range' 1 (TASK_MAX - 1)) :=
      mem_wakeList_slots.mpr ⟨hi, rfl⟩
    have hafter := (hclosed _ hp).mp (hcl _ hp)
    have hnd : (wakeList s (s.tasks i).priority (List.range' 1 (TASK_MAX - 1))).Nodup :=
      List.Nodup.filter _ List.nodup_range'
    rcases hlist : wakeList s (s.tasks i).priority (List.range' 1 (TASK_MAX - 1)) with
      _ | ⟨x, _ | ⟨y, l⟩⟩
    · rw [hlist] at hmem
      simp at hmem
    · rw [hlist] at hmem hafter
      exact absurd (htail.trans (List.mem_singleton.mp hmem)) hafter
    · -- two woken slots: one of them is not `i`
      have hx := mem_wakeList_slots.mp (show x ∈ wakeList s _ _ by rw [hlist]; simp)
      have hy := mem_wakeList_slots.mp (show y ∈ wakeList s _ _ by rw [hlist]; simp)
      rw [hlist] at hnd
      have hxy : x ≠ y := fun h => (List.nodup_cons.mp hnd).1 (by simp [h])
      by_cases hxi : x = i
      · exact ⟨y, fun h => hxy (hxi.trans h.symm), hy⟩
      · exact ⟨x, hxi, hx⟩
  · intro hcond p hp
    refine (hclosed p hp).mpr ?_
    rcases hlist : wakeList s p (List.range' 1 (TASK_MAX - 1)) with _ | ⟨x, _ | ⟨y, l⟩⟩
    · exact hc p hp
    · intro htail
      obtain ⟨hx, hxp⟩ := mem_wakeList_slots.mp (show x ∈ wakeList s p _ by rw [hlist]; simp)
      obtain ⟨j, hjx, hj, hjp⟩ := hcond x hx (hxp.symm ▸ htail)
      have hjmem := mem_wakeList_slots.mpr ⟨hj, hjp.trans hxp⟩
      rw [hlist] at hjmem
      exact hjx (List.mem_singleton.mp hjmem)
    · trivial

end Calls

/-! ## Whole runs -/

/-- From a state with the invariant, a call leaves the queues well formed
exactly when it meets `KeepsChains`, and then keeps the invariant. -/
theorem step_exact {s : State} (h : ChainInv s) (op : Op) :
    Exact (step s op) (KeepsChains s op) := by
  cases op with
  | taskCreatePriority entry priority =>
    exact (taskCreatePriority_chainInv h entry priority).exact trivial
  | taskSetPriority id priority => exact taskSetPriority_exact h id priority
  | schedStart => exact (schedStart_chainInv h).exact trivial
  | taskYield rsp => exact taskYield_exact h rsp
  | taskSleep ms rsp => exact (taskSleep_chainInv h ms rsp).exact trivial
  | taskWake id => exact taskWake_exact h id
  | schedTick => exact schedTick_exact h

/-- **Ready queues along a run.** After `sched_init` on the zeroed boot image,
the ready queues are well-formed chains in every state of a run if and only if
every call of the run meets `KeepsChains` in the state it is made in. -/
theorem wellFormedQueues_throughout_iff (tasksAddr : Nat) (ops : List Op) :
    Throughout step WellFormedQueues (initial tasksAddr) ops ↔
      Meets step KeepsChains (initial tasksAddr) ops :=
  throughout_iff_meets (D := fun _ _ => True) (fun _ h => h.wellFormed)
    (fun _ op h _ => (step_exact h op).1) (fun _ op h _ => (step_exact h op).2)
    (chainInv_initial tasksAddr) (meets_of_forall fun _ _ _ => trivial)

/-- A sleeping task whose priority is changed sits on a ready queue; waking it
appends it behind itself, and the chain from the head of queue 0 never ends. -/
theorem wake_after_set_priority_loops :
    ¬ WellFormedQueues (run step (initial 0)
      [.taskCreatePriority 1 1, .schedStart, .taskSleep 5 0, .taskSetPriority 1 0,
        .taskWake 1]) := by
  intro hw
  obtain ⟨l, hl, -⟩ := hw.chain 0 (by decide)
  refine hl.not_mem_of_self (a := 1) (by decide) (hl.head_mem ?_)
  decide

end AegisKernel.Sched
