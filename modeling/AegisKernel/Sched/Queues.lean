import Mathlib.Data.List.TakeWhile
import AegisKernel.Sched.Definitions

/-!
# Scheduler — what the queue code does to the ready queues

The three queues share one `next` field per slot. This module describes the
queue part of a state by a list per priority and says, once for each piece of
queue code, how the lists change:

* `Links s L` — head, tail and links of each queue describe the list `L p`,
  and the lists are disjoint; `Members s L` — queued slots are created tasks
  of the queue's priority; `ClosedAt s p` — the last slot of queue `p` points
  to 0.
* `Links.dispatch`, `Links.unlink`, `Links.requeue` — the effect of taking the
  head off, of removing a slot, and of clearing a slot's link and appending it.
  `requeue` is total: a slot that is on the queue already cuts the queue off
  behind it, and if it is the *last* slot it ends up pointing to itself.

`wellFormedQueues_iff` connects the lists to the statement about traversals,
`WellFormedQueues`.
-/

namespace AegisKernel.Sched

open Library

/-! ## Basic lemmas about the model -/

section Fields

variable (s : State) (i j p n : Nat) (f : Task → Task)

@[simp] theorem setTask_tasks :
    (s.setTask i f).tasks = Function.update s.tasks i (f (s.tasks i)) := rfl
@[simp] theorem setTask_head : (s.setTask i f).readyQueueHead = s.readyQueueHead := rfl
@[simp] theorem setTask_tail : (s.setTask i f).readyQueueTail = s.readyQueueTail := rfl
@[simp] theorem setTask_current : (s.setTask i f).currentTask = s.currentTask := rfl
@[simp] theorem setTask_counter : (s.setTask i f).taskCounter = s.taskCounter := rfl
@[simp] theorem setTask_running :
    (s.setTask i f).schedulerRunning = s.schedulerRunning := rfl

@[simp] theorem setHead_tasks : (s.setHead p i).tasks = s.tasks := rfl
@[simp] theorem setHead_next : (s.setHead p i).next = s.next := rfl
@[simp] theorem setHead_head :
    (s.setHead p i).readyQueueHead = Function.update s.readyQueueHead p i := rfl
@[simp] theorem setHead_tail : (s.setHead p i).readyQueueTail = s.readyQueueTail := rfl
@[simp] theorem setHead_current : (s.setHead p i).currentTask = s.currentTask := rfl
@[simp] theorem setHead_counter : (s.setHead p i).taskCounter = s.taskCounter := rfl
@[simp] theorem setHead_running :
    (s.setHead p i).schedulerRunning = s.schedulerRunning := rfl

@[simp] theorem setTail_tasks : (s.setTail p i).tasks = s.tasks := rfl
@[simp] theorem setTail_next : (s.setTail p i).next = s.next := rfl
@[simp] theorem setTail_head : (s.setTail p i).readyQueueHead = s.readyQueueHead := rfl
@[simp] theorem setTail_tail :
    (s.setTail p i).readyQueueTail = Function.update s.readyQueueTail p i := rfl
@[simp] theorem setTail_current : (s.setTail p i).currentTask = s.currentTask := rfl
@[simp] theorem setTail_counter : (s.setTail p i).taskCounter = s.taskCounter := rfl
@[simp] theorem setTail_running :
    (s.setTail p i).schedulerRunning = s.schedulerRunning := rfl

/-- What the edit of one task keeps of that task, it keeps of every task. -/
theorem setTask_kept {s : State} {i : Nat} {f : Task → Task} {β : Type} (g : Task → β)
    (h : g (f (s.tasks i)) = g (s.tasks i)) (j : Nat) :
    g ((s.setTask i f).tasks j) = g (s.tasks j) := by
  rw [setTask_tasks, Function.apply_update fun _ => g, h]
  exact congrFun (Function.update_eq_self i fun k => g (s.tasks k)) j

theorem setTask_next :
    (s.setTask i f).next = Function.update s.next i (f (s.tasks i)).next := by
  funext j
  by_cases hj : j = i
  · subst hj
    simp [State.next]
  · simp [State.next, hj]

@[simp] theorem setNext_next : (s.setNext i n).next = Function.update s.next i n := by
  rw [State.setNext, setTask_next]

@[simp] theorem setNext_head : (s.setNext i n).readyQueueHead = s.readyQueueHead := rfl
@[simp] theorem setNext_tail : (s.setNext i n).readyQueueTail = s.readyQueueTail := rfl
@[simp] theorem setNext_current : (s.setNext i n).currentTask = s.currentTask := rfl
@[simp] theorem setNext_counter : (s.setNext i n).taskCounter = s.taskCounter := rfl
@[simp] theorem setNext_running :
    (s.setNext i n).schedulerRunning = s.schedulerRunning := rfl

end Fields

/-- `s'` differs from `s` in links and queue pointers only, as far as the task
table goes: every other field of every task is the same. -/
def SameTasks (s s' : State) : Prop :=
  ∀ i, s'.tasks i = { s.tasks i with next := s'.next i }

theorem SameTasks.refl (s : State) : SameTasks s s := fun _ => rfl

theorem SameTasks.setNext (s : State) (i n : Nat) : SameTasks s (s.setNext i n) := by
  intro j
  by_cases hj : j = i
  · subst hj
    simp [State.setNext, State.next]
  · simp [State.setNext, State.next, hj]

theorem SameTasks.trans {s s' s'' : State} (h : SameTasks s s') (h' : SameTasks s' s'') :
    SameTasks s s'' := by
  intro i
  rw [h' i, h i]

theorem sameTasks_enqueue (s : State) (p i : Nat) : SameTasks s (enqueue s p i) := by
  unfold enqueue
  split
  · exact SameTasks.refl s
  · exact SameTasks.setNext s _ _

theorem sameTasks_dispatch (s : State) (p : Nat) : SameTasks s (dispatch s p) := by
  unfold dispatch
  dsimp only
  split <;> exact SameTasks.refl s

theorem sameTasks_unlink (s : State) (p i : Nat) : SameTasks s (unlink s p i) := by
  unfold unlink
  split
  · dsimp only
    split <;> exact SameTasks.refl s
  · split
    · exact SameTasks.refl s
    · dsimp only
      split <;> exact SameTasks.setNext s _ _

section SameTasksFields

variable {s s' : State} (h : SameTasks s s') (i : Nat)
include h

theorem SameTasks.state : (s'.tasks i).state = (s.tasks i).state := by rw [h i]
theorem SameTasks.priority : (s'.tasks i).priority = (s.tasks i).priority := by rw [h i]
theorem SameTasks.id : (s'.tasks i).id = (s.tasks i).id := by rw [h i]
theorem SameTasks.wakeTime : (s'.tasks i).wakeTime = (s.tasks i).wakeTime := by rw [h i]
theorem SameTasks.entry : (s'.tasks i).entry = (s.tasks i).entry := by rw [h i]

end SameTasksFields

/-- The slots the scanning loops look at. -/
def Slot (i : Nat) : Prop := 1 ≤ i ∧ i < TASK_MAX

theorem mem_slots {i : Nat} : i ∈ List.range' 1 (TASK_MAX - 1) ↔ Slot i := by
  rw [List.mem_range'_1]
  unfold Slot TASK_MAX
  omega

theorem slot_or_zero {i : Nat} (hi : i < TASK_MAX) : i = 0 ∨ Slot i := by
  unfold Slot
  omega

theorem firstSlot_eq_some {q : Nat → Bool} {i : Nat} (h : firstSlot q = some i) :
    Slot i ∧ q i = true :=
  ⟨mem_slots.mp (List.mem_of_find?_eq_some h), List.find?_some h⟩

theorem firstSlot_isSome {q : Nat → Bool} {i : Nat} (hi : Slot i) (hq : q i = true) :
    ∃ j, firstSlot q = some j := by
  have hsome : (firstSlot q).isSome := List.find?_isSome.mpr ⟨i, mem_slots.mpr hi, hq⟩
  exact Option.isSome_iff_exists.mp hsome

/-! ## The state after `sched_init` -/

section Initial

variable (tasksAddr i p : Nat)

@[simp] theorem initial_head : (initial tasksAddr).readyQueueHead p = 0 := ite_self _

@[simp] theorem initial_tail : (initial tasksAddr).readyQueueTail p = 0 := ite_self _

@[simp] theorem initial_next : (initial tasksAddr).next i = 0 := by
  unfold State.next initial schedInit
  dsimp only
  split <;> rfl

theorem initial_task {i : Nat} (hi : i < TASK_MAX) :
    (initial tasksAddr).tasks i =
      { (bootImage tasksAddr).tasks i with
        id := 0, state := .empty, priority := TASK_PRIORITY_NORMAL } := if_pos hi

end Initial

/-! ## The ready queues as lists -/

/-- A slot that `task_create_priority` has filled. -/
def Created (s : State) (i : Nat) : Prop := Slot i ∧ (s.tasks i).state ≠ .empty

/-- Following `next` from `ready_queue_head[p]` visits slot `i`. -/
def InQueue (s : State) (p i : Nat) : Prop := Reaches 0 s.next (s.readyQueueHead p) i

/-- Slot `i` is on some ready queue. -/
def Queued (s : State) (i : Nat) : Prop := ∃ p ≤ TASK_PRIORITY_MAX, InQueue s p i

/-- For each priority the chain from the head visits pairwise distinct created
slots of that priority, ends at the tail, and shares no slot with another
queue. -/
structure WellFormedQueues (s : State) : Prop where
  chain : ∀ p ≤ TASK_PRIORITY_MAX, ∃ l : List Nat,
    Linked 0 s.next (s.readyQueueHead p) l ∧ l.Nodup ∧
    (∀ i ∈ l, Created s i ∧ (s.tasks i).priority = p) ∧
    (l ≠ [] → l.getLast? = some (s.readyQueueTail p))
  head_zero_iff : ∀ p ≤ TASK_PRIORITY_MAX,
    s.readyQueueHead p = 0 ↔ s.readyQueueTail p = 0
  disjoint : ∀ p ≤ TASK_PRIORITY_MAX, ∀ q ≤ TASK_PRIORITY_MAX, ∀ i,
    InQueue s p i → InQueue s q i → p = q

/-- Head, tail and links of each queue describe the list `L p`, and no slot is
on two lists. -/
structure Links (s : State) (L : Nat → List Nat) : Prop where
  queue : ∀ p ≤ TASK_PRIORITY_MAX,
    OpenQueue 0 s.next (s.readyQueueHead p) (s.readyQueueTail p) (L p)
  disjoint : ∀ p ≤ TASK_PRIORITY_MAX, ∀ q ≤ TASK_PRIORITY_MAX, ∀ i ∈ L p, i ∈ L q → p = q

/-- Queued slots are created tasks of the queue's priority. -/
def Members (s : State) (L : Nat → List Nat) : Prop :=
  ∀ p ≤ TASK_PRIORITY_MAX, ∀ i ∈ L p, Created s i ∧ (s.tasks i).priority = p

/-- The last slot of queue `p` ends the chain. -/
def ClosedAt (s : State) (p : Nat) : Prop :=
  s.readyQueueTail p ≠ 0 → s.next (s.readyQueueTail p) = 0

def Closed (s : State) : Prop := ∀ p ≤ TASK_PRIORITY_MAX, ClosedAt s p

section Lists

variable {s : State} {L : Nat → List Nat}

theorem Links.linked (hL : Links s L) {p : Nat} (hp : p ≤ TASK_PRIORITY_MAX)
    (hc : ClosedAt s p) : Linked 0 s.next (s.readyQueueHead p) (L p) :=
  (hL.queue p hp).linked hc

theorem Links.ne_zero (hL : Links s L) {p i : Nat} (hp : p ≤ TASK_PRIORITY_MAX)
    (hi : i ∈ L p) : i ≠ 0 := (hL.queue p hp).ne_nil i hi

/-- On closed queues the traversal visits exactly the list. -/
theorem Links.inQueue_iff (hL : Links s L) {p i : Nat} (hp : p ≤ TASK_PRIORITY_MAX)
    (hc : ClosedAt s p) : InQueue s p i ↔ i ∈ L p :=
  (hL.linked hp hc).reaches_iff

theorem Links.queued_iff (hL : Links s L) (hc : Closed s) {i : Nat} :
    Queued s i ↔ ∃ p ≤ TASK_PRIORITY_MAX, i ∈ L p := by
  constructor
  · rintro ⟨p, hp, hi⟩
    exact ⟨p, hp, (hL.inQueue_iff hp (hc p hp)).mp hi⟩
  · rintro ⟨p, hp, hi⟩
    exact ⟨p, hp, (hL.inQueue_iff hp (hc p hp)).mpr hi⟩

/-- A slot that is neither a tail nor 0 is on no list's end: links written to
the tail of one queue do not touch another queue. -/
theorem Links.ne_tail (hL : Links s L) {p q i : Nat} (hp : p ≤ TASK_PRIORITY_MAX)
    (hq : q ≤ TASK_PRIORITY_MAX) (hpq : q ≠ p) (hi : i ∈ L q) :
    i ≠ s.readyQueueTail p := by
  intro h
  have hne : s.readyQueueTail p ≠ 0 := h ▸ hL.ne_zero hq hi
  have hmem : i ∈ L p := h ▸ (hL.queue p hp).tail_mem hne
  exact hpq (hL.disjoint q hq p hp i hi hmem)

/-- The lists and the statement about traversals say the same: the queues are
well formed exactly when they are closed and hold the right members. -/
theorem wellFormedQueues_iff (hL : Links s L) :
    WellFormedQueues s ↔ Closed s ∧ Members s L := by
  constructor
  · intro hw
    -- the chain of a well-formed queue is finite and ends at the tail
    have hc : Closed s := by
      intro p hp ht
      obtain ⟨l, hl, -, -, hlast⟩ := hw.chain p hp
      have hne : l ≠ [] := by
        rintro rfl
        exact ht ((hw.head_zero_iff p hp).mp (seg_nil_iff.mp hl))
      have htail : l.getLastD 0 = s.readyQueueTail p := by
        rw [List.getLastD_eq_getLast?, hlast hne]
        rfl
      have := hl.openQueue.2
      rw [htail] at this
      exact this ht
    refine ⟨hc, fun p hp i hi => ?_⟩
    obtain ⟨l, hl, -, hmem, -⟩ := hw.chain p hp
    -- a closed chain from the head has only one list
    rw [← (hL.linked hp (hc p hp)).unique hl] at hmem
    exact hmem i hi
  · rintro ⟨hc, hm⟩
    refine ⟨fun p hp => ⟨L p, hL.linked hp (hc p hp), (hL.queue p hp).nodup, hm p hp, ?_⟩,
      fun p hp => ?_, fun p hp q hq i hi hi' => ?_⟩
    · intro hne
      have htail := (hL.queue p hp).getLastD
      rw [List.getLastD_eq_getLast?] at htail
      rcases hlast : (L p).getLast? with _ | t
      · exact absurd (List.getLast?_eq_none_iff.mp hlast) hne
      · rw [hlast] at htail
        rw [← htail]
        rfl
    · rw [(hL.queue p hp).head_eq_nil_iff, (hL.queue p hp).tail_eq_nil_iff]
    · rw [hL.inQueue_iff hp (hc p hp)] at hi
      rw [hL.inQueue_iff hq (hc q hq)] at hi'
      exact hL.disjoint p hp q hq i hi hi'

/-- Links and queue pointers of the listed slots are all that matters. -/
theorem Links.congr (hL : Links s L) {s' : State}
    (hhead : ∀ p ≤ TASK_PRIORITY_MAX, s'.readyQueueHead p = s.readyQueueHead p)
    (htail : ∀ p ≤ TASK_PRIORITY_MAX, s'.readyQueueTail p = s.readyQueueTail p)
    (hnext : ∀ p ≤ TASK_PRIORITY_MAX, ∀ i ∈ L p, s'.next i = s.next i) : Links s' L := by
  refine ⟨fun p hp => ?_, hL.disjoint⟩
  rw [hhead p hp, htail p hp]
  exact (hL.queue p hp).congr (hnext p hp)

theorem Links.closedAt_congr (hL : Links s L) {s' : State} {p : Nat}
    (hp : p ≤ TASK_PRIORITY_MAX) (htail : s'.readyQueueTail p = s.readyQueueTail p)
    (hnext : ∀ i ∈ L p, s'.next i = s.next i) : ClosedAt s' p ↔ ClosedAt s p := by
  unfold ClosedAt
  rw [htail]
  constructor
  · intro h ht
    rw [← hnext _ ((hL.queue p hp).tail_mem ht)]
    exact h ht
  · intro h ht
    rw [hnext _ ((hL.queue p hp).tail_mem ht)]
    exact h ht

/-- An edit of queue `p` that leaves a finished part of its chain and does not
touch the other queues. -/
theorem Links.replace (hL : Links s L) (hc : Closed s) {s' : State} {p : Nat}
    {l : List Nat} (hp : p ≤ TASK_PRIORITY_MAX)
    (hl : Linked 0 s'.next (s'.readyQueueHead p) l)
    (hlast : l.getLastD 0 = s'.readyQueueTail p) (hsub : ∀ a ∈ l, a ∈ L p)
    (hhead : ∀ q, q ≠ p → s'.readyQueueHead q = s.readyQueueHead q)
    (htail : ∀ q, q ≠ p → s'.readyQueueTail q = s.readyQueueTail q)
    (hnext : ∀ q ≤ TASK_PRIORITY_MAX, q ≠ p → ∀ a ∈ L q, s'.next a = s.next a) :
    Links s' (Function.update L p l) ∧ Closed s' := by
  -- no list gained a slot
  have hmem : ∀ r i, i ∈ Function.update L p l r → i ∈ L r := by
    intro r i hi
    by_cases hrp : r = p
    · subst hrp
      rw [Function.update_self] at hi
      exact hsub i hi
    · rwa [Function.update_of_ne hrp] at hi
  refine ⟨⟨fun q hq => ?_, fun q hq r hr i hi hi' => ?_⟩, fun q hq => ?_⟩
  · by_cases hqp : q = p
    · subst hqp
      rw [Function.update_self, ← hlast]
      exact hl.openQueue.1
    · rw [Function.update_of_ne hqp, hhead q hqp, htail q hqp]
      exact (hL.queue q hq).congr (hnext q hq hqp)
  · exact hL.disjoint q hq r hr i (hmem q i hi) (hmem r i hi')
  · by_cases hqp : q = p
    · subst hqp
      have := hl.openQueue.2
      rw [hlast] at this
      exact this
    · exact (hL.closedAt_congr hq (htail q hqp) (hnext q hq hqp)).mpr (hc q hq)

end Lists

/-! ## Taking the head off a queue -/

section Dispatch

variable (s : State) (p : Nat)

@[simp] theorem dispatch_next : (dispatch s p).next = s.next := by
  unfold dispatch
  dsimp only
  split <;> rfl

@[simp] theorem dispatch_tasks : (dispatch s p).tasks = s.tasks := by
  unfold dispatch
  dsimp only
  split <;> rfl

@[simp] theorem dispatch_current : (dispatch s p).currentTask = s.readyQueueHead p := by
  unfold dispatch
  dsimp only
  split <;> rfl

@[simp] theorem dispatch_running :
    (dispatch s p).schedulerRunning = s.schedulerRunning := by
  unfold dispatch
  dsimp only
  split <;> rfl

@[simp] theorem dispatch_counter : (dispatch s p).taskCounter = s.taskCounter := by
  unfold dispatch
  dsimp only
  split <;> rfl

@[simp] theorem dispatch_head : (dispatch s p).readyQueueHead =
    Function.update s.readyQueueHead p (s.next (s.readyQueueHead p)) := by
  unfold dispatch
  dsimp only
  split <;> rfl

theorem dispatch_tail : (dispatch s p).readyQueueTail =
    if s.next (s.readyQueueHead p) = 0 then Function.update s.readyQueueTail p 0
    else s.readyQueueTail := by
  unfold dispatch
  dsimp only
  rw [setHead_head, Function.update_self]
  split <;> rfl

end Dispatch

theorem Links.dispatch {s : State} {L : Nat → List Nat} (hL : Links s L) (hc : Closed s)
    {p : Nat} (hp : p ≤ TASK_PRIORITY_MAX) (hne : s.readyQueueHead p ≠ 0) :
    ∃ l, L p = s.readyQueueHead p :: l ∧
      Links (dispatch s p) (Function.update L p l) ∧ Closed (dispatch s p) := by
  obtain ⟨l, hl, hrest⟩ := (hL.linked hp (hc p hp)).dropHead hne
  -- the tail is reset only when the head was the last slot
  have hlast : l.getLastD 0 = (Sched.dispatch s p).readyQueueTail p := by
    have htail := (hL.queue p hp).getLastD
    rw [hl] at htail
    have h0 : s.next (s.readyQueueHead p) = 0 ↔ l = [] := hrest.head_eq_nil_iff
    rw [dispatch_tail]
    by_cases hl0 : l = []
    · rw [if_pos (h0.mpr hl0), hl0, Function.update_self]
      rfl
    · rw [if_neg fun h => hl0 (h0.mp h), ← htail]
      exact (getLastD_append_right [s.readyQueueHead p] hl0 0 0).symm
  have hother : ∀ q, q ≠ p →
      (Sched.dispatch s p).readyQueueTail q = s.readyQueueTail q := by
    intro q hqp
    rw [dispatch_tail]
    split
    · exact Function.update_of_ne hqp _ _
    · rfl
  refine ⟨l, hl, hL.replace hc hp ?_ hlast ?_ ?_ hother ?_⟩
  · rw [dispatch_next, dispatch_head, Function.update_self]
    exact hrest
  · intro a ha
    rw [hl]
    exact List.mem_cons_of_mem _ ha
  · intro q hqp
    rw [dispatch_head, Function.update_of_ne hqp]
  · intro q _ _ a _
    rw [dispatch_next]

/-! ## Clearing a slot's link and appending the slot -/

section Requeue

variable (s : State) (p i : Nat)

theorem enqueue_head : (enqueue s p i).readyQueueHead =
    Function.update s.readyQueueHead p
      (if s.readyQueueHead p = 0 then i else s.readyQueueHead p) := by
  unfold enqueue
  split
  · rfl
  · rw [setTail_head, setNext_head, Function.update_eq_self]

@[simp] theorem enqueue_tail :
    (enqueue s p i).readyQueueTail = Function.update s.readyQueueTail p i := by
  unfold enqueue
  split <;> rfl

theorem enqueue_next : (enqueue s p i).next =
    if s.readyQueueHead p = 0 then s.next
    else Function.update s.next (s.readyQueueTail p) i := by
  unfold enqueue
  split
  · rfl
  · rw [setTail_next, setNext_next]

@[simp] theorem enqueue_current : (enqueue s p i).currentTask = s.currentTask := by
  unfold enqueue
  split <;> rfl

@[simp] theorem enqueue_running :
    (enqueue s p i).schedulerRunning = s.schedulerRunning := by
  unfold enqueue
  split <;> rfl

@[simp] theorem enqueue_counter : (enqueue s p i).taskCounter = s.taskCounter := by
  unfold enqueue
  split <;> rfl

end Requeue

section RequeueLists

variable {s : State} {L : Nat → List Nat} {p i : Nat} {f : Task → Task}

/-- The list a queue becomes when `i` is cleared and appended: everything
before `i`, then `i`. -/
def requeued (l : List Nat) (i : Nat) : List Nat := l.takeWhile (· ≠ i) ++ [i]

theorem mem_requeued {l : List Nat} {i j : Nat} (hj : j ∈ requeued l i) :
    j = i ∨ (j ∈ l ∧ j ≠ i) := by
  unfold requeued at hj
  rcases List.mem_append.mp hj with hj | hj
  · exact .inr ⟨List.takeWhile_subset _ hj, by simpa using List.mem_takeWhile_imp hj⟩
  · exact .inl (List.mem_singleton.mp hj)

theorem self_mem_requeued (l : List Nat) (i : Nat) : i ∈ requeued l i := by
  simp [requeued]

/-- A slot that was not on the queue is appended behind everything. -/
theorem requeued_of_not_mem {l : List Nat} {i : Nat} (hi : i ∉ l) : requeued l i = l ++ [i] := by
  have hall : l.takeWhile (· ≠ i) = l := by
    rw [List.takeWhile_eq_self_iff]
    intro k hk
    have : k ≠ i := fun h => hi (h ▸ hk)
    simpa using this
  rw [requeued, hall]

theorem mem_requeued_of_not_mem {l : List Nat} {i j : Nat} (hi : i ∉ l) (hj : j ∈ l) :
    j ∈ requeued l i := by
  rw [requeued_of_not_mem hi]
  exact List.mem_append_left _ hj

/-- The links after clearing slot `i` and appending it to queue `p`. -/
theorem requeue_next (hf : (f (s.tasks i)).next = 0) (j : Nat) :
    (enqueue (s.setTask i f) p i).next j =
      if s.readyQueueHead p ≠ 0 ∧ j = s.readyQueueTail p then i
      else if j = i then 0 else s.next j := by
  rw [enqueue_next, setTask_head, setTask_tail, setTask_next, hf]
  by_cases h0 : s.readyQueueHead p = 0
  · simp [h0, Function.update_apply]
  · simp [h0, Function.update_apply]

theorem Links.requeue (hL : Links s L) (hp : p ≤ TASK_PRIORITY_MAX) (hi : i ≠ 0)
    (honly : ∀ q ≤ TASK_PRIORITY_MAX, i ∈ L q → q = p)
    (hf : (f (s.tasks i)).next = 0) :
    Links (enqueue (s.setTask i f) p i) (Function.update L p (requeued (L p) i)) := by
  have hhead := (hL.queue p hp).head_eq_nil_iff
  have hnext := fun j => requeue_next (s := s) (p := p) (i := i) hf j
  refine ⟨fun q hq => ?_, fun q hq r hr j hj hj' => ?_⟩
  · by_cases hqp : q = p
    · subst hqp
      rw [enqueue_head, enqueue_tail, Function.update_self, Function.update_self,
        Function.update_self]
      -- the queue itself: the old tail now points to `i`, other links are kept
      refine (hL.queue q hq).requeue hi (fun hne => ?_) fun a ha hai hat => ?_
      · rw [hnext, if_pos ⟨fun h => hne (hhead.mp h), rfl⟩]
      · rw [hnext, if_neg fun h => hat h.2, if_neg hai]
    · -- another queue shares neither `i` nor the tail of queue `p`
      rw [enqueue_head, enqueue_tail, Function.update_of_ne hqp, Function.update_of_ne hqp,
        Function.update_of_ne hqp]
      refine (hL.queue q hq).congr fun a ha => ?_
      have hat := hL.ne_tail hp hq hqp ha
      have hai : a ≠ i := fun h => hqp (honly q hq (h ▸ ha))
      rw [hnext, if_neg fun h => hat h.2, if_neg hai]
  -- no slot is on two lists: `i` is on `p` only, the others are where they were
  · have hback : ∀ r ≤ TASK_PRIORITY_MAX, j ∈ Function.update L p (requeued (L p) i) r →
        (j = i ∧ r = p) ∨ (j ≠ i ∧ j ∈ L r) := by
      intro r hr hj
      by_cases hrp : r = p
      · subst hrp
        rw [Function.update_self] at hj
        rcases mem_requeued hj with rfl | ⟨hmem, hne⟩
        · exact .inl ⟨rfl, rfl⟩
        · exact .inr ⟨hne, hmem⟩
      · rw [Function.update_of_ne hrp] at hj
        exact .inr ⟨fun h => hrp (honly r hr (h ▸ hj)), hj⟩
    rcases hback q hq hj with ⟨hji, hqp⟩ | ⟨hji, hmem⟩
    · rcases hback r hr hj' with ⟨-, hrp⟩ | ⟨hne, -⟩
      · rw [hqp, hrp]
      · exact absurd hji hne
    · rcases hback r hr hj' with ⟨h, -⟩ | ⟨-, hmem'⟩
      · exact absurd h hji
      · exact hL.disjoint q hq r hr j hmem hmem'

/-- Queue `p` is closed afterwards unless `i` was its last slot: then `i`
points to itself. -/
theorem Links.requeue_closedAt (hL : Links s L) (hp : p ≤ TASK_PRIORITY_MAX) (hi : i ≠ 0)
    (hf : (f (s.tasks i)).next = 0) :
    ClosedAt (enqueue (s.setTask i f) p i) p ↔ s.readyQueueTail p ≠ i := by
  have hzero : s.readyQueueHead p = 0 ↔ s.readyQueueTail p = 0 := by
    rw [(hL.queue p hp).head_eq_nil_iff, (hL.queue p hp).tail_eq_nil_iff]
  unfold ClosedAt
  rw [enqueue_tail, Function.update_self, requeue_next hf]
  constructor
  · intro h ht
    have hne : s.readyQueueHead p ≠ 0 := fun h0 => hi (ht ▸ hzero.mp h0)
    rw [if_pos ⟨hne, ht.symm⟩] at h
    exact hi (h hi)
  · intro ht _
    rw [if_neg fun h => ht h.2.symm, if_pos rfl]

theorem Links.requeue_closedAt_of_ne (hL : Links s L) (hp : p ≤ TASK_PRIORITY_MAX)
    (honly : ∀ q ≤ TASK_PRIORITY_MAX, i ∈ L q → q = p)
    (hf : (f (s.tasks i)).next = 0) {q : Nat} (hq : q ≤ TASK_PRIORITY_MAX) (hqp : q ≠ p) :
    ClosedAt (enqueue (s.setTask i f) p i) q ↔ ClosedAt s q := by
  refine hL.closedAt_congr hq ?_ fun a ha => ?_
  · rw [enqueue_tail, Function.update_of_ne hqp, setTask_tail]
  · have hat := hL.ne_tail hp hq hqp ha
    have hai : a ≠ i := fun h => hqp (honly q hq (h ▸ ha))
    rw [requeue_next hf, if_neg fun h => hat h.2, if_neg hai]

/-- Altogether: if the queues were closed, clearing and appending `i` keeps
them closed exactly when `i` was not the last slot of its queue. -/
theorem Links.requeue_closed (hL : Links s L) (hc : Closed s) (hp : p ≤ TASK_PRIORITY_MAX)
    (hi : i ≠ 0) (honly : ∀ q ≤ TASK_PRIORITY_MAX, i ∈ L q → q = p)
    (hf : (f (s.tasks i)).next = 0) :
    Closed (enqueue (s.setTask i f) p i) ↔ s.readyQueueTail p ≠ i := by
  constructor
  · intro h
    exact (hL.requeue_closedAt hp hi hf).mp (h p hp)
  · intro ht q hq
    by_cases hqp : q = p
    · subst hqp
      exact (hL.requeue_closedAt hq hi hf).mpr ht
    · exact (hL.requeue_closedAt_of_ne hp honly hf hq hqp).mpr (hc q hq)

end RequeueLists

/-! ## Removing a slot from its queue -/

section UnlinkFields

variable (s : State) (p i : Nat)

/-- The removal writes links and the two pointers of a queue. -/
theorem unlink_eq : ∃ tasks head tail, unlink s p i =
    { s with tasks := tasks, readyQueueHead := head, readyQueueTail := tail } := by
  unfold unlink
  dsimp only
  split_ifs
  · exact ⟨_, _, _, rfl⟩
  · exact ⟨_, _, _, rfl⟩
  · split
    · exact ⟨_, _, _, rfl⟩
    · split_ifs <;> exact ⟨_, _, _, rfl⟩

@[simp] theorem unlink_current : (unlink s p i).currentTask = s.currentTask := by
  obtain ⟨tasks, head, tail, h⟩ := unlink_eq s p i
  rw [h]

@[simp] theorem unlink_running : (unlink s p i).schedulerRunning = s.schedulerRunning := by
  obtain ⟨tasks, head, tail, h⟩ := unlink_eq s p i
  rw [h]

@[simp] theorem unlink_counter : (unlink s p i).taskCounter = s.taskCounter := by
  obtain ⟨tasks, head, tail, h⟩ := unlink_eq s p i
  rw [h]

theorem unlink_head_of_ne {q : Nat} (hq : q ≠ p) :
    (unlink s p i).readyQueueHead q = s.readyQueueHead q := by
  unfold unlink
  dsimp only
  split_ifs
  · simp [hq]
  · simp [hq]
  · split
    · rfl
    · split_ifs <;> rfl

theorem unlink_tail_of_ne {q : Nat} (hq : q ≠ p) :
    (unlink s p i).readyQueueTail q = s.readyQueueTail q := by
  unfold unlink
  dsimp only
  split_ifs
  · simp [hq]
  · rfl
  · split
    · rfl
    · split_ifs
      · simp [hq]
      · rfl

/-- Away from the head the removal rewrites the link of the slot the scan
finds, and leaves the head alone. -/
theorem unlink_scan {j : Nat} (hhead : s.readyQueueHead p ≠ i)
    (hj : firstSlot (fun j => (s.tasks j).next == i) = some j) :
    (unlink s p i).next = Function.update s.next j (s.next i) ∧
      (unlink s p i).readyQueueHead = s.readyQueueHead := by
  unfold unlink
  rw [if_neg hhead, hj]
  dsimp only
  split_ifs <;> exact ⟨setNext_next s j _, rfl⟩

end UnlinkFields

section Unlink

variable {s : State} {L : Nat → List Nat} {p i : Nat}

/-- A queued slot that points to `i ≠ 0` is right before `i` on the same queue. -/
theorem Links.pred (hL : Links s L) (hc : Closed s) {q j : Nat}
    (hq : q ≤ TASK_PRIORITY_MAX) (hj : j ∈ L q) (hnext : s.next j = i) (hi : i ≠ 0) :
    ∃ l₁ l₂, L q = l₁ ++ j :: i :: l₂ :=
  (hL.linked hq (hc q hq)).pred hj hnext hi

/-- For a slot on no queue the removal code rewrites at most one link, of a
slot that is on no queue either. -/
theorem Links.unlink_unqueued (hL : Links s L) (hc : Closed s)
    (hp : p ≤ TASK_PRIORITY_MAX) (hi : i ≠ 0) (hno : ∀ q ≤ TASK_PRIORITY_MAX, i ∉ L q) :
    Links (unlink s p i) L ∧ Closed (unlink s p i) := by
  have hhead : s.readyQueueHead p ≠ i := fun h =>
    hno p hp (h ▸ (hL.linked hp (hc p hp)).head_mem (h ▸ hi))
  have htail : s.readyQueueTail p ≠ i := fun h =>
    hno p hp (h ▸ (hL.queue p hp).tail_mem (h ▸ hi))
  unfold unlink
  rw [if_neg hhead]
  split
  · exact ⟨hL, hc⟩
  · rename_i j hj
    have hnextj : s.next j = i := by simpa [State.next] using (firstSlot_eq_some hj).2
    -- a queued predecessor would make `i` queued
    have hjno : ∀ q ≤ TASK_PRIORITY_MAX, ∀ a ∈ L q, a ≠ j := by
      intro q hq a ha haj
      obtain ⟨l₁, l₂, hsplit⟩ := hL.pred hc hq (haj ▸ ha) hnextj hi
      exact hno q hq (by simp [hsplit])
    have hnext : ∀ q ≤ TASK_PRIORITY_MAX, ∀ a ∈ L q,
        (s.setNext j (s.next i)).next a = s.next a := by
      intro q hq a ha
      rw [setNext_next, Function.update_of_ne (hjno q hq a ha)]
    dsimp only
    rw [setNext_tail, if_neg htail]
    refine ⟨hL.congr (fun _ _ => rfl) (fun _ _ => rfl) hnext, fun q hq => ?_⟩
    have hiff : ClosedAt (s.setNext j (s.next i)) q ↔ ClosedAt s q :=
      hL.closedAt_congr hq rfl (hnext q hq)
    exact hiff.mpr (hc q hq)

/-- The head of a queue is dropped; a queue of one slot becomes empty. -/
theorem Links.unlink_head (hL : Links s L) (hc : Closed s) (hp : p ≤ TASK_PRIORITY_MAX)
    (hi : i ∈ L p) (hhead : s.readyQueueHead p = i) :
    Links (unlink s p i) (Function.update L p ((L p).erase i)) ∧ Closed (unlink s p i) := by
  have hi0 : i ≠ 0 := hL.ne_zero hp hi
  have hqueue := hL.queue p hp
  obtain ⟨l, hl, hrest⟩ := (hL.linked hp (hc p hp)).dropHead (hhead ▸ hi0)
  rw [hhead] at hl hrest
  rw [hl] at hqueue
  have herase : (L p).erase i = l := by rw [hl, List.erase_cons_head]
  -- head and tail coincide on queues of one slot only
  have htail : s.readyQueueTail p = i ↔ l = [] := hqueue.tail_eq_iff []
  unfold unlink
  rw [if_pos hhead]
  dsimp only
  rw [setHead_tail, herase]
  by_cases ht : s.readyQueueTail p = i
  · rw [if_pos ht]
    refine hL.replace hc hp ?_ ?_ ?_ ?_ ?_ ?_
    · rw [setTail_head, setHead_head, Function.update_self]
      exact hrest
    · rw [htail.mp ht, setTail_tail, Function.update_self]
      rfl
    · intro a ha
      rw [hl]
      exact List.mem_cons_of_mem _ ha
    · intro q hqp
      rw [setTail_head, setHead_head, Function.update_of_ne hqp]
    · intro q hqp
      rw [setTail_tail, Function.update_of_ne hqp, setHead_tail]
    · intro q _ _ a _
      rfl
  · rw [if_neg ht]
    refine hL.replace hc hp ?_ ?_ ?_ ?_ ?_ ?_
    · rw [setHead_head, Function.update_self]
      exact hrest
    · rw [setHead_tail, ← hqueue.getLastD]
      exact (getLastD_append_right [i] (fun h => ht (htail.mpr h)) 0 0).symm
    · intro a ha
      rw [hl]
      exact List.mem_cons_of_mem _ ha
    · intro q hqp
      rw [setHead_head, Function.update_of_ne hqp]
    · intro q _
      rfl
    · intro q _ _ a _
      rfl

/-- An inner slot is bypassed at the queued slot the scan finds, which is its
predecessor. -/
theorem Links.unlink_inner (hL : Links s L) (hc : Closed s) (hp : p ≤ TASK_PRIORITY_MAX)
    (hi : i ∈ L p) (hhead : s.readyQueueHead p ≠ i) {j q : Nat}
    (hj : firstSlot (fun j => (s.tasks j).next == i) = some j)
    (hq : q ≤ TASK_PRIORITY_MAX) (hjq : j ∈ L q) :
    Links (unlink s p i) (Function.update L p ((L p).erase i)) ∧ Closed (unlink s p i) := by
  have hi0 : i ≠ 0 := hL.ne_zero hp hi
  have hlink := hL.linked hp (hc p hp)
  have hqueue := hL.queue p hp
  have hnextj : s.next j = i := by simpa [State.next] using (firstSlot_eq_some hj).2
  -- the slot found is queued and points to `i`: it is right before it
  obtain ⟨l₁, l₂, hsplit⟩ := hL.pred hc hq hjq hnextj hi0
  obtain rfl : q = p := hL.disjoint q hq p hp i (by simp [hsplit]) hi
  rw [hsplit] at hlink hqueue
  have hnd' := List.nodup_append.mp hqueue.nodup
  have hij : i ≠ j := by
    rintro rfl
    exact (List.nodup_cons.mp hnd'.2.1).1 (by simp)
  have hi₁ : i ∉ l₁ := fun h => hnd'.2.2 i h i (by simp) rfl
  have hassoc : l₁ ++ j :: i :: l₂ = (l₁ ++ [j]) ++ i :: l₂ := by simp
  have htail : s.readyQueueTail q = i ↔ l₂ = [] := (hassoc ▸ hqueue).tail_eq_iff (l₁ ++ [j])
  have hj₁ : ∀ a ∈ l₁ ++ l₂, a ≠ j := by
    intro a ha haj
    rcases List.mem_append.mp ha with h | h
    · exact hnd'.2.2 a h j (by simp) haj
    · exact (List.nodup_cons.mp hnd'.2.1).1 (by simp [← haj, h])
  have herase : (L q).erase i = l₁ ++ j :: l₂ := by
    rw [hsplit, List.erase_append_right _ hi₁, List.erase_cons_tail (by simpa using Ne.symm hij),
      List.erase_cons_head]
  have hlink' : Linked 0 (s.setNext j (s.next i)).next (s.readyQueueHead q) (l₁ ++ j :: l₂) := by
    refine hlink.bypass ?_ fun a ha => ?_
    · rw [setNext_next, Function.update_self]
    · rw [setNext_next, Function.update_of_ne (hj₁ a ha)]
  have hsub : ∀ a ∈ l₁ ++ j :: l₂, a ∈ L q := by
    intro a ha
    rw [hsplit]
    simp only [List.mem_append, List.mem_cons] at ha ⊢
    tauto
  have hnext : ∀ r ≤ TASK_PRIORITY_MAX, r ≠ q → ∀ a ∈ L r,
      (s.setNext j (s.next i)).next a = s.next a := by
    intro r hr hrq a ha
    rw [setNext_next, Function.update_of_ne]
    rintro rfl
    exact hrq (hL.disjoint r hr q hq a ha hjq)
  unfold unlink
  rw [if_neg hhead, hj, herase]
  dsimp only
  rw [setNext_tail]
  by_cases ht : s.readyQueueTail q = i
  · -- the last slot: the predecessor becomes the tail
    rw [if_pos ht]
    refine hL.replace hc hq ?_ ?_ hsub ?_ ?_ ?_
    · exact hlink'
    · rw [setTail_tail, Function.update_self, htail.mp ht, List.getLastD_concat]
    · intro r _
      rfl
    · intro r hrq
      rw [setTail_tail, Function.update_of_ne hrq, setNext_tail]
    · exact hnext
  · rw [if_neg ht]
    refine hL.replace hc hq hlink' ?_ hsub (fun _ _ => rfl) (fun _ _ => rfl) hnext
    have hne : l₂ ≠ [] := fun h => ht (htail.mpr h)
    have hbefore : l₁ ++ j :: l₂ = (l₁ ++ [j]) ++ l₂ := by simp
    have hthrough : l₁ ++ j :: i :: l₂ = (l₁ ++ [j, i]) ++ l₂ := by simp
    rw [setNext_tail, ← hqueue.getLastD, hbefore, hthrough, getLastD_append_right _ hne 0 0,
      getLastD_append_right _ hne 0 0]

/-- For a queued slot the removal code takes exactly that slot off, provided
it is the head of its queue or the scan finds a queued slot. -/
theorem Links.unlink_queued (hL : Links s L) (hc : Closed s)
    (hp : p ≤ TASK_PRIORITY_MAX) (hi : i ∈ L p)
    (hgood : s.readyQueueHead p = i ∨
      ∃ j, firstSlot (fun j => (s.tasks j).next == i) = some j ∧
        ∃ q ≤ TASK_PRIORITY_MAX, j ∈ L q) :
    Links (unlink s p i) (Function.update L p ((L p).erase i)) ∧ Closed (unlink s p i) := by
  by_cases hhead : s.readyQueueHead p = i
  · exact hL.unlink_head hc hp hi hhead
  · obtain ⟨j, hj, q, hq, hjq⟩ := hgood.resolve_left hhead
    exact hL.unlink_inner hc hp hi hhead hj hq hjq

end Unlink

end AegisKernel.Sched
