import AegisKernel.Library.Checked
import AegisKernel.Sched.Chains

/-!
# Scheduler — every index stays in its array

The functions of `sched.c` again, with every access to an array as the code makes it:
one outside `tasks`, outside the queue arrays or outside a task's stack has no result.
They always have one, whatever the calls were (`Checked.run_eq`): the links may be stale
or form a cycle, but they never leave the table.

* `Checked.step s op` — one call; where it has a result, that is `step s op`.
* `Bounded s` — the queue pointers, the links and the current task are indices of
  `tasks`, and the priorities are indices of the queue arrays. Every call keeps it.
-/

namespace AegisKernel.Sched

open Library

namespace Checked

-- ---------------------------------------------------------------------------
-- Accesses
-- ---------------------------------------------------------------------------

/-- `tasks[i]` -/
def task (s : State) (i : Nat) : Option Task := if i < TASK_MAX then some (s.tasks i) else none

/-- `ready_queue_head[p]` -/
def head (s : State) (p : Nat) : Option Nat :=
  if p ≤ TASK_PRIORITY_MAX then some (s.readyQueueHead p) else none

/-- `ready_queue_tail[p]` -/
def tail (s : State) (p : Nat) : Option Nat :=
  if p ≤ TASK_PRIORITY_MAX then some (s.readyQueueTail p) else none

def setTask (s : State) (i : Nat) (f : Task → Task) : Option State :=
  if i < TASK_MAX then some (s.setTask i f) else none

def setHead (s : State) (p i : Nat) : Option State :=
  if p ≤ TASK_PRIORITY_MAX then some (s.setHead p i) else none

def setTail (s : State) (p i : Nat) : Option State :=
  if p ≤ TASK_PRIORITY_MAX then some (s.setTail p i) else none

/-- `size` bytes of a task's `stack`. -/
def stackBytes (offset size : Nat) : Option Unit :=
  if offset + size ≤ TASK_STACK_SIZE then some () else none

/-- `for (int i = 1; i < TASK_MAX; i++) if (q(tasks[i])) …; break;` -/
def firstSlot (s : State) (q : Task → Bool) : Option (Option Nat) :=
  (List.range' 1 (TASK_MAX - 1)).findM? fun i => q <$> task s i

-- ---------------------------------------------------------------------------
-- The functions of `sched.c`
-- ---------------------------------------------------------------------------

def enqueue (s : State) (p i : Nat) : Option State := do
  if (← head s p) = 0 then
    setTail (← setHead s p i) p i
  else
    setTail (← setTask s (← tail s p) fun t => { t with next := i }) p i

def dispatch (s : State) (p : Nat) : Option State := do
  let s₁ := { s with currentTask := ← head s p }
  let s₂ ← setHead s₁ p (← task s₁ (← head s₁ p)).next
  if (← head s₂ p) = 0 then setTail s₂ p 0 else some s₂

/-- `task_create_priority` -/
def taskCreatePriority (s : State) (entry priority : Nat) : Option (Nat × State) := do
  if entry = 0 then some (0, s)
  else
    let priority := clampPriority priority
    match ← firstSlot s fun t => t.state == .empty with
    | none => some (0, s)
    | some slot =>
      let id := s.taskCounter
      let s₁ := { s with taskCounter := s.taskCounter + 1 }
      stackBytes (TASK_STACK_SIZE - 16) 1
      let s₂ ← setTask s₁ slot fun t =>
        { t with id := id, state := .ready, entry := entry,
                 stackTop := initialStackTop s slot, next := 0, wakeTime := 0,
                 priority := priority }
      -- the first 16 words of the stack are cleared
      (List.range 16).forM fun i => stackBytes (8 * i) 8
      let s₃ ← enqueue s₂ (← task s₂ slot).priority slot
      some (id, s₃)

/-- "Remove from old priority queue". -/
def unlink (s : State) (oldPrio i : Nat) : Option State := do
  if (← head s oldPrio) = i then
    let s₁ ← setHead s oldPrio (← task s i).next
    if (← tail s₁ oldPrio) = i then setTail s₁ oldPrio 0 else some s₁
  else
    match ← firstSlot s fun t => t.next == i with
    | none => some s
    | some j =>
      let next := (← task s i).next
      let s₁ ← setTask s j fun t => { t with next := next }
      if (← tail s₁ oldPrio) = i then setTail s₁ oldPrio j else some s₁

/-- `task_set_priority` -/
def taskSetPriority (s : State) (id priority : Nat) : Option State := do
  let priority := clampPriority priority
  match ← firstSlot s fun t => t.id == id with
  | none => some s
  | some i =>
    let oldPrio := (← task s i).priority
    if oldPrio = priority then some s
    else
      let s₁ ← unlink s oldPrio i
      let s₂ ← setTask s₁ i fun t => { t with priority := priority }
      let s₃ ← enqueue s₂ priority i
      setTask s₃ i fun t => { t with next := 0 }

/-- `task_yield` -/
def taskYield (s : State) (rsp : Nat) : Option State := do
  if s.schedulerRunning = false ∨ s.currentTask = 0 then some s
  else
    let prio := (← task s s.currentTask).priority
    if (← head s prio) = 0 then some s
    else
      let old := s.currentTask
      let s₁ ← dispatch s prio
      let state := (← task s₁ old).state
      let s₂ ← (
        if state = .running then do
          enqueue (← setTask s₁ old fun t => { t with state := .ready, next := 0 }) prio old
        else some s₁)
      -- the stack pointer of the task switched to is loaded
      let _ ← task s₂ s₂.currentTask
      setTask s₂ old fun t => { t with stackTop := rsp }

/-- `task_sleep` -/
def taskSleep (s : State) (ms rsp : Nat) : Option State := do
  if s.schedulerRunning = false ∨ s.currentTask = 0 then some s
  else
    let old := s.currentTask
    let s₁ ← setTask s old fun t => { t with state := .blocked, wakeTime := ms }
    if (← head s₁ (← task s₁ old).priority) = 0 then some s₁
    else
      let s₂ ← dispatch s₁ (← task s₁ old).priority
      let _ ← task s₂ s₂.currentTask
      setTask s₂ old fun t => { t with stackTop := rsp }

/-- `task_wake` -/
def taskWake (s : State) (id : Nat) : Option State := do
  match ← firstSlot s fun t => t.id == id && t.state == .blocked with
  | none => some s
  | some i =>
    let s₁ ← setTask s i fun t => { t with state := .ready, wakeTime := 0, next := 0 }
    enqueue s₁ (← task s₁ i).priority i

/-- The body of the loop of `sched_tick`. -/
def tickSlot (s : State) (i : Nat) : Option State := do
  let t ← task s i
  if t.state = .blocked ∧ t.wakeTime > 0 then
    if t.wakeTime ≤ 1 then taskWake s t.id
    else setTask s i fun t => { t with wakeTime := t.wakeTime - 1 }
  else some s

/-- `sched_tick` -/
def schedTick (s : State) : Option State := (List.range' 1 (TASK_MAX - 1)).foldlM tickSlot s

/-- `sched_current` -/
def schedCurrent (s : State) : Option Nat := do
  if s.currentTask ≠ 0 then some (← task s s.currentTask).id else some 0

/-- `for (int p = TASK_PRIORITY_MAX; p >= 0; p--)` -/
def highestPrio (s : State) : Option (Option Nat) :=
  (List.range (TASK_PRIORITY_MAX + 1)).reverse.findM? fun p => (· != 0) <$> head s p

/-- `sched_start` -/
def schedStart (s : State) : Option State := do
  match ← highestPrio s with
  | none => some s
  | some p =>
    let s₁ ← dispatch { s with schedulerRunning := true } p
    let s₂ ← setTask s₁ s₁.currentTask fun t => { t with state := .running }
    -- its stack pointer is loaded, and its entry called
    let _ ← task s₂ s₂.currentTask
    some s₂

def step (s : State) : Op → Option State
  | .taskCreatePriority entry priority => Prod.snd <$> taskCreatePriority s entry priority
  | .taskSetPriority id priority => taskSetPriority s id priority
  | .schedStart => schedStart s
  | .taskYield rsp => taskYield s rsp
  | .taskSleep ms rsp => taskSleep s ms rsp
  | .taskWake id => taskWake s id
  | .schedTick => schedTick s

end Checked

/-- Whatever is used for an index is one. -/
structure Bounded (s : State) : Prop where
  head : ∀ p ≤ TASK_PRIORITY_MAX, s.readyQueueHead p < TASK_MAX
  tail : ∀ p ≤ TASK_PRIORITY_MAX, s.readyQueueTail p < TASK_MAX
  next : ∀ i < TASK_MAX, s.next i < TASK_MAX
  current : s.currentTask < TASK_MAX
  priority : ∀ i < TASK_MAX, (s.tasks i).priority ≤ TASK_PRIORITY_MAX

-- ---------------------------------------------------------------------------
-- Single accesses
-- ---------------------------------------------------------------------------

section Accesses

variable {s : State} {i p : Nat} {f : Task → Task}

theorem zero_lt_taskMax : 0 < TASK_MAX := by decide

theorem Checked.task_eq (hi : i < TASK_MAX) : Checked.task s i = some (s.tasks i) := if_pos hi

theorem Checked.head_eq (hp : p ≤ TASK_PRIORITY_MAX) :
    Checked.head s p = some (s.readyQueueHead p) := if_pos hp

theorem Checked.tail_eq (hp : p ≤ TASK_PRIORITY_MAX) :
    Checked.tail s p = some (s.readyQueueTail p) := if_pos hp

theorem Checked.firstSlot_eq (s : State) (q : Task → Bool) :
    Checked.firstSlot s q = some (Sched.firstSlot fun i => q (s.tasks i)) := by
  refine findM?_eq_some fun i hi => ?_
  rw [Checked.task_eq (mem_slots.mp hi).2]
  rfl

theorem Checked.highestPrio_eq (s : State) :
    Checked.highestPrio s = some (Sched.highestPrio s) := by
  refine findM?_eq_some fun p hp => ?_
  have hlt := List.mem_range.mp (List.mem_reverse.mp hp)
  rw [Checked.head_eq (by omega)]
  rfl

theorem Bounded.setHead (h : Bounded s) (hp : p ≤ TASK_PRIORITY_MAX) (hi : i < TASK_MAX) :
    Safe Bounded (Checked.setHead s p i) (s.setHead p i) := by
  refine ⟨if_pos hp, fun q hq => ?_, h.tail, h.next, h.current, h.priority⟩
  rw [setHead_head, Function.update_apply]
  split
  · exact hi
  · exact h.head q hq

theorem Bounded.setTail (h : Bounded s) (hp : p ≤ TASK_PRIORITY_MAX) (hi : i < TASK_MAX) :
    Safe Bounded (Checked.setTail s p i) (s.setTail p i) := by
  refine ⟨if_pos hp, h.head, fun q hq => ?_, h.next, h.current, h.priority⟩
  rw [setTail_tail, Function.update_apply]
  split
  · exact hi
  · exact h.tail q hq

theorem Bounded.setTask (h : Bounded s) (hi : i < TASK_MAX)
    (hnext : (f (s.tasks i)).next < TASK_MAX)
    (hprio : (f (s.tasks i)).priority ≤ TASK_PRIORITY_MAX) :
    Safe Bounded (Checked.setTask s i f) (s.setTask i f) := by
  refine ⟨if_pos hi, h.head, h.tail, fun j hj => ?_, h.current, fun j hj => ?_⟩
  · rw [setTask_next, Function.update_apply]
    split
    · exact hnext
    · exact h.next j hj
  · rw [setTask_tasks]
    by_cases hji : j = i
    · subst hji
      rw [Function.update_self]
      exact hprio
    · rw [Function.update_of_ne hji]
      exact h.priority j hj

end Accesses

-- ---------------------------------------------------------------------------
-- The queue code
-- ---------------------------------------------------------------------------

section Queues

variable {s : State} {i p : Nat}

theorem Bounded.enqueue (h : Bounded s) (hp : p ≤ TASK_PRIORITY_MAX) (hi : i < TASK_MAX) :
    Safe Bounded (Checked.enqueue s p i) (enqueue s p i) := by
  refine .read (Checked.head_eq hp) (.ite (fun _ => ?_) fun _ => ?_)
  · exact (h.setHead hp hi).bind fun h₁ => h₁.setTail hp hi
  · have ht := h.tail p hp
    refine .read (Checked.tail_eq hp) ?_
    exact (h.setTask ht hi (h.priority _ ht)).bind fun h₁ => h₁.setTail hp hi

theorem Bounded.dispatch (h : Bounded s) (hp : p ≤ TASK_PRIORITY_MAX) :
    Safe Bounded (Checked.dispatch s p) (dispatch s p) := by
  have hfirst := h.head p hp
  have h₁ : Bounded { s with currentTask := s.readyQueueHead p } :=
    ⟨h.head, h.tail, h.next, hfirst, h.priority⟩
  refine .read (Checked.head_eq hp) (.read (Checked.head_eq hp) (.read (Checked.task_eq hfirst) ?_))
  refine (h₁.setHead hp (h.next _ hfirst)).bind fun h₂ => ?_
  exact .read (Checked.head_eq hp) (.ite (fun _ => h₂.setTail hp zero_lt_taskMax) fun _ => .pure h₂)

theorem Bounded.unlink (h : Bounded s) (hp : p ≤ TASK_PRIORITY_MAX) (hi : i < TASK_MAX) :
    Safe Bounded (Checked.unlink s p i) (unlink s p i) := by
  refine .read (Checked.head_eq hp) (.ite (fun _ => .read (Checked.task_eq hi) ?_) fun _ => ?_)
  · refine (h.setHead hp (h.next i hi)).bind fun h₁ => .read (Checked.tail_eq hp) ?_
    exact .ite (fun _ => h₁.setTail hp zero_lt_taskMax) fun _ => .pure h₁
  · refine .read (Checked.firstSlot_eq s _) ?_
    rcases hfind : firstSlot fun j => (s.tasks j).next == i with _ | j
    · exact .pure h
    · have hj := (firstSlot_eq_some hfind).1.2
      refine .read (Checked.task_eq hi) ?_
      refine (h.setTask hj (h.next i hi) (h.priority j hj)).bind fun h₁ => ?_
      exact .read (Checked.tail_eq hp) (.ite (fun _ => h₁.setTail hp hj) fun _ => .pure h₁)

end Queues

-- ---------------------------------------------------------------------------
-- The calls
-- ---------------------------------------------------------------------------

section Calls

variable {s : State}

theorem Bounded.taskCreatePriority (h : Bounded s) (entry priority : Nat) :
    Safe (fun r => Bounded r.2) (Checked.taskCreatePriority s entry priority)
      (taskCreatePriority s entry priority) := by
  refine .ite (fun _ => .pure h) fun _ => ?_
  dsimp only
  refine .read (Checked.firstSlot_eq s _) ?_
  rcases hfind : firstSlot fun i => (s.tasks i).state == .empty with _ | slot
  · exact .pure h
  · have hslot := (firstSlot_eq_some hfind).1.2
    have h₁ : Bounded { s with taskCounter := s.taskCounter + 1 } :=
      ⟨h.head, h.tail, h.next, h.current, h.priority⟩
    have hp := clampPriority_le priority
    have h₂ := h₁.setTask (f := fresh s slot entry (clampPriority priority)) hslot
      zero_lt_taskMax hp
    have h₃ := h₂.inv.enqueue hp hslot
    -- the accesses to the stack depend on nothing
    refine .read (b := ()) rfl (.read h₂.eq (.read (b := ()) rfl ?_))
    refine .read (Checked.task_eq hslot) ?_
    rw [setTask_tasks, Function.update_self]
    exact .read h₃.eq (.pure h₃.inv)

theorem Bounded.taskSetPriority (h : Bounded s) (id priority : Nat) :
    Safe Bounded (Checked.taskSetPriority s id priority) (taskSetPriority s id priority) := by
  have hp := clampPriority_le priority
  unfold Checked.taskSetPriority Sched.taskSetPriority
  dsimp only
  refine .read (Checked.firstSlot_eq s _) ?_
  rcases hfind : firstSlot fun i => (s.tasks i).id == id with _ | i
  · exact .pure h
  · have hi := (firstSlot_eq_some hfind).1.2
    refine .read (Checked.task_eq hi) (.ite (fun _ => .pure h) fun _ => ?_)
    refine (h.unlink (h.priority i hi) hi).bind fun h₁ => ?_
    refine (h₁.setTask hi (h₁.next i hi) hp).bind fun h₂ => ?_
    exact (h₂.enqueue hp hi).bind fun h₃ => h₃.setTask hi zero_lt_taskMax (h₃.priority i hi)

theorem Bounded.taskYield (h : Bounded s) (rsp : Nat) :
    Safe Bounded (Checked.taskYield s rsp) (taskYield s rsp) := by
  have hold := h.current
  refine .ite (fun _ => .pure h) fun _ => .read (Checked.task_eq hold) ?_
  have hp := h.priority _ hold
  refine .read (Checked.head_eq hp) (.ite (fun _ => .pure h) fun _ => ?_)
  refine (h.dispatch hp).bind fun h₁ => .read (Checked.task_eq hold) ?_
  -- the old task, READY again, joins its queue
  have hready := h₁.setTask (f := readied) hold zero_lt_taskMax (h₁.priority _ hold)
  have hback := hready.inv.enqueue hp hold
  refine .bind (.ite (fun _ => hready.bind fun _ => hback) fun _ => .pure h₁) fun h₂ => ?_
  refine .read (Checked.task_eq h₂.current) ?_
  exact h₂.setTask hold (h₂.next _ hold) (h₂.priority _ hold)

theorem Bounded.taskSleep (h : Bounded s) (ms rsp : Nat) :
    Safe Bounded (Checked.taskSleep s ms rsp) (taskSleep s ms rsp) := by
  have hold := h.current
  refine .ite (fun _ => .pure h) fun _ => ?_
  refine (h.setTask hold (h.next _ hold) (h.priority _ hold)).bind fun h₁ => ?_
  have hp := h₁.priority _ hold
  refine .read (Checked.task_eq hold) (.read (Checked.head_eq hp) (.ite (fun _ => .pure h₁) ?_))
  refine fun _ => .read (Checked.task_eq hold) ((h₁.dispatch hp).bind fun h₂ => ?_)
  refine .read (Checked.task_eq h₂.current) ?_
  exact h₂.setTask hold (h₂.next _ hold) (h₂.priority _ hold)

theorem Bounded.taskWake (h : Bounded s) (id : Nat) :
    Safe Bounded (Checked.taskWake s id) (taskWake s id) := by
  unfold Checked.taskWake Sched.taskWake
  refine .read (Checked.firstSlot_eq s _) ?_
  rcases hfind : firstSlot fun i => (s.tasks i).id == id && (s.tasks i).state == .blocked with _ | i
  · exact .pure h
  · have hi := (firstSlot_eq_some hfind).1.2
    refine (h.setTask hi zero_lt_taskMax (h.priority i hi)).bind fun h₁ => ?_
    exact .read (Checked.task_eq hi) (h₁.enqueue (h₁.priority i hi) hi)

theorem Bounded.tickSlot (h : Bounded s) {i : Nat} (hi : i < TASK_MAX) :
    Safe Bounded (Checked.tickSlot s i) (tickSlot s i) := by
  refine .read (Checked.task_eq hi) (.ite (fun _ => .ite (fun _ => h.taskWake _) fun _ => ?_)
    fun _ => .pure h)
  exact h.setTask hi (h.next i hi) (h.priority i hi)

theorem Bounded.schedTick (h : Bounded s) : Safe Bounded (Checked.schedTick s) (schedTick s) := by
  exact Safe.foldlM (fun s h i hi => h.tickSlot (mem_slots.mp hi).2) h

theorem Bounded.schedStart (h : Bounded s) :
    Safe Bounded (Checked.schedStart s) (schedStart s) := by
  unfold Checked.schedStart Sched.schedStart
  refine .read (Checked.highestPrio_eq s) ?_
  rcases hfind : highestPrio s with _ | p
  · exact .pure h
  · have hp := (highestPrio_eq_some hfind).1
    have h₁ : Bounded { s with schedulerRunning := true } :=
      ⟨h.head, h.tail, h.next, h.current, h.priority⟩
    refine (h₁.dispatch hp).bind fun h₂ => ?_
    have hcur := h₂.current
    refine (h₂.setTask hcur (h₂.next _ hcur) (h₂.priority _ hcur)).bind fun h₃ => ?_
    exact .read (Checked.task_eq h₃.current) (.pure h₃)

/-- A call, in whatever order the queues are. -/
theorem Bounded.step (h : Bounded s) (op : Op) : Safe Bounded (Checked.step s op) (step s op) := by
  cases op with
  | taskCreatePriority entry priority =>
    have hcreate := h.taskCreatePriority entry priority
    exact ⟨by rw [Checked.step, hcreate.eq]; rfl, hcreate.inv⟩
  | taskSetPriority id priority => exact h.taskSetPriority id priority
  | schedStart => exact h.schedStart
  | taskYield rsp => exact h.taskYield rsp
  | taskSleep ms rsp => exact h.taskSleep ms rsp
  | taskWake id => exact h.taskWake id
  | schedTick => exact h.schedTick

theorem Bounded.schedCurrent (h : Bounded s) :
    Checked.schedCurrent s = some (schedCurrent s) := by
  rw [Checked.schedCurrent, Checked.task_eq h.current, Sched.schedCurrent]
  split <;> rfl

theorem bounded_initial (tasksAddr : Nat) : Bounded (initial tasksAddr) := by
  refine ⟨fun p _ => ?_, fun p _ => ?_, fun i _ => ?_, zero_lt_taskMax, fun i hi => ?_⟩
  · rw [initial_head]
    exact zero_lt_taskMax
  · rw [initial_tail]
    exact zero_lt_taskMax
  · rw [initial_next]
    exact zero_lt_taskMax
  · rw [initial_task _ hi]
    exact Nat.le_succ 1

end Calls

/-- **Indices.** No run accesses anything outside of its arrays. -/
theorem Checked.run_eq (tasksAddr : Nat) (ops : List Op) :
    Safe Bounded (ops.foldlM Checked.step (initial tasksAddr))
      (run Sched.step (initial tasksAddr) ops) :=
  Safe.foldlM (fun _ h op _ => h.step op) (bounded_initial tasksAddr)

end AegisKernel.Sched
