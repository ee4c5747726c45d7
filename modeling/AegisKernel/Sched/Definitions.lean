import AegisKernel.Library.Runs
import AegisKernel.Library.Links

/-!
# Scheduler — executable model of `kernel/src/sched.c`

The static variables of `sched.c` become one record `State`; every function
becomes a function on it. Task ids, slots, priorities and times are natural
numbers: the only arithmetic on them is `task_counter++`, which runs at most
63 times, and the guarded `wake_time--`.

* `tasks` and the queue arrays are total functions; the code only ever uses
  the indices `0 … TASK_MAX - 1` and `0 … TASK_PRIORITY_MAX`.
* `regs` and the stack bytes of `task_t` are left out: `sched.c` never reads
  them. `tasksAddr` is the address of `tasks[0]`, chosen by the linker.
* The inline assembly of `task_yield` and `task_sleep` stores the stack
  pointer in the old task's `stack_top` and loads the new task's; the value
  stored is the argument `rsp`. The one of `sched_start` only loads.
* Console output is left out.
-/

namespace AegisKernel.Sched

open Library

def TASK_MAX : Nat := 64
def TASK_STACK_SIZE : Nat := 4096
def TASK_PRIORITY_NORMAL : Nat := 1
def TASK_PRIORITY_MAX : Nat := 2

/-- `sizeof(task_t)` and the offset of its `stack` array on x86-64. -/
def TASK_SIZE : Nat := 4312
def TASK_STACK_OFFSET : Nat := 172

/-- `task_state_t` -/
inductive TaskState
  | empty
  | ready
  | running
  | blocked
  | terminated
deriving DecidableEq, Repr

/-- `task_t` -/
structure Task where
  id : Nat
  state : TaskState
  stackTop : Nat
  next : Nat
  wakeTime : Nat
  entry : Nat
  priority : Nat
deriving DecidableEq, Repr

/-- The static variables of `sched.c`. -/
structure State where
  tasks : Nat → Task
  currentTask : Nat
  readyQueueHead : Nat → Nat
  readyQueueTail : Nat → Nat
  taskCounter : Nat
  schedulerRunning : Bool
  tasksAddr : Nat

namespace State

variable (s : State)

/-- The link function the ready queues share. -/
def next (i : Nat) : Nat := (s.tasks i).next

def setTask (i : Nat) (f : Task → Task) : State :=
  { s with tasks := Function.update s.tasks i (f (s.tasks i)) }

def setNext (i n : Nat) : State := s.setTask i fun t => { t with next := n }

def setHead (p i : Nat) : State :=
  { s with readyQueueHead := Function.update s.readyQueueHead p i }

def setTail (p i : Nat) : State :=
  { s with readyQueueTail := Function.update s.readyQueueTail p i }

end State

/-- `for (int i = 1; i < TASK_MAX; i++) if (p(i)) …; break;` — the first slot
the loop stops at. -/
def firstSlot (p : Nat → Bool) : Option Nat := (List.range' 1 (TASK_MAX - 1)).find? p

/-! ## The queue code the functions share -/

/-- Append slot `i` to ready queue `p`: an empty queue becomes `i`, otherwise
the last slot is linked to `i`. -/
def enqueue (s : State) (p i : Nat) : State :=
  if s.readyQueueHead p = 0 then
    (s.setHead p i).setTail p i
  else
    (s.setNext (s.readyQueueTail p) i).setTail p i

/-- Make the first slot of ready queue `p` current and take it off the queue.
Its own `next` stays as it is. -/
def dispatch (s : State) (p : Nat) : State :=
  let s₁ := { s with currentTask := s.readyQueueHead p }
  let s₂ := s₁.setHead p (s.next (s.readyQueueHead p))
  if s₂.readyQueueHead p = 0 then s₂.setTail p 0 else s₂

/-! ## The functions of `sched.c` -/

/-- `sched_init`; `next`, `wake_time`, `entry` and `stack_top` keep their old
values. -/
def schedInit (s : State) : State :=
  { s with
    tasks := fun i =>
      if i < TASK_MAX then
        { s.tasks i with id := 0, state := .empty, priority := TASK_PRIORITY_NORMAL }
      else s.tasks i
    currentTask := 0
    readyQueueHead := fun p => if p ≤ TASK_PRIORITY_MAX then 0 else s.readyQueueHead p
    readyQueueTail := fun p => if p ≤ TASK_PRIORITY_MAX then 0 else s.readyQueueTail p
    taskCounter := 1
    schedulerRunning := false }

/-- `if (priority > TASK_PRIORITY_MAX) priority = TASK_PRIORITY_MAX;` -/
def clampPriority (priority : Nat) : Nat :=
  if priority > TASK_PRIORITY_MAX then TASK_PRIORITY_MAX else priority

/-- `(uint64_t)&tasks[slot].stack[TASK_STACK_SIZE - 16]`, rounded down to 16. -/
def initialStackTop (s : State) (slot : Nat) : Nat :=
  (s.tasksAddr + slot * TASK_SIZE + TASK_STACK_OFFSET + (TASK_STACK_SIZE - 16)) / 16 * 16

/-- `task_create_priority`; `entry = 0` is the NULL function. The result is the
new task's id, or 0. -/
def taskCreatePriority (s : State) (entry priority : Nat) : Nat × State :=
  if entry = 0 then (0, s)
  else
    let priority := clampPriority priority
    match firstSlot fun i => (s.tasks i).state == .empty with
    | none => (0, s)
    | some slot =>
      let id := s.taskCounter
      let s₁ := { s with taskCounter := s.taskCounter + 1 }
      let s₂ := s₁.setTask slot fun t =>
        { t with id := id, state := .ready, entry := entry,
                 stackTop := initialStackTop s slot, next := 0, wakeTime := 0,
                 priority := priority }
      (id, enqueue s₂ priority slot)

/-- `task_create` -/
def taskCreate (s : State) (entry : Nat) : Nat × State :=
  taskCreatePriority s entry TASK_PRIORITY_NORMAL

/-- "Remove from old priority queue": the head of the queue is dropped, any
other slot is bypassed at the first slot whose `next` names it. -/
def unlink (s : State) (oldPrio i : Nat) : State :=
  if s.readyQueueHead oldPrio = i then
    let s₁ := s.setHead oldPrio (s.next i)
    if s₁.readyQueueTail oldPrio = i then s₁.setTail oldPrio 0 else s₁
  else
    match firstSlot fun j => (s.tasks j).next == i with
    | none => s
    | some j =>
      let s₁ := s.setNext j (s.next i)
      if s₁.readyQueueTail oldPrio = i then s₁.setTail oldPrio j else s₁

/-- `task_set_priority` -/
def taskSetPriority (s : State) (id priority : Nat) : State :=
  let priority := clampPriority priority
  match firstSlot fun i => (s.tasks i).id == id with
  | none => s
  | some i =>
    let oldPrio := (s.tasks i).priority
    if oldPrio = priority then s
    else
      -- the removal is tried whether or not the task is on a queue
      let s₁ := unlink s oldPrio i
      let s₂ := s₁.setTask i fun t => { t with priority := priority }
      -- `next` is cleared last, after the append
      (enqueue s₂ priority i).setNext i 0

/-- `task_yield` -/
def taskYield (s : State) (rsp : Nat) : State :=
  if s.schedulerRunning = false ∨ s.currentTask = 0 then s
  else
    let prio := (s.tasks s.currentTask).priority
    if s.readyQueueHead prio = 0 then s
    else
      let old := s.currentTask
      let s₁ := dispatch s prio
      -- only a RUNNING task goes back on its queue; the task switched to keeps
      -- its state
      let s₂ :=
        if (s₁.tasks old).state = .running then
          enqueue (s₁.setTask old fun t => { t with state := .ready, next := 0 }) prio old
        else s₁
      s₂.setTask old fun t => { t with stackTop := rsp }

/-- `task_sleep` -/
def taskSleep (s : State) (ms rsp : Nat) : State :=
  if s.schedulerRunning = false ∨ s.currentTask = 0 then s
  else
    let old := s.currentTask
    let s₁ := s.setTask old fun t => { t with state := .blocked, wakeTime := ms }
    let prio := (s₁.tasks old).priority
    -- with nobody to switch to, the sleeper stays the current task
    if s₁.readyQueueHead prio = 0 then s₁
    else (dispatch s₁ prio).setTask old fun t => { t with stackTop := rsp }

/-- `task_wake` -/
def taskWake (s : State) (id : Nat) : State :=
  match firstSlot fun i => (s.tasks i).id == id && (s.tasks i).state == .blocked with
  | none => s
  | some i =>
    let s₁ := s.setTask i fun t => { t with state := .ready, wakeTime := 0, next := 0 }
    enqueue s₁ (s₁.tasks i).priority i

/-- The body of the loop of `sched_tick`. -/
def tickSlot (s : State) (i : Nat) : State :=
  if (s.tasks i).state = .blocked ∧ (s.tasks i).wakeTime > 0 then
    -- woken by id: `task_wake` searches the table again
    if (s.tasks i).wakeTime ≤ 1 then taskWake s (s.tasks i).id
    else s.setTask i fun t => { t with wakeTime := t.wakeTime - 1 }
  else s

/-- `sched_tick` -/
def schedTick (s : State) : State := (List.range' 1 (TASK_MAX - 1)).foldl tickSlot s

/-- `sched_current` -/
def schedCurrent (s : State) : Nat :=
  if s.currentTask ≠ 0 then (s.tasks s.currentTask).id else 0

/-- `for (int p = TASK_PRIORITY_MAX; p >= 0; p--)`: the highest non-empty queue. -/
def highestPrio (s : State) : Option Nat :=
  (List.range (TASK_PRIORITY_MAX + 1)).reverse.find? fun p => s.readyQueueHead p != 0

/-- `sched_start` -/
def schedStart (s : State) : State :=
  match highestPrio s with
  | none => s
  | some p =>
    let s₁ := dispatch { s with schedulerRunning := true } p
    -- the only place that makes a task RUNNING
    s₁.setTask s₁.currentTask fun t => { t with state := .running }

/-! ## The scheduler as a state machine -/

/-- A call into the scheduler. -/
inductive Op
  | taskCreatePriority (entry priority : Nat)
  | taskSetPriority (id priority : Nat)
  | schedStart
  | taskYield (rsp : Nat)
  | taskSleep (ms rsp : Nat)
  | taskWake (id : Nat)
  | schedTick
deriving DecidableEq, Repr

def step (s : State) : Op → State
  | .taskCreatePriority entry priority => (taskCreatePriority s entry priority).2
  | .taskSetPriority id priority => taskSetPriority s id priority
  | .schedStart => schedStart s
  | .taskYield rsp => taskYield s rsp
  | .taskSleep ms rsp => taskSleep s ms rsp
  | .taskWake id => taskWake s id
  | .schedTick => schedTick s

/-- The zero-initialised static data of the boot image. -/
def bootImage (tasksAddr : Nat) : State where
  tasks := fun _ =>
    { id := 0, state := .empty, stackTop := 0, next := 0, wakeTime := 0, entry := 0,
      priority := 0 }
  currentTask := 0
  readyQueueHead := fun _ => 0
  readyQueueTail := fun _ => 0
  taskCounter := 1
  schedulerRunning := false
  tasksAddr := tasksAddr

/-- The state right after `sched_init` on the boot image. -/
def initial (tasksAddr : Nat) : State := schedInit (bootImage tasksAddr)

end AegisKernel.Sched
