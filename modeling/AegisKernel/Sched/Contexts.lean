import AegisKernel.Sched.Sane
import AegisKernel.Sched.Service

/-!
# Scheduler — the stack pointer of each task

The assembly of `task_yield` and `task_sleep` stores the stack pointer in `stack_top`
of the old task and loads the one of the new task; `sched_start` only loads. A task is
meant not to notice: its stack pointer is to stand where it left it.

The value to load is in a register before the assembly stores. So a task that is
switched to from itself (the sole sleeper of its priority, once the timer has woken it)
gets the pointer of its last suspension, not the one it has.

* `Cpu` — the scheduler with the stack pointer of the machine.
* `Traced` — beside it, where the pointer of each task stood when it last ran.
* `step_same`, `step_created`, `step_switched` — what a call does to what a switch needs.
* `own_pointer_iff` — the stack pointer is always the task's own, exactly when no task
  is switched to from itself with another one than it was suspended with last.
-/

namespace AegisKernel.Sched

open Library

-- ---------------------------------------------------------------------------
-- The machine
-- ---------------------------------------------------------------------------

/-- The scheduler, and the stack pointer. -/
structure Cpu where
  sched : State
  rsp : Nat

/-- What the CPU does: the running code moves its stack pointer, or calls the scheduler. -/
inductive Action
  | move (rsp : Nat)
  | call (op : Op)

/-- A call, with the stack pointer its assembly stores. -/
def Op.saving (rsp : Nat) : Op → Op
  | .taskYield _ => .taskYield rsp
  | .taskSleep ms _ => .taskSleep ms rsp
  | op => op

def State.top (s : State) (i : Nat) : Nat := (s.tasks i).stackTop

/-- The stack pointer after the assembly; the one of `sched_start` calls the entry, which
pushes the return address. -/
def loaded (op : Op) (top : Nat) : Nat :=
  match op with
  | .schedStart => top - 8
  | _ => top

def Cpu.step (m : Cpu) : Action → Cpu
  | .move rsp => { m with rsp := rsp }
  | .call op =>
    let sched := Sched.step m.sched (op.saving m.rsp)
    match switchQueue m.sched op with
    | none => { m with sched := sched }
    -- what is loaded was read before the store
    | some p => ⟨sched, loaded op (m.sched.top (m.sched.readyQueueHead p))⟩

/-- The slot that `task_create_priority` fills. -/
def newSlot (s : State) : Op → Option Nat
  | .taskCreatePriority entry _ =>
    if entry = 0 then none else firstSlot fun i => (s.tasks i).state == .empty
  | _ => none

/-- The machine, and for each task where its stack pointer stood when it last ran. -/
structure Traced where
  cpu : Cpu
  own : Nat → Nat

/-- The pointer of a task moves when its code moves it, and when it is started; a new
task has the one its `stack_top` is set to. -/
def Traced.trace (t : Traced) : Action → Nat → Nat
  | .move rsp =>
    if t.cpu.sched.schedulerRunning then Function.update t.own t.cpu.sched.currentTask rsp
    else t.own
  | .call op =>
    match newSlot t.cpu.sched op, op, switchQueue t.cpu.sched op with
    | some slot, _, _ => Function.update t.own slot (initialStackTop t.cpu.sched slot)
    | none, .schedStart, some p =>
      let i := t.cpu.sched.readyQueueHead p
      Function.update t.own i (t.own i - 8)
    | none, _, _ => t.own

def Traced.step (t : Traced) (a : Action) : Traced := ⟨t.cpu.step a, t.trace a⟩

/-- The boot image after `sched_init`, on the boot stack. -/
def Traced.boot (tasksAddr rsp : Nat) : Traced := ⟨⟨initial tasksAddr, rsp⟩, fun _ => 0⟩

-- ---------------------------------------------------------------------------
-- What the calls do
-- ---------------------------------------------------------------------------

/-- Nothing that a switch needs has changed. -/
structure SameContext (s s' : State) : Prop where
  top : s'.top = s.top
  current : s'.currentTask = s.currentTask
  running : s'.schedulerRunning = s.schedulerRunning
  addr : s'.tasksAddr = s.tasksAddr

/-- The assembly has run: it has stored `rsp` for the old task. -/
structure Switched (s s' : State) (target rsp : Nat) : Prop where
  top : s'.top = Function.update s.top s.currentTask rsp
  current : s'.currentTask = target
  running : s'.schedulerRunning = s.schedulerRunning
  addr : s'.tasksAddr = s.tasksAddr

section Calls

variable {s s' s'' : State} {p i : Nat}

theorem SameContext.refl (s : State) : SameContext s s := ⟨rfl, rfl, rfl, rfl⟩

theorem SameContext.trans (h : SameContext s s') (h' : SameContext s' s'') : SameContext s s'' :=
  ⟨h'.top.trans h.top, h'.current.trans h.current, h'.running.trans h.running,
    h'.addr.trans h.addr⟩

theorem SameTasks.top_eq (h : SameTasks s s') : s'.top = s.top := by
  funext i
  rw [State.top, h i]
  rfl

theorem sameContext_setTask {f : Task → Task}
    (hf : (f (s.tasks i)).stackTop = (s.tasks i).stackTop) : SameContext s (s.setTask i f) :=
  ⟨funext (setTask_kept Task.stackTop hf), rfl, rfl, rfl⟩

theorem sameContext_enqueue (s : State) (p i : Nat) : SameContext s (enqueue s p i) := by
  refine ⟨(sameTasks_enqueue s p i).top_eq, enqueue_current s p i, ?_, ?_⟩
  · unfold enqueue
    split
    · rfl
    · rfl
  · unfold enqueue
    split
    · rfl
    · rfl

theorem sameContext_unlink (s : State) (p i : Nat) : SameContext s (unlink s p i) := by
  refine ⟨(sameTasks_unlink s p i).top_eq, unlink_current s p i, unlink_running s p i, ?_⟩
  unfold unlink
  dsimp only
  split
  · split
    · rfl
    · rfl
  · split
    · rfl
    · split
      · rfl
      · rfl

theorem dispatch_addr (s : State) (p : Nat) : (dispatch s p).tasksAddr = s.tasksAddr := by
  unfold dispatch
  dsimp only
  split
  · rfl
  · rfl

theorem sameContext_taskWake (s : State) (id : Nat) : SameContext s (taskWake s id) := by
  unfold taskWake
  split
  · exact .refl s
  · exact (sameContext_setTask rfl).trans (sameContext_enqueue _ _ _)

theorem sameContext_taskSetPriority (s : State) (id priority : Nat) :
    SameContext s (taskSetPriority s id priority) := by
  unfold taskSetPriority
  dsimp only
  split
  · exact .refl s
  · split
    · exact .refl s
    · exact (((sameContext_unlink s _ _).trans (sameContext_setTask rfl)).trans
        (sameContext_enqueue _ _ _)).trans (sameContext_setTask rfl)

theorem sameContext_tickSlot (s : State) (i : Nat) : SameContext s (tickSlot s i) := by
  unfold tickSlot
  split
  · split
    · exact sameContext_taskWake s _
    · exact sameContext_setTask rfl
  · exact .refl s

theorem sameContext_schedTick (s : State) : SameContext s (schedTick s) := by
  unfold schedTick
  induction List.range' 1 (TASK_MAX - 1) generalizing s with
  | nil => exact .refl s
  | cons i is ih => exact (sameContext_tickSlot s i).trans (ih (tickSlot s i))

theorem top_setTop (s : State) (i rsp : Nat) :
    (s.setTask i fun t => { t with stackTop := rsp }).top = Function.update s.top i rsp := by
  funext j
  by_cases hj : j = i
  · subst hj
    simp [State.top]
  · simp [State.top, hj]

theorem switched_taskYield (hrun : s.schedulerRunning = true) (hc0 : s.currentTask ≠ 0)
    (hhead : s.readyQueueHead (s.tasks s.currentTask).priority ≠ 0) (rsp : Nat) :
    Switched s (taskYield s rsp) (s.readyQueueHead (s.tasks s.currentTask).priority) rsp := by
  have hdispatch := (sameTasks_dispatch s (s.tasks s.currentTask).priority).top_eq
  by_cases hst : (s.tasks s.currentTask).state = .running
  · have hback := (sameContext_setTask (f := readied) (i := s.currentTask) rfl).trans
      (sameContext_enqueue ((dispatch s (s.tasks s.currentTask).priority).setTask s.currentTask
        readied) (s.tasks s.currentTask).priority s.currentTask)
    rw [taskYield_eq_of_running hrun hc0 hhead rsp hst]
    refine ⟨?_, hback.current.trans (dispatch_current s _),
      hback.running.trans (dispatch_running s _), hback.addr.trans (dispatch_addr s _)⟩
    rw [top_setTop, hback.top, hdispatch]
  · rw [taskYield_eq_of_not_running hrun hc0 hhead rsp hst]
    refine ⟨?_, dispatch_current s _, dispatch_running s _, dispatch_addr s _⟩
    rw [top_setTop, hdispatch]

theorem switched_taskSleep (hrun : s.schedulerRunning = true) (hc0 : s.currentTask ≠ 0)
    (hhead : s.readyQueueHead (s.tasks s.currentTask).priority ≠ 0) (ms rsp : Nat) :
    Switched s (taskSleep s ms rsp) (s.readyQueueHead (s.tasks s.currentTask).priority) rsp := by
  have hasleep := sameContext_setTask (s := s) (f := asleep ms) (i := s.currentTask) rfl
  have hdispatch := (sameTasks_dispatch (s.setTask s.currentTask (asleep ms))
    (s.tasks s.currentTask).priority).top_eq
  rw [taskSleep_eq_of_switch hrun hc0 hhead]
  refine ⟨?_, dispatch_current _ _, dispatch_running _ _, dispatch_addr _ _⟩
  rw [top_setTop, hdispatch, hasleep.top]

theorem switchQueue_saving (s : State) (op : Op) (rsp : Nat) :
    switchQueue s (op.saving rsp) = switchQueue s op := by
  cases op with
  | taskCreatePriority entry priority => rfl
  | taskSetPriority id priority => rfl
  | schedStart => rfl
  | taskYield rsp' => rfl
  | taskSleep ms rsp' => rfl
  | taskWake id => rfl
  | schedTick => rfl

/-- The condition under which `task_yield` and `task_sleep` switch. -/
theorem switchQueue_eq_some (hq : (if s.schedulerRunning = true ∧ s.currentTask ≠ 0 ∧
    s.readyQueueHead (s.tasks s.currentTask).priority ≠ 0 then
      some (s.tasks s.currentTask).priority else none) = some p) :
    p = (s.tasks s.currentTask).priority ∧ s.schedulerRunning = true ∧ s.currentTask ≠ 0 ∧
      s.readyQueueHead (s.tasks s.currentTask).priority ≠ 0 := by
  rw [Option.ite_none_right_eq_some] at hq
  exact ⟨(Option.some.inj hq.2).symm, hq.1⟩

/-- A call that switches. -/
theorem step_switched {op : Op} (hop : op ≠ .schedStart) (hq : switchQueue s op = some p)
    (rsp : Nat) : Switched s (step s (op.saving rsp)) (s.readyQueueHead p) rsp ∧
      s.schedulerRunning = true := by
  cases op with
  | schedStart => exact absurd rfl hop
  | taskYield rsp' =>
    obtain ⟨rfl, hrun, hc0, hhead⟩ := switchQueue_eq_some hq
    exact ⟨switched_taskYield hrun hc0 hhead rsp, hrun⟩
  | taskSleep ms rsp' =>
    obtain ⟨rfl, hrun, hc0, hhead⟩ := switchQueue_eq_some hq
    exact ⟨switched_taskSleep hrun hc0 hhead ms rsp, hrun⟩
  | taskCreatePriority entry priority => exact absurd hq (by simp [switchQueue])
  | taskSetPriority id priority => exact absurd hq (by simp [switchQueue])
  | taskWake id => exact absurd hq (by simp [switchQueue])
  | schedTick => exact absurd hq (by simp [switchQueue])

/-- The call that starts the first task. -/
theorem schedStart_context (hq : highestPrio s = some p) :
    (schedStart s).top = s.top ∧ (schedStart s).currentTask = s.readyQueueHead p ∧
      (schedStart s).schedulerRunning = true ∧ (schedStart s).tasksAddr = s.tasksAddr := by
  have hdispatch := (sameTasks_dispatch { s with schedulerRunning := true } p).top_eq
  rw [schedStart_eq hq]
  refine ⟨?_, dispatch_current _ _, dispatch_running _ _, dispatch_addr _ _⟩
  exact (sameContext_setTask rfl).top.trans hdispatch

/-- A call that makes a task. -/
theorem step_created {op : Op} {slot : Nat} (hslot : newSlot s op = some slot) :
    (step s op).top = Function.update s.top slot (initialStackTop s slot) ∧
      (step s op).currentTask = s.currentTask ∧
      (step s op).schedulerRunning = s.schedulerRunning ∧
      (step s op).tasksAddr = s.tasksAddr ∧ Slot slot ∧ (s.tasks slot).state = .empty := by
  cases op with
  | taskCreatePriority entry priority =>
    obtain ⟨hentry, hfirst⟩ : entry ≠ 0 ∧
        firstSlot (fun i => (s.tasks i).state == .empty) = some slot := by
      rw [newSlot, Option.ite_none_left_eq_some] at hslot
      exact hslot
    have heq : (taskCreatePriority s entry priority).2 =
        enqueue (State.setTask { s with taskCounter := s.taskCounter + 1 } slot
          (fresh s slot entry (clampPriority priority))) (clampPriority priority) slot :=
      taskCreatePriority_eq hentry hfirst
    have hback := sameContext_enqueue (State.setTask { s with taskCounter := s.taskCounter + 1 }
      slot (fresh s slot entry (clampPriority priority))) (clampPriority priority) slot
    obtain ⟨hsl, hempty⟩ := firstSlot_empty hfirst
    rw [step, heq]
    refine ⟨hback.top.trans ?_, hback.current, hback.running, hback.addr, hsl, hempty⟩
    funext j
    by_cases hj : j = slot
    · subst hj
      simp [State.top, fresh]
    · simp [State.top, hj]
  | taskSetPriority id priority => exact absurd hslot (by simp [newSlot])
  | schedStart => exact absurd hslot (by simp [newSlot])
  | taskYield rsp => exact absurd hslot (by simp [newSlot])
  | taskSleep ms rsp => exact absurd hslot (by simp [newSlot])
  | taskWake id => exact absurd hslot (by simp [newSlot])
  | schedTick => exact absurd hslot (by simp [newSlot])

/-- Any other call. -/
theorem step_same {op : Op} (hslot : newSlot s op = none) (hq : switchQueue s op = none) :
    SameContext s (step s op) := by
  cases op with
  | taskCreatePriority entry priority =>
    rw [newSlot] at hslot
    rcases taskCreatePriority_cases s entry priority with ⟨-, heq⟩ | ⟨slot, hentry, hfirst, -⟩
    · rw [step, heq]
      exact .refl s
    · rw [if_neg hentry, hfirst] at hslot
      exact absurd hslot (by simp)
  | taskSetPriority id priority => exact sameContext_taskSetPriority s id priority
  | schedStart =>
    have hnone : highestPrio s = none := hq
    have heq : step s .schedStart = s := by rw [step, schedStart, hnone]
    rw [heq]
    exact .refl s
  | taskYield rsp =>
    have hsw : ¬ (s.schedulerRunning = true ∧ s.currentTask ≠ 0 ∧
        s.readyQueueHead (s.tasks s.currentTask).priority ≠ 0) := by
      intro hsw
      rw [switchQueue, if_pos hsw] at hq
      exact absurd hq (by simp)
    rw [step, taskYield_eq_self hsw]
    exact .refl s
  | taskSleep ms rsp =>
    by_cases hon : s.schedulerRunning = true ∧ s.currentTask ≠ 0
    · have hhead : s.readyQueueHead (s.tasks s.currentTask).priority = 0 := by
        by_contra hhead
        rw [switchQueue, if_pos ⟨hon.1, hon.2, hhead⟩] at hq
        exact absurd hq (by simp)
      rw [step, taskSleep_eq_of_empty hon.1 hon.2 hhead]
      exact sameContext_setTask rfl
    · rw [step, taskSleep_eq_self hon]
      exact .refl s
  | taskWake id => exact sameContext_taskWake s id
  | schedTick => exact sameContext_schedTick s

end Calls

-- ---------------------------------------------------------------------------
-- The pointer of each task
-- ---------------------------------------------------------------------------

/-- `task_set_priority` is not called with the id of the empty slots, and the scheduler is
started once. -/
def Regular (t : Traced) : Action → Prop
  | .move _ => True
  | .call op => NonzeroId op ∧ (op = .schedStart → t.cpu.sched.schedulerRunning = false)

/-- The stack pointer is the one of the current task. -/
def OwnPointer (t : Traced) : Prop :=
  t.cpu.sched.schedulerRunning = true → t.cpu.rsp = t.own t.cpu.sched.currentTask

/-- A task that is switched to from itself has the pointer it was suspended with last. -/
def ResumesItself (t : Traced) : Action → Prop
  | .move _ => True
  | .call op => op ≠ .schedStart → ∀ p, switchQueue t.cpu.sched op = some p →
      t.cpu.sched.readyQueueHead p = t.cpu.sched.currentTask →
      t.cpu.rsp = t.cpu.sched.top t.cpu.sched.currentTask

/-- Every other task has its pointer in `stack_top`. -/
structure Suspended (t : Traced) : Prop where
  sane : Sane t.cpu.sched
  top : ∀ i, (t.cpu.sched.schedulerRunning = true → i ≠ t.cpu.sched.currentTask) →
    t.cpu.sched.top i = t.own i
  own : OwnPointer t

section Pointers

variable {t : Traced} {op : Op} {p slot : Nat}

theorem nonzeroId_saving (h : NonzeroId op) (rsp : Nat) : NonzeroId (op.saving rsp) := by
  cases op with
  | taskSetPriority id priority => exact h
  | taskCreatePriority entry priority => trivial
  | schedStart => trivial
  | taskYield rsp' => trivial
  | taskSleep ms rsp' => trivial
  | taskWake id => trivial
  | schedTick => trivial

theorem newSlot_saving (s : State) (op : Op) (rsp : Nat) :
    newSlot s (op.saving rsp) = newSlot s op := by
  cases op with
  | taskCreatePriority entry priority => rfl
  | taskSetPriority id priority => rfl
  | schedStart => rfl
  | taskYield rsp' => rfl
  | taskSleep ms rsp' => rfl
  | taskWake id => rfl
  | schedTick => rfl

/-- A call that makes a task does not switch. -/
theorem switchQueue_of_newSlot {s : State} (h : newSlot s op = some slot) :
    switchQueue s op = none := by
  cases op with
  | taskCreatePriority entry priority => rfl
  | taskSetPriority id priority => rfl
  | schedStart => exact absurd h (by simp [newSlot])
  | taskYield rsp' => exact absurd h (by simp [newSlot])
  | taskSleep ms rsp' => exact absurd h (by simp [newSlot])
  | taskWake id => rfl
  | schedTick => rfl

theorem newSlot_of_switchQueue {s : State} (h : switchQueue s op = some p) :
    newSlot s op = none := by
  cases hslot : newSlot s op with
  | none => rfl
  | some slot => exact absurd (h.symm.trans (switchQueue_of_newSlot hslot)) (by simp)

theorem call_sched (t : Traced) (op : Op) :
    (t.step (.call op)).cpu.sched = step t.cpu.sched (op.saving t.cpu.rsp) := by
  unfold Traced.step Cpu.step
  dsimp only
  split
  · rfl
  · rfl

theorem call_quiet (hq : switchQueue t.cpu.sched op = none) :
    (t.step (.call op)).cpu.rsp = t.cpu.rsp := by
  unfold Traced.step Cpu.step
  dsimp only
  rw [hq]

theorem call_switch (hq : switchQueue t.cpu.sched op = some p) :
    (t.step (.call op)).cpu.rsp = loaded op (t.cpu.sched.top (t.cpu.sched.readyQueueHead p)) := by
  unfold Traced.step Cpu.step
  dsimp only
  rw [hq]

theorem own_created (hslot : newSlot t.cpu.sched op = some slot) :
    (t.step (.call op)).own =
      Function.update t.own slot (initialStackTop t.cpu.sched slot) := by
  unfold Traced.step Traced.trace
  dsimp only
  rw [hslot]

theorem own_started (hq : switchQueue t.cpu.sched .schedStart = some p) :
    (t.step (.call .schedStart)).own = Function.update t.own (t.cpu.sched.readyQueueHead p)
      (t.own (t.cpu.sched.readyQueueHead p) - 8) := by
  unfold Traced.step Traced.trace
  dsimp only
  rw [hq]
  rfl

theorem own_kept (hslot : newSlot t.cpu.sched op = none)
    (hop : op = .schedStart → switchQueue t.cpu.sched op = none) :
    (t.step (.call op)).own = t.own := by
  unfold Traced.step Traced.trace
  dsimp only
  rw [hslot]
  cases op with
  | schedStart => rw [hop rfl]
  | taskCreatePriority entry priority => rfl
  | taskSetPriority id priority => rfl
  | taskYield rsp' => rfl
  | taskSleep ms rsp' => rfl
  | taskWake id => rfl
  | schedTick => rfl

/-- Only `sched_start` pushes a return address. -/
theorem loaded_eq (hop : op ≠ .schedStart) (top : Nat) : loaded op top = top := by
  cases op with
  | schedStart => exact absurd rfl hop
  | taskCreatePriority entry priority => rfl
  | taskSetPriority id priority => rfl
  | taskYield rsp => rfl
  | taskSleep ms rsp => rfl
  | taskWake id => rfl
  | schedTick => rfl

theorem Suspended.sane_call (h : Suspended t) (hreg : NonzeroId op) :
    Sane (t.step (.call op)).cpu.sched := by
  rw [call_sched]
  exact h.sane.step (nonzeroId_saving hreg t.cpu.rsp)

/-- A step that keeps every pointer, and leaves each task with its own. -/
theorem ownPointer_iff_of_suspended {a : Action} (h : Suspended (t.step a))
    (hok : ResumesItself t a) :
    (OwnPointer (t.step a) ↔ ResumesItself t a) ∧ (ResumesItself t a → Suspended (t.step a)) :=
  ⟨⟨fun _ => hok, fun _ => h.own⟩, fun _ => h⟩

theorem Suspended.move (h : Suspended t) (rsp : Nat) : Suspended (t.step (.move rsp)) := by
  have hown : (t.step (.move rsp)).own = (if t.cpu.sched.schedulerRunning then
      Function.update t.own t.cpu.sched.currentTask rsp else t.own : Nat → Nat) := rfl
  refine ⟨h.sane, fun i hi => ?_, fun hrun => ?_⟩
  · refine (h.top i hi).trans ?_
    rw [hown]
    split
    · rename_i hrun
      exact (Function.update_of_ne (hi hrun) ..).symm
    · rfl
  · have hrun : t.cpu.sched.schedulerRunning = true := hrun
    rw [hown, if_pos hrun]
    exact (Function.update_self t.cpu.sched.currentTask rsp t.own).symm

theorem Suspended.created (h : Suspended t) (hreg : NonzeroId op)
    (hslot : newSlot t.cpu.sched op = some slot) : Suspended (t.step (.call op)) := by
  have hslot' := (newSlot_saving t.cpu.sched op t.cpu.rsp).trans hslot
  obtain ⟨htop, hcur, hrun, -, hsl, hempty⟩ := step_created hslot'
  have hrsp := call_quiet (switchQueue_of_newSlot hslot)
  have hown := own_created hslot
  -- the slot of the current task is not empty
  have hne : t.cpu.sched.currentTask ≠ slot := by
    rintro rfl
    exact (h.sane.slots.current_created hsl.ne_zero).2 hempty
  refine ⟨h.sane_call hreg, fun i hi => ?_, fun hrun' => ?_⟩
  · rw [call_sched, hrun, hcur] at hi
    rw [call_sched, htop, hown]
    by_cases hi' : i = slot
    · subst hi'
      rw [Function.update_self, Function.update_self]
    · rw [Function.update_of_ne hi', Function.update_of_ne hi']
      exact h.top i hi
  · rw [call_sched, hrun] at hrun'
    rw [hrsp, call_sched, hcur, hown, Function.update_of_ne hne]
    exact h.own hrun'

theorem Suspended.quiet (h : Suspended t) (hreg : NonzeroId op)
    (hslot : newSlot t.cpu.sched op = none) (hq : switchQueue t.cpu.sched op = none) :
    Suspended (t.step (.call op)) := by
  have hsame := step_same ((newSlot_saving t.cpu.sched op t.cpu.rsp).trans hslot)
    ((switchQueue_saving t.cpu.sched op t.cpu.rsp).trans hq)
  have hown := own_kept hslot fun _ => hq
  refine ⟨h.sane_call hreg, fun i hi => ?_, fun hrun => ?_⟩
  · rw [call_sched, hsame.running, hsame.current] at hi
    rw [call_sched, hsame.top, hown]
    exact h.top i hi
  · rw [call_sched, hsame.running] at hrun
    rw [call_quiet hq, call_sched, hsame.current, hown]
    exact h.own hrun

theorem Suspended.started (h : Suspended t) (hidle : t.cpu.sched.schedulerRunning = false)
    (hq : highestPrio t.cpu.sched = some p) : Suspended (t.step (.call .schedStart)) := by
  obtain ⟨htop, hcur, -, -⟩ := schedStart_context hq
  have hown := own_started (t := t) hq
  have htop' : ∀ i, t.cpu.sched.top i = t.own i := fun i =>
    h.top i fun hrun => absurd (hrun.symm.trans hidle) (by simp)
  refine ⟨h.sane_call trivial, fun i hi => ?_, fun _ => ?_⟩
  · obtain ⟨-, -, hrun, -⟩ := schedStart_context hq
    have hne : i ≠ t.cpu.sched.readyQueueHead p := by
      have hi := hi (by rw [call_sched]; exact hrun)
      rw [call_sched] at hi
      exact hcur ▸ hi
    rw [call_sched, hown, Function.update_of_ne hne]
    exact (congrFun htop i).trans (htop' i)
  · have hcur' : (t.step (.call .schedStart)).cpu.sched.currentTask =
        t.cpu.sched.readyQueueHead p := by
      rw [call_sched]
      exact hcur
    have hrsp : (t.step (.call .schedStart)).cpu.rsp =
        loaded .schedStart (t.cpu.sched.top (t.cpu.sched.readyQueueHead p)) := call_switch hq
    rw [hrsp, hcur', hown, Function.update_self, htop']
    rfl

/-- A switch, to another task or to itself. -/
theorem Suspended.switched (h : Suspended t) (hreg : NonzeroId op) (hop : op ≠ .schedStart)
    (hq : switchQueue t.cpu.sched op = some p) :
    (OwnPointer (t.step (.call op)) ↔ ResumesItself t (.call op)) ∧
      (ResumesItself t (.call op) → Suspended (t.step (.call op))) := by
  obtain ⟨hsw, hrun⟩ := step_switched hop hq t.cpu.rsp
  have hrsp : (t.step (.call op)).cpu.rsp =
      t.cpu.sched.top (t.cpu.sched.readyQueueHead p) := by
    rw [call_switch hq, loaded_eq hop]
  have hown := own_kept (t := t) (newSlot_of_switchQueue hq) fun heq => absurd heq hop
  have hcur : (t.step (.call op)).cpu.sched.currentTask = t.cpu.sched.readyQueueHead p := by
    rw [call_sched]
    exact hsw.current
  have hrun' : (t.step (.call op)).cpu.sched.schedulerRunning = true := by
    rw [call_sched, hsw.running]
    exact hrun
  have hiff : OwnPointer (t.step (.call op)) ↔ ResumesItself t (.call op) := by
    unfold OwnPointer ResumesItself
    rw [hrsp, hcur, hown]
    by_cases hself : t.cpu.sched.readyQueueHead p = t.cpu.sched.currentTask
    · rw [hself, ← h.own hrun]
      constructor
      · intro hsame _ q hq' _
        exact (hsame hrun').symm
      · intro hsame _
        exact (hsame hop p hq hself).symm
    · refine ⟨fun _ _ q hq' hself' => ?_, fun _ _ => h.top _ fun _ => hself⟩
      obtain rfl := Option.some.inj (hq'.symm.trans hq)
      exact absurd hself' hself
  refine ⟨hiff, fun hok => ⟨h.sane_call hreg, fun i _ => ?_, hiff.mpr hok⟩⟩
  rw [call_sched, hsw.top, hown]
  by_cases hi : i = t.cpu.sched.currentTask
  · subst hi
    rw [Function.update_self]
    exact h.own hrun
  · rw [Function.update_of_ne hi]
    exact h.top i fun _ => hi

theorem Suspended.step (h : Suspended t) {a : Action} (hreg : Regular t a) :
    (OwnPointer (t.step a) ↔ ResumesItself t a) ∧
      (ResumesItself t a → Suspended (t.step a)) := by
  cases a with
  | move rsp => exact ownPointer_iff_of_suspended (h.move rsp) trivial
  | call op =>
    obtain ⟨hid, hstart⟩ := hreg
    cases hq : switchQueue t.cpu.sched op with
    | none =>
      have hok : ResumesItself t (.call op) := fun _ p hq' _ =>
        absurd (hq.symm.trans hq') (by simp)
      cases hslot : newSlot t.cpu.sched op with
      | none => exact ownPointer_iff_of_suspended (h.quiet hid hslot hq) hok
      | some slot => exact ownPointer_iff_of_suspended (h.created hid hslot) hok
    | some p =>
      by_cases hop : op = .schedStart
      · subst hop
        exact ownPointer_iff_of_suspended (h.started (hstart rfl) hq) fun hne => absurd rfl hne
      · exact h.switched hid hop hq

theorem suspended_boot (tasksAddr rsp : Nat) : Suspended (.boot tasksAddr rsp) := by
  have hidle : (Traced.boot tasksAddr rsp).cpu.sched.schedulerRunning ≠ true := by
    simp [Traced.boot, initial, schedInit]
  refine ⟨sane_initial tasksAddr, fun i _ => ?_, fun hrun => absurd hrun hidle⟩
  unfold State.top Traced.boot initial schedInit
  dsimp only
  split
  · rfl
  · rfl

end Pointers

/-- **Every task has a stack pointer of its own.** In every run from boot in which the
scheduler is started once and no priority is set for id 0, the stack pointer is at all
times where the current task left it, exactly when every task that is switched to from
itself has the pointer that it was suspended with last. -/
theorem own_pointer_iff (tasksAddr rsp : Nat) (as : List Action)
    (hregular : Meets Traced.step Regular (.boot tasksAddr rsp) as) :
    Throughout Traced.step OwnPointer (.boot tasksAddr rsp) as ↔
      Meets Traced.step ResumesItself (.boot tasksAddr rsp) as :=
  throughout_iff_meets (fun _ h => h.own) (fun _ _ h hreg => (h.step hreg).1)
    (fun _ _ h hreg hok => (h.step hreg).2 hok) (suspended_boot tasksAddr rsp) hregular

/-- Two tasks; the first one moves its stack pointer and yields to the second. -/
def handover : List Action :=
  [.call (.taskCreatePriority 1 1), .call (.taskCreatePriority 2 1), .call .schedStart,
    .move 0x3000, .call (.taskYield 0)]

theorem own_pointer_iff_handover :
    Throughout Traced.step OwnPointer (.boot 0x1000 0x9000) handover := by
  have hregular : Meets Traced.step Regular (.boot 0x1000 0x9000) handover :=
    ⟨⟨trivial, by simp⟩, ⟨trivial, by simp⟩, ⟨trivial, fun _ => rfl⟩, trivial,
      ⟨trivial, by simp⟩, trivial⟩
  refine (own_pointer_iff 0x1000 0x9000 handover hregular).mpr
    ⟨fun _ _ h => absurd h (by simp [switchQueue]), fun _ _ h => absurd h (by simp [switchQueue]),
      fun h => absurd rfl h, trivial, fun _ p h hself => ?_, trivial⟩
  -- the first of the queue is the second task
  have hp : some 1 = some p := h
  obtain rfl := Option.some.inj hp
  exact absurd hself (by decide)

/-- A task by itself goes to sleep, the timer wakes it, and it yields: it is back at the
start of its stack. -/
example : ¬ OwnPointer (run Traced.step (.boot 0x1000 0x9000)
    [.call (.taskCreatePriority 1 1), .call .schedStart, .move 0x3000, .call (.taskSleep 1 0),
      .call .schedTick, .call (.taskYield 0)]) := by
  intro h
  exact absurd (h (by decide +kernel)) (by decide +kernel)

end AegisKernel.Sched
