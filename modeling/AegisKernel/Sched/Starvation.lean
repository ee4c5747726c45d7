import AegisKernel.Sched.Agreement

/-!
# Scheduler — tasks of other priorities never run

After `sched_start` every switch takes the next task from the queue of the
current task's priority. As long as nobody changes priorities, the three queues
and everything that hangs on their links stay apart, even where `task_yield`,
`task_wake` or `sched_tick` have spoilt their order. So the tasks that ever run
all have the priority that `sched_start` picked.

* `InLayer` — a link that stays within a priority; `Layered` — all links do.
* `KeepsLayers` — the calls that change no priority and do not start again.
* `first_priority_only` — the result about whole runs.
-/

namespace AegisKernel.Sched

open Library

/-- Slot `x` is nobody or a created task of priority `p`. -/
def InLayer (s : State) (p x : Nat) : Prop := x = 0 ∨ Created s x ∧ (s.tasks x).priority = p

/-- Heads, tails and links stay within a priority. -/
structure Layered (s : State) : Prop where
  head : ∀ p ≤ TASK_PRIORITY_MAX, InLayer s p (s.readyQueueHead p)
  tail : ∀ p ≤ TASK_PRIORITY_MAX, InLayer s p (s.readyQueueTail p)
  next : ∀ i, Created s i → InLayer s (s.tasks i).priority (s.next i)
  prio : ∀ i, Created s i → (s.tasks i).priority ≤ TASK_PRIORITY_MAX

/-- The calls that move no task to another priority and do not pick a first task. -/
def KeepsLayers : Op → Prop
  | .taskSetPriority _ _ => False
  | .schedStart => False
  | _ => True

/-- Created tasks stay created, with their priority. -/
def KeepsTasks (s s' : State) : Prop :=
  ∀ i, Created s i → Created s' i ∧ (s'.tasks i).priority = (s.tasks i).priority

section Pieces

variable {s s' : State} {p i x : Nat}

theorem InLayer.of_keeps (h : InLayer s p x) (hk : KeepsTasks s s') : InLayer s' p x := by
  refine h.imp_right fun ⟨hx, hp⟩ => ?_
  obtain ⟨hx', hp'⟩ := hk x hx
  exact ⟨hx', hp'.trans hp⟩

theorem SameTasks.keepsTasks (h : SameTasks s s') : KeepsTasks s s' := fun i hi =>
  ⟨(Created.of_sameTasks h).mpr hi, h.priority i⟩

/-- An edit of one task that leaves its priority. -/
theorem keepsTasks_setTask {f : Task → Task} (hstate : (f (s.tasks i)).state ≠ .empty)
    (hprio : (f (s.tasks i)).priority = (s.tasks i).priority) : KeepsTasks s (s.setTask i f) := by
  intro j hj
  refine ⟨⟨hj.1, ?_⟩, setTask_kept Task.priority hprio j⟩
  rw [setTask_tasks]
  by_cases hji : j = i
  · rwa [hji, Function.update_self]
  · rw [Function.update_of_ne hji]
    exact hj.2

/-- The same tasks with other heads, tails and links. -/
theorem Layered.relink (h : Layered s) (hs : SameTasks s s')
    (hhead : ∀ p ≤ TASK_PRIORITY_MAX, InLayer s p (s'.readyQueueHead p))
    (htail : ∀ p ≤ TASK_PRIORITY_MAX, InLayer s p (s'.readyQueueTail p))
    (hnext : ∀ i, Created s i → InLayer s (s.tasks i).priority (s'.next i)) : Layered s' where
  head p hp := (hhead p hp).of_keeps hs.keepsTasks
  tail p hp := (htail p hp).of_keeps hs.keepsTasks
  next i hi := by
    rw [hs.priority]
    exact (hnext i ((Created.of_sameTasks hs).mp hi)).of_keeps hs.keepsTasks
  prio i hi := by
    rw [hs.priority]
    exact h.prio i ((Created.of_sameTasks hs).mp hi)

theorem Layered.enqueue (h : Layered s) (hp : p ≤ TASK_PRIORITY_MAX) (hi : InLayer s p i) :
    Layered (enqueue s p i) := by
  refine h.relink (sameTasks_enqueue s p i) (fun q hq => ?_) (fun q hq => ?_) fun j hj => ?_
  · rw [enqueue_head]
    by_cases hqp : q = p
    · rw [hqp, Function.update_self]
      split
      · exact hi
      · exact h.head p hp
    · rw [Function.update_of_ne hqp]
      exact h.head q hq
  · rw [enqueue_tail]
    by_cases hqp : q = p
    · rw [hqp, Function.update_self]
      exact hi
    · rw [Function.update_of_ne hqp]
      exact h.tail q hq
  · rw [enqueue_next]
    split
    · exact h.next j hj
    · by_cases hjt : j = s.readyQueueTail p
      · -- the old tail has the priority of its queue
        have htail := (h.tail p hp).resolve_left (hjt ▸ hj.1.ne_zero)
        rw [hjt, Function.update_self, htail.2]
        exact hi
      · rw [Function.update_of_ne hjt]
        exact h.next j hj

theorem Layered.dispatch (h : Layered s) (hp : p ≤ TASK_PRIORITY_MAX)
    (hne : s.readyQueueHead p ≠ 0) : Layered (dispatch s p) := by
  obtain ⟨hcr, hprio⟩ := (h.head p hp).resolve_left hne
  refine h.relink (sameTasks_dispatch s p) (fun q hq => ?_) (fun q hq => ?_) fun j hj => ?_
  · rw [dispatch_head]
    by_cases hqp : q = p
    · have hnext := h.next _ hcr
      rw [hprio] at hnext
      rw [hqp, Function.update_self]
      exact hnext
    · rw [Function.update_of_ne hqp]
      exact h.head q hq
  · rw [dispatch_tail]
    split
    · by_cases hqp : q = p
      · rw [hqp, Function.update_self]
        exact .inl rfl
      · rw [Function.update_of_ne hqp]
        exact h.tail q hq
    · exact h.tail q hq
  · rw [dispatch_next]
    exact h.next j hj

/-- An edit of a created task that keeps its priority and its link or clears it. -/
theorem Layered.setTask (h : Layered s) {f : Task → Task} (hi : Created s i)
    (hstate : (f (s.tasks i)).state ≠ .empty)
    (hprio : (f (s.tasks i)).priority = (s.tasks i).priority)
    (hnext : (f (s.tasks i)).next = 0 ∨ (f (s.tasks i)).next = (s.tasks i).next) :
    Layered (s.setTask i f) := by
  have hk := keepsTasks_setTask hstate hprio
  have hback : ∀ j, Created (s.setTask i f) j → Created s j := by
    intro j hj
    by_cases hji : j = i
    · exact hji ▸ hi
    · refine ⟨hj.1, ?_⟩
      have hst := hj.2
      rwa [setTask_tasks, Function.update_of_ne hji] at hst
  refine ⟨fun q hq => (h.head q hq).of_keeps hk, fun q hq => (h.tail q hq).of_keeps hk,
    fun j hj => ?_, fun j hj => ?_⟩
  · rw [(hk j (hback j hj)).2, setTask_next]
    by_cases hji : j = i
    · rw [hji, Function.update_self]
      rcases hnext with hnext | hnext
      · exact .inl hnext
      · rw [hnext]
        exact (h.next i hi).of_keeps hk
    · rw [Function.update_of_ne hji]
      exact (h.next j (hback j hj)).of_keeps hk
  · rw [(hk j (hback j hj)).2]
    exact h.prio j (hback j hj)

end Pieces

-- ---------------------------------------------------------------------------
-- One call at a time
-- ---------------------------------------------------------------------------

/-- The queues stay apart and the current task has priority `p`. -/
structure Locked (p : Nat) (s : State) : Prop where
  layered : Layered s
  current : Created s s.currentTask
  priority : (s.tasks s.currentTask).priority = p

section Calls

variable {s s' : State} {p i : Nat}

theorem Layered.taskCreatePriority (h : Layered s) (entry priority : Nat) :
    Layered (taskCreatePriority s entry priority).2 ∧
      KeepsTasks s (taskCreatePriority s entry priority).2 := by
  rcases taskCreatePriority_cases s entry priority with ⟨-, heq⟩ | ⟨slot, -, hslot, heq⟩
  · rw [heq]
    exact ⟨h, fun i hi => ⟨hi, rfl⟩⟩
  obtain ⟨hsl, hempty⟩ := firstSlot_empty hslot
  rw [heq]
  set q := clampPriority priority with hq
  set s₁ := State.setTask { s with taskCounter := s.taskCounter + 1 } slot
    (fresh s slot entry q) with hs₁
  have hslot₁ : s₁.tasks slot = fresh s slot entry q (s.tasks slot) := by simp [hs₁]
  have hother : ∀ j, j ≠ slot → s₁.tasks j = s.tasks j := by
    intro j hj
    simp [hs₁, hj]
  -- the slot was empty, so a created task is another one
  have hne : ∀ j, Created s j → j ≠ slot := by
    rintro j hj rfl
    exact hj.2 hempty
  have hk : KeepsTasks s s₁ := fun j hj => by
    rw [hother j (hne j hj)]
    exact ⟨⟨hj.1, by rw [hother j (hne j hj)]; exact hj.2⟩, rfl⟩
  have hnew : Created s₁ slot ∧ (s₁.tasks slot).priority = q := by
    rw [hslot₁]
    exact ⟨⟨hsl, by rw [hslot₁]; simp [fresh]⟩, rfl⟩
  have hback : ∀ j, Created s₁ j → j ≠ slot → Created s j := fun j hj hjs =>
    ⟨hj.1, by rw [← hother j hjs]; exact hj.2⟩
  have h₁ : Layered s₁ := by
    refine ⟨fun r hr => (h.head r hr).of_keeps hk, fun r hr => (h.tail r hr).of_keeps hk,
      fun j hj => ?_, fun j hj => ?_⟩
    · by_cases hjs : j = slot
      · rw [hjs]
        refine .inl ?_
        show (s₁.tasks slot).next = 0
        rw [hslot₁]
        rfl
      · have hnext := (h.next j (hback j hj hjs)).of_keeps hk
        show InLayer s₁ (s₁.tasks j).priority (s₁.tasks j).next
        rw [hother j hjs]
        exact hnext
    · by_cases hjs : j = slot
      · rw [hjs, hnew.2]
        exact clampPriority_le priority
      · rw [hother j hjs]
        exact h.prio j (hback j hj hjs)
  refine ⟨h₁.enqueue (clampPriority_le priority) (.inr hnew), fun j hj => ?_⟩
  obtain ⟨hj₁, hp₁⟩ := hk j hj
  have hsame := sameTasks_enqueue s₁ q slot
  exact ⟨(Created.of_sameTasks hsame).mpr hj₁, (hsame.priority j).trans hp₁⟩

theorem Layered.taskWake (h : Layered s) (id : Nat) :
    Layered (taskWake s id) ∧ KeepsTasks s (taskWake s id) := by
  unfold Sched.taskWake
  dsimp only
  split
  · exact ⟨h, fun i hi => ⟨hi, rfl⟩⟩
  · rename_i i hfind
    obtain ⟨hsl, hq⟩ := firstSlot_eq_some hfind
    have hst : (s.tasks i).state = .blocked := by
      rw [Bool.and_eq_true] at hq
      simpa using hq.2
    have hi : Created s i := ⟨hsl, by simp [hst]⟩
    have hk : KeepsTasks s (s.setTask i woken) := keepsTasks_setTask (by simp [woken]) rfl
    have h₁ : Layered (s.setTask i woken) := h.setTask hi (by simp [woken]) rfl (.inl rfl)
    obtain ⟨hi₁, hp₁⟩ := hk i hi
    refine ⟨h₁.enqueue (h₁.prio i hi₁) (.inr ⟨hi₁, rfl⟩), fun j hj => ?_⟩
    have hsame := sameTasks_enqueue (s.setTask i woken) ((s.setTask i woken).tasks i).priority i
    obtain ⟨hj₁, hpj⟩ := hk j hj
    exact ⟨(Created.of_sameTasks hsame).mpr hj₁, (hsame.priority j).trans hpj⟩

theorem KeepsTasks.trans {s'' : State} (h : KeepsTasks s s') (h' : KeepsTasks s' s'') :
    KeepsTasks s s'' := by
  intro j hj
  obtain ⟨hj', hp'⟩ := h j hj
  obtain ⟨hj'', hp''⟩ := h' j hj'
  exact ⟨hj'', hp''.trans hp'⟩

theorem Layered.tickSlot (h : Layered s) (hi : Slot i) :
    Layered (tickSlot s i) ∧ KeepsTasks s (tickSlot s i) ∧
      (tickSlot s i).currentTask = s.currentTask := by
  unfold Sched.tickSlot
  split
  · rename_i hb
    split
    · obtain ⟨h', hk⟩ := h.taskWake (s.tasks i).id
      refine ⟨h', hk, ?_⟩
      unfold Sched.taskWake
      dsimp only
      split
      · rfl
      · rw [enqueue_current, setTask_current]
    · have hcr : Created s i := ⟨hi, by simp [hb.1]⟩
      exact ⟨h.setTask hcr hcr.2 rfl (.inr rfl), keepsTasks_setTask hcr.2 rfl, rfl⟩
  · exact ⟨h, fun j hj => ⟨hj, rfl⟩, rfl⟩

theorem Layered.tickSlots (h : Layered s) {is : List Nat} (his : ∀ i ∈ is, Slot i) :
    Layered (is.foldl Sched.tickSlot s) ∧ KeepsTasks s (is.foldl Sched.tickSlot s) ∧
      (is.foldl Sched.tickSlot s).currentTask = s.currentTask := by
  induction is generalizing s with
  | nil => exact ⟨h, fun j hj => ⟨hj, rfl⟩, rfl⟩
  | cons i is ih =>
    obtain ⟨h₁, hk₁, hc₁⟩ := h.tickSlot (his i (List.mem_cons_self ..))
    obtain ⟨h₂, hk₂, hc₂⟩ := ih h₁ fun j hj => his j (List.mem_cons_of_mem _ hj)
    exact ⟨h₂, hk₁.trans hk₂, hc₂.trans hc₁⟩

/-- A call that leaves the current task alone. -/
theorem Locked.of_keeps (h : Locked p s) (h' : Layered s') (hk : KeepsTasks s s')
    (hcur : s'.currentTask = s.currentTask) : Locked p s' := by
  obtain ⟨hcr, hprio⟩ := hk _ h.current
  exact ⟨h', hcur ▸ hcr, hcur ▸ hprio.trans h.priority⟩

/-- Taking the head off the queue of the current task's priority. -/
theorem Locked.dispatch (h : Locked p s) (hhead : s.readyQueueHead p ≠ 0) :
    Locked p (dispatch s p) := by
  have hp : p ≤ TASK_PRIORITY_MAX := h.priority ▸ h.layered.prio _ h.current
  obtain ⟨hcr, hprio⟩ := (h.layered.head p hp).resolve_left hhead
  have hk := (sameTasks_dispatch s p).keepsTasks _ hcr
  refine ⟨h.layered.dispatch hp hhead, ?_, ?_⟩
  · rw [dispatch_current]
    exact hk.1
  · rw [dispatch_current]
    exact hk.2.trans hprio

/-- Storing the stack pointer of the old task. -/
theorem Locked.stackTop (h : Locked p s) (hi : Created s i) (rsp : Nat) :
    Locked p (s.setTask i fun t => { t with stackTop := rsp }) :=
  h.of_keeps (h.layered.setTask hi hi.2 rfl (.inr rfl)) (keepsTasks_setTask hi.2 rfl) rfl

theorem Locked.taskYield (h : Locked p s) (rsp : Nat) : Locked p (taskYield s rsp) := by
  by_cases hsw : s.schedulerRunning = true ∧ s.currentTask ≠ 0 ∧
      s.readyQueueHead (s.tasks s.currentTask).priority ≠ 0
  swap
  · rw [taskYield_eq_self hsw]
    exact h
  obtain ⟨hrun, hc0, hhead⟩ := hsw
  have hp : p ≤ TASK_PRIORITY_MAX := h.priority ▸ h.layered.prio _ h.current
  have hdispatch : Locked p (Sched.dispatch s p) := h.dispatch (h.priority ▸ hhead)
  have hold : Created (Sched.dispatch s p) s.currentTask :=
    ((sameTasks_dispatch s p).keepsTasks _ h.current).1
  by_cases hst : (s.tasks s.currentTask).state = .running
  · rw [taskYield_eq_of_running hrun hc0 hhead rsp hst, h.priority]
    -- the old task goes to the end of its own queue
    have hk : KeepsTasks (Sched.dispatch s p)
        ((Sched.dispatch s p).setTask s.currentTask readied) :=
      keepsTasks_setTask (by simp [readied]) rfl
    have h₁ := hdispatch.layered.setTask (f := readied) hold (by simp [readied]) rfl (.inl rfl)
    obtain ⟨hold₁, hprio₁⟩ := hk _ hold
    have hin : InLayer ((Sched.dispatch s p).setTask s.currentTask readied) p s.currentTask :=
      .inr ⟨hold₁, by rw [hprio₁, dispatch_tasks, h.priority]⟩
    have hk₂ := (sameTasks_enqueue ((Sched.dispatch s p).setTask s.currentTask readied) p
      s.currentTask).keepsTasks
    refine (hdispatch.of_keeps (h₁.enqueue hp hin) (hk.trans hk₂) ?_).stackTop
      ((hk.trans hk₂) _ hold).1 rsp
    rw [enqueue_current, setTask_current]
  · rw [taskYield_eq_of_not_running hrun hc0 hhead rsp hst, h.priority]
    exact hdispatch.stackTop hold rsp

theorem Locked.taskSleep (h : Locked p s) (ms rsp : Nat) : Locked p (taskSleep s ms rsp) := by
  by_cases hon : s.schedulerRunning = true ∧ s.currentTask ≠ 0
  swap
  · rw [taskSleep_eq_self hon]
    exact h
  obtain ⟨hrun, hc0⟩ := hon
  have hasleep : Locked p (s.setTask s.currentTask (asleep ms)) :=
    h.of_keeps (h.layered.setTask h.current (by simp [asleep]) rfl (.inr rfl))
      (keepsTasks_setTask (by simp [asleep]) rfl) rfl
  by_cases hhead : s.readyQueueHead (s.tasks s.currentTask).priority = 0
  · rw [taskSleep_eq_of_empty hrun hc0 hhead]
    exact hasleep
  · rw [taskSleep_eq_of_switch hrun hc0 hhead, h.priority]
    refine (hasleep.dispatch (h.priority ▸ hhead)).stackTop ?_ rsp
    exact ((sameTasks_dispatch _ p).keepsTasks _ hasleep.current).1

theorem Locked.step (h : Locked p s) {op : Op} (hop : KeepsLayers op) : Locked p (step s op) := by
  cases op with
  | taskCreatePriority entry priority =>
    obtain ⟨h', hk⟩ := h.layered.taskCreatePriority entry priority
    refine h.of_keeps h' hk ?_
    rcases taskCreatePriority_cases s entry priority with ⟨-, heq⟩ | ⟨slot, -, -, heq⟩
    · rw [Sched.step, heq]
    · rw [Sched.step, heq, enqueue_current, setTask_current]
  | taskYield rsp => exact h.taskYield rsp
  | taskSleep ms rsp => exact h.taskSleep ms rsp
  | taskWake id =>
    obtain ⟨h', hk⟩ := h.layered.taskWake id
    refine h.of_keeps h' hk ?_
    rw [Sched.step, Sched.taskWake]
    dsimp only
    split
    · rfl
    · rw [enqueue_current, setTask_current]
  | schedTick =>
    obtain ⟨h', hk, hcur⟩ := h.layered.tickSlots fun i hi => mem_slots.mp hi
    exact h.of_keeps h' hk hcur
  | taskSetPriority id priority => exact hop.elim
  | schedStart => exact hop.elim

/-- Before the start there is nobody to switch from. -/
theorem Layered.step_idle (h : Layered s) (hidle : s.schedulerRunning = false) {op : Op}
    (hop : KeepsLayers op) : Layered (Sched.step s op) := by
  cases op with
  | taskCreatePriority entry priority => exact (h.taskCreatePriority entry priority).1
  | taskYield rsp =>
    rw [Sched.step, taskYield_eq_self fun hsw => by simp [hidle] at hsw]
    exact h
  | taskSleep ms rsp =>
    rw [Sched.step, taskSleep_eq_self fun hon => by simp [hidle] at hon]
    exact h
  | taskWake id => exact (h.taskWake id).1
  | schedTick => exact (h.tickSlots fun i hi => mem_slots.mp hi).1
  | taskSetPriority id priority => exact hop.elim
  | schedStart => exact hop.elim

/-- `sched_start` fixes the priority. -/
theorem Layered.schedStart (h : Layered s) (hp : highestPrio s = some p) :
    Locked p (schedStart s) := by
  obtain ⟨hple, hne⟩ := highestPrio_eq_some hp
  obtain ⟨hcr, hprio⟩ := (h.head p hple).resolve_left hne
  have hon : Layered { s with schedulerRunning := true } := ⟨h.head, h.tail, h.next, h.prio⟩
  have hdispatch := hon.dispatch hple hne
  have hk := (sameTasks_dispatch { s with schedulerRunning := true } p).keepsTasks _ hcr
  rw [schedStart_eq hp]
  have hrunning := keepsTasks_setTask
    (s := Sched.dispatch { s with schedulerRunning := true } p) (i := s.readyQueueHead p)
    (f := fun t => { t with state := .running }) (by simp) rfl
  refine ⟨hdispatch.setTask hk.1 (by simp) rfl (.inr rfl), ?_, ?_⟩
  · rw [setTask_current, dispatch_current]
    exact (hrunning _ hk.1).1
  · rw [setTask_current, dispatch_current]
    exact ((hrunning _ hk.1).2.trans hk.2).trans hprio

end Calls

theorem layered_initial (tasksAddr : Nat) : Layered (initial tasksAddr) := by
  have hnone : ∀ i, ¬ Created (initial tasksAddr) i := by
    intro i hi
    have hst := hi.2
    rw [initial_task tasksAddr hi.1.2] at hst
    exact hst rfl
  exact ⟨fun p _ => .inl (initial_head tasksAddr p), fun p _ => .inl (initial_tail tasksAddr p),
    fun i hi => absurd hi (hnone i), fun i hi => absurd hi (hnone i)⟩

-- ---------------------------------------------------------------------------
-- Whole runs
-- ---------------------------------------------------------------------------

/-- **Only the first priority runs.** If `sched_start` finds a task to start, of priority
`p`, then over every later run of calls that change no priority and do not start again
the current task has priority `p`: no task of another priority ever runs, whatever is
created, woken or put to sleep. -/
theorem first_priority_only (tasksAddr : Nat) (before after : List Op)
    (hbefore : ∀ op ∈ before, KeepsLayers op) (hafter : ∀ op ∈ after, KeepsLayers op) {p : Nat}
    (hp : highestPrio (run step (initial tasksAddr) before) = some p) :
    let s := run step (schedStart (run step (initial tasksAddr) before)) after
    s.currentTask ≠ 0 ∧ (s.tasks s.currentTask).priority = p := by
  intro s
  have hkeep : ∀ s op, (Layered s ∧ s.schedulerRunning = false) → KeepsLayers op →
      Layered (step s op) ∧ (step s op).schedulerRunning = false := by
    rintro s op ⟨hs, hidle⟩ hop
    refine ⟨hs.step_idle hidle hop, (step_running ?_).trans hidle⟩
    rintro rfl
    exact hop
  obtain ⟨hidle, -⟩ := run_of_meets hkeep ⟨layered_initial tasksAddr, rfl⟩
    (meets_of_forall fun op hop _ => hbefore op hop)
  have hlocked : Locked p s := run_of_meets (C := fun _ op => KeepsLayers op)
    (fun s op hs hop => hs.step hop) (hidle.schedStart hp)
    (meets_of_forall fun op hop _ => hafter op hop)
  exact ⟨hlocked.current.1.ne_zero, hlocked.priority⟩

/-- A NORMAL task is started before a HIGH task is created: the HIGH task waits while the
NORMAL ones sleep and are woken. -/
theorem normal_tasks_only :
    let s := run step (schedStart (run step (initial 0)
        [.taskCreatePriority 1 1, .taskCreatePriority 1 1]))
      [.taskCreatePriority 1 2, .taskSleep 5 0, .taskYield 0, .taskWake 1, .taskYield 0]
    s.currentTask ≠ 0 ∧ (s.tasks s.currentTask).priority = 1 :=
  first_priority_only 0 _ _ (by simp [KeepsLayers]) (by simp [KeepsLayers]) (by decide)

end AegisKernel.Sched
