import AegisKernel.Sched.Sane

/-!
# Scheduler — sleeping for a number of ticks

A sane task table (`Sane`) is enough for the countdown, whatever happens to the
queues: `sched_tick` wakes by id, and the id finds the slot it came from.

* `countdown_step` — one call of a continuation either leaves the sleeper's
  timer alone or, if it is a tick, counts it down by one.
* `wakes_on_tick` — a task that sleeps `ms` is BLOCKED until the `ms`-th tick
  and READY right after it.
-/

namespace AegisKernel.Sched

open Library

-- ---------------------------------------------------------------------------
-- The timer of one task
-- ---------------------------------------------------------------------------

/-- Slot `i` has the same state, timer and id in both states. -/
def SameTimer (s s' : State) (i : Nat) : Prop :=
  (s'.tasks i).state = (s.tasks i).state ∧ (s'.tasks i).wakeTime = (s.tasks i).wakeTime ∧
    (s'.tasks i).id = (s.tasks i).id

/-- Slot `i` is BLOCKED with `w` ticks to go. -/
structure Asleep (s : State) (i w : Nat) : Prop where
  slot : Slot i
  state : (s.tasks i).state = .blocked
  wakeTime : (s.tasks i).wakeTime = w

section Timers

variable {s s' s'' : State} {i j w : Nat}

theorem SameTimer.trans (h : SameTimer s s' i) (h' : SameTimer s' s'' i) : SameTimer s s'' i :=
  ⟨h'.1.trans h.1, h'.2.1.trans h.2.1, h'.2.2.trans h.2.2⟩

theorem SameTasks.sameTimer (h : SameTasks s s') (i : Nat) : SameTimer s s' i :=
  ⟨h.state i, h.wakeTime i, h.id i⟩

theorem sameTimer_setTask (h : i ≠ j) (f : Task → Task) : SameTimer s (s.setTask j f) i := by
  simp [SameTimer, h]

/-- The edits of a switch: only `stack_top`. -/
theorem sameTimer_stackTop (j rsp : Nat) :
    SameTimer s (s.setTask j fun t => { t with stackTop := rsp }) i :=
  ⟨setTask_kept Task.state rfl i, setTask_kept Task.wakeTime rfl i, setTask_kept Task.id rfl i⟩

theorem Asleep.of_sameTimer (h : Asleep s i w) (hs : SameTimer s s' i) : Asleep s' i w :=
  ⟨h.slot, hs.1.trans h.state, hs.2.1.trans h.wakeTime⟩

theorem Asleep.created (h : Asleep s i w) : Created s i := ⟨h.slot, by simp [h.state]⟩

/-- A new task goes to an empty slot. -/
theorem Asleep.taskCreatePriority (h : Asleep s i w) (entry priority : Nat) :
    SameTimer s (taskCreatePriority s entry priority).2 i := by
  rcases taskCreatePriority_cases s entry priority with ⟨-, heq⟩ | ⟨slot, -, hslot, heq⟩
  · rw [heq]
    exact ⟨rfl, rfl, rfl⟩
  have hne : i ≠ slot := by
    rintro rfl
    exact h.created.2 (firstSlot_empty hslot).2
  rw [heq]
  have hset : SameTimer s (State.setTask { s with taskCounter := s.taskCounter + 1 } slot
      (fresh s slot entry (clampPriority priority))) i := by
    simp [SameTimer, hne]
  exact hset.trans ((sameTasks_enqueue _ _ _).sameTimer i)

theorem sameTimer_taskSetPriority (id priority : Nat) :
    SameTimer s (taskSetPriority s id priority) i := by
  unfold taskSetPriority
  dsimp only
  split
  · exact ⟨rfl, rfl, rfl⟩
  · split
    · exact ⟨rfl, rfl, rfl⟩
    · rename_i j _ _
      have hset : SameTimer (unlink s (s.tasks j).priority j)
          ((unlink s (s.tasks j).priority j).setTask j
            fun t => { t with priority := clampPriority priority }) i :=
        ⟨setTask_kept Task.state rfl i, setTask_kept Task.wakeTime rfl i,
          setTask_kept Task.id rfl i⟩
      have hunlink := (sameTasks_unlink s (s.tasks j).priority j).sameTimer i
      have henqueue := ((sameTasks_enqueue ((unlink s (s.tasks j).priority j).setTask j
        fun t => { t with priority := clampPriority priority }) (clampPriority priority)
          j).trans (SameTasks.setNext _ j 0)).sameTimer i
      exact (hunlink.trans hset).trans henqueue

/-- `task_yield` changes only a RUNNING task. -/
theorem Asleep.taskYield (h : Asleep s i w) (rsp : Nat) : SameTimer s (taskYield s rsp) i := by
  by_cases hsw : s.schedulerRunning = true ∧ s.currentTask ≠ 0 ∧
      s.readyQueueHead (s.tasks s.currentTask).priority ≠ 0
  · obtain ⟨hrun, hc0, hhead⟩ := hsw
    have hdispatch := (sameTasks_dispatch s (s.tasks s.currentTask).priority).sameTimer i
    by_cases hst : (s.tasks s.currentTask).state = .running
    · have hne : i ≠ s.currentTask := by
        rintro rfl
        rw [h.state] at hst
        exact absurd hst (by decide)
      rw [taskYield_eq_of_running hrun hc0 hhead rsp hst]
      refine (((hdispatch.trans (sameTimer_setTask hne _)).trans
        ((sameTasks_enqueue _ _ _).sameTimer i)).trans (sameTimer_stackTop _ _))
    · rw [taskYield_eq_of_not_running hrun hc0 hhead rsp hst]
      exact hdispatch.trans (sameTimer_stackTop _ _)
  · rw [taskYield_eq_self hsw]
    exact ⟨rfl, rfl, rfl⟩

/-- `task_sleep` sets the timer of the current task only. -/
theorem sameTimer_taskSleep (hne : i ≠ s.currentTask) (ms rsp : Nat) :
    SameTimer s (taskSleep s ms rsp) i := by
  by_cases hsw : s.schedulerRunning = true ∧ s.currentTask ≠ 0
  · obtain ⟨hrun, hc0⟩ := hsw
    have hset : SameTimer s (s.setTask s.currentTask (asleep ms)) i := sameTimer_setTask hne _
    by_cases hhead : s.readyQueueHead (s.tasks s.currentTask).priority = 0
    · rw [taskSleep_eq_of_empty hrun hc0 hhead]
      exact hset
    · rw [taskSleep_eq_of_switch hrun hc0 hhead]
      exact (hset.trans ((sameTasks_dispatch _ _).sameTimer i)).trans (sameTimer_stackTop _ _)
  · rw [taskSleep_eq_self hsw]
    exact ⟨rfl, rfl, rfl⟩

/-- `task_wake` of another id. -/
theorem sameTimer_taskWake {id : Nat} (hid : (s.tasks i).id ≠ id) :
    SameTimer s (taskWake s id) i := by
  unfold taskWake
  dsimp only
  split
  · exact ⟨rfl, rfl, rfl⟩
  · rename_i j hfind
    obtain ⟨-, hq⟩ := firstSlot_eq_some hfind
    have hne : i ≠ j := by
      rintro rfl
      rw [Bool.and_eq_true] at hq
      exact hid (by simpa using hq.1)
    exact (sameTimer_setTask hne _).trans ((sameTasks_enqueue _ _ _).sameTimer i)

/-- The body of the tick loop for another slot. -/
theorem sameTimer_tickSlot (hsane : Sane s) (hi : Created s i) (hj : Slot j) (hne : i ≠ j) :
    SameTimer s (tickSlot s j) i := by
  unfold tickSlot
  split
  · rename_i hblocked
    split
    · -- slot `j` holds task `j`, so its id does not name slot `i`
      refine sameTimer_taskWake ?_
      rw [hsane.slots.id_eq i hi, hsane.slots.id_eq j ⟨hj, by simp [hblocked.1]⟩]
      exact hne
    · exact sameTimer_setTask hne _
  · exact ⟨rfl, rfl, rfl⟩

/-- The body of the tick loop for the sleeper: one tick fewer, or awake. -/
theorem Asleep.tickSlot (hsane : Sane s) (h : Asleep s i (w + 1)) :
    if w = 0 then ((tickSlot s i).tasks i).state = .ready else Asleep (tickSlot s i) i w := by
  have hpos : (s.tasks i).state = .blocked ∧ (s.tasks i).wakeTime > 0 :=
    ⟨h.state, by rw [h.wakeTime]; omega⟩
  unfold Sched.tickSlot
  rw [if_pos hpos, h.wakeTime]
  split
  · rename_i hw
    rw [if_pos (by omega)]
    -- the id finds a slot that holds task `i`: slot `i`
    obtain ⟨j, hfind⟩ := firstSlot_isSome
      (q := fun j => (s.tasks j).id == (s.tasks i).id && (s.tasks j).state == .blocked) h.slot
      (by simp [h.state])
    obtain ⟨hj, hq⟩ := firstSlot_eq_some hfind
    simp only [Bool.and_eq_true, beq_iff_eq] at hq
    have hij : j = i := by
      rw [← hsane.slots.id_eq i h.created, ← hq.1, hsane.slots.id_eq j ⟨hj, by simp [hq.2]⟩]
    subst hij
    unfold taskWake
    rw [hfind]
    dsimp only
    rw [(sameTasks_enqueue _ _ _).state, setTask_tasks, Function.update_self]
  · rename_i hw
    rw [if_neg (by omega)]
    exact ⟨h.slot, by simp [h.state], by simp [h.wakeTime]⟩

theorem Created.of_sameTimer (h : Created s i) (hs : SameTimer s s' i) : Created s' i :=
  ⟨h.1, hs.1 ▸ h.2⟩

theorem sameTimer_tickSlots (hsane : Sane s) (hi : Created s i) (is : List Nat)
    (his : ∀ j ∈ is, Slot j ∧ i ≠ j) : SameTimer s (is.foldl Sched.tickSlot s) i := by
  induction is generalizing s with
  | nil => exact ⟨rfl, rfl, rfl⟩
  | cons j is ih =>
    obtain ⟨hj, hne⟩ := his j (List.mem_cons_self ..)
    have hfirst := sameTimer_tickSlot hsane hi hj hne
    refine hfirst.trans (ih (hsane.edits (tickSlot_edits hsane hj)) (hi.of_sameTimer hfirst)
      fun k hk => ?_)
    exact his k (List.mem_cons_of_mem _ hk)

/-- A tick passes the slot of the sleeper once. -/
theorem slots_split (hi : Slot i) : ∃ before after,
    List.range' 1 (TASK_MAX - 1) = before ++ i :: after ∧
      ∀ j ∈ before ++ after, Slot j ∧ i ≠ j := by
  obtain ⟨before, after, heq⟩ := List.append_of_mem (mem_slots.mpr hi)
  have hnodup : (before ++ i :: after).Nodup := heq ▸ List.nodup_range'
  obtain ⟨hnot, -⟩ := List.nodup_middle.mp hnodup |> List.nodup_cons.mp
  refine ⟨before, after, heq, fun j hj => ⟨mem_slots.mp ?_, ?_⟩⟩
  · rw [heq]
    rcases List.mem_append.mp hj with h | h
    · exact List.mem_append_left _ h
    · exact List.mem_append_right _ (List.mem_cons_of_mem _ h)
  · rintro rfl
    exact hnot hj

/-- `sched_tick` counts the sleeper's timer down once, and wakes it at the end. -/
theorem Asleep.schedTick (hsane : Sane s) (h : Asleep s i (w + 1)) :
    if w = 0 then ((schedTick s).tasks i).state = .ready else Asleep (schedTick s) i w := by
  -- the loop passes the slots before the sleeper, the sleeper, and the others
  obtain ⟨before, after, heq, hothers⟩ := slots_split h.slot
  have hbefore := sameTimer_tickSlots hsane h.created before
    fun j hj => hothers j (List.mem_append_left _ hj)
  set s₁ := before.foldl Sched.tickSlot s with hs₁
  have hsane₁ : Sane s₁ := hsane.edits (tickSlots_edits hsane
    fun j hj => (hothers j (List.mem_append_left _ hj)).1)
  have h₁ := h.of_sameTimer hbefore
  have hat := h₁.tickSlot hsane₁
  have hafter : ∀ hi : Created (Sched.tickSlot s₁ i) i,
      SameTimer (Sched.tickSlot s₁ i) (Sched.schedTick s) i := by
    intro hi
    have hrest := sameTimer_tickSlots (hsane₁.edits (tickSlot_edits hsane₁ h.slot)) hi after
      fun j hj => hothers j (List.mem_append_right _ hj)
    unfold Sched.schedTick
    rw [heq, List.foldl_append, List.foldl_cons, ← hs₁]
    exact hrest
  split
  · rename_i hw
    rw [if_pos hw] at hat
    rw [(hafter ⟨h.slot, by simp [hat]⟩).1]
    exact hat
  · rename_i hw
    rw [if_neg hw] at hat
    exact hat.of_sameTimer (hafter hat.created)

end Timers

-- ---------------------------------------------------------------------------
-- Whole runs
-- ---------------------------------------------------------------------------

/-- The calls of a continuation of the sleep of the task in slot `i`. -/
def Continues (i : Nat) (s : State) : Op → Prop
  | .taskCreatePriority _ _ => True
  | .taskSetPriority id _ => id ≠ 0
  | .schedStart => False
  | .taskYield _ => True
  | .taskSleep _ _ => s.currentTask ≠ i
  | .taskWake id => id ≠ (s.tasks i).id
  | .schedTick => True

def ticks (ops : List Op) : Nat := ops.count .schedTick

section Runs

variable {s : State} {i w : Nat}

theorem Continues.nonzeroId {op : Op} (h : Continues i s op) : NonzeroId op := by
  cases op with
  | taskSetPriority id priority => exact h
  | _ => exact trivial

/-- One call of the continuation, other than the last tick. -/
theorem countdown_step (hsane : Sane s) (h : Asleep s i w) {op : Op} (hop : Continues i s op)
    (hw : ticks [op] < w) : Asleep (step s op) i (w - ticks [op]) := by
  cases op with
  | taskCreatePriority entry priority =>
    exact h.of_sameTimer (h.taskCreatePriority entry priority)
  | taskSetPriority id priority => exact h.of_sameTimer (sameTimer_taskSetPriority id priority)
  | schedStart => exact hop.elim
  | taskYield rsp => exact h.of_sameTimer (h.taskYield rsp)
  | taskSleep ms rsp => exact h.of_sameTimer (sameTimer_taskSleep (Ne.symm hop) ms rsp)
  | taskWake id => exact h.of_sameTimer (sameTimer_taskWake (Ne.symm hop))
  | schedTick =>
    have hone : ticks [Op.schedTick] = 1 := rfl
    rw [hone] at hw ⊢
    obtain ⟨v, rfl⟩ : ∃ v, w = v + 1 := ⟨w - 1, by omega⟩
    have htick := h.schedTick hsane
    rwa [if_neg (by omega)] at htick

/-- Up to the last tick the sleeper stays BLOCKED, with the ticks counted. -/
theorem countdown_run (hsane : Sane s) (h : Asleep s i w) {ops : List Op}
    (hops : Meets step (Continues i) s ops) (hw : ticks ops < w) :
    Sane (run step s ops) ∧ Asleep (run step s ops) i (w - ticks ops) := by
  induction ops generalizing s w with
  | nil => exact ⟨hsane, h⟩
  | cons op ops ih =>
    have hsplit : ticks (op :: ops) = ticks [op] + ticks ops := by
      unfold ticks
      rw [← List.count_append, List.singleton_append]
    obtain ⟨hop, hops⟩ := hops
    have hnext := countdown_step hsane h hop (by omega)
    have hrest := ih (hsane.step hop.nonzeroId) hnext hops (by omega)
    rw [hsplit, run_cons, ← Nat.sub_sub]
    exact hrest

end Runs

/-- The sleeping task right after `task_sleep`. -/
theorem asleep_taskSleep {s : State} (hsane : Sane s) (hrun : s.schedulerRunning = true)
    (ms rsp : Nat) : Asleep (taskSleep s ms rsp) s.currentTask ms := by
  have hc0 := hsane.busy hrun
  have hset : Asleep (s.setTask s.currentTask (asleep ms)) s.currentTask ms :=
    ⟨(hsane.slots.current_created hc0).1, by simp [asleep], by simp [asleep]⟩
  by_cases hhead : s.readyQueueHead (s.tasks s.currentTask).priority = 0
  · rw [taskSleep_eq_of_empty hrun hc0 hhead]
    exact hset
  · rw [taskSleep_eq_of_switch hrun hc0 hhead]
    exact (hset.of_sameTimer ((sameTasks_dispatch _ _).sameTimer _)).of_sameTimer
      (sameTimer_stackTop _ _)

/-- **Waking on the right tick.** After any run, the running task sleeps `ms`
milliseconds. Through every continuation it is BLOCKED until the `ms`-th tick,
and READY right after that tick. -/
theorem wakes_on_tick (tasksAddr : Nat) (before after : List Op) (ms rsp : Nat)
    (hbefore : ∀ op ∈ before, NonzeroId op)
    (hrun : (run step (initial tasksAddr) before).schedulerRunning = true)
    (hafter : Meets step (Continues (run step (initial tasksAddr) before).currentTask)
      (taskSleep (run step (initial tasksAddr) before) ms rsp) after) :
    let s := run step (initial tasksAddr) before
    (∀ ops, ops <+: after → ticks ops < ms →
      ((run step (taskSleep s ms rsp) ops).tasks s.currentTask).state = .blocked) ∧
    ∀ ops, ops ++ [.schedTick] <+: after → ticks ops + 1 = ms →
      ((run step (taskSleep s ms rsp) (ops ++ [.schedTick])).tasks s.currentTask).state =
        .ready := by
  intro s
  have hsane : Sane s := sane_run tasksAddr hbefore
  have hsane' := hsane.edits (taskSleep_edits hsane ms rsp)
  have hasleep := asleep_taskSleep hsane hrun ms rsp
  constructor
  · -- there is still something on the timer
    rintro ops ⟨rest, rfl⟩ hticks
    exact (countdown_run hsane' hasleep (meets_append.mp hafter).1 hticks).2.state
  · -- the last tick finds 1 on the timer
    rintro ops ⟨rest, rfl⟩ hticks
    rw [List.append_assoc] at hafter
    obtain ⟨hsane₁, h₁⟩ :=
      countdown_run hsane' hasleep (meets_append.mp hafter).1 (by omega)
    rw [show ms - ticks ops = 0 + 1 by omega] at h₁
    have htick := h₁.schedTick hsane₁
    rw [if_pos rfl] at htick
    rw [run_append, run_cons, run_nil]
    dsimp only [step]
    exact htick

/-- Two tasks, the first of them running. -/
def twoTasks : State :=
  run step (initial 0) [.taskCreatePriority 1 1, .taskCreatePriority 1 1, .schedStart]

/-- Task 1 sleeps two ticks while task 2 runs. -/
theorem wakes_on_second_tick :
    ((run step (taskSleep twoTasks 2 0) [.schedTick, .taskYield 0]).tasks
        twoTasks.currentTask).state = .blocked ∧
      ((run step (taskSleep twoTasks 2 0) ([.schedTick, .taskYield 0] ++ [.schedTick])).tasks
        twoTasks.currentTask).state = .ready := by
  have hwakes := wakes_on_tick 0
    [.taskCreatePriority 1 1, .taskCreatePriority 1 1, .schedStart]
    [.schedTick, .taskYield 0, .schedTick] 2 0 (by simp [NonzeroId]) (by decide)
    ⟨trivial, trivial, trivial, trivial⟩
  rw [← twoTasks] at hwakes
  exact ⟨hwakes.1 [.schedTick, .taskYield 0] ⟨[.schedTick], rfl⟩ (by decide),
    hwakes.2 [.schedTick, .taskYield 0] ⟨[], rfl⟩ (by decide)⟩

end AegisKernel.Sched
