import AegisKernel.Sched.Service
import AegisKernel.Sched.Sleep

/-!
# Scheduler — which tasks ever run again

`task_yield` puts a task back on its queue only while it is RUNNING, which is
only the first task before its first switch. Every later task that yields, or
that the timer preempts, leaves no trace: it is READY, on no queue, and nothing
brings it back. A task that sleeps comes back if its time was not 0. And since
a switch only looks at the queue of the current priority, the tasks of the
other priorities never run at all.

* `CanReturn` — what it takes for a task to be switched to: it is on its queue or
  asleep with something on the timer, and it has the priority of the current task.
* `Effects` — what a call does to the tasks it is not about.
* `returns_iff` — a task runs in some continuation exactly if it can return.
-/

namespace AegisKernel.Sched

open Library

/-- BLOCKED with something on the timer. -/
def Sleeping (s : State) (i : Nat) : Prop :=
  (s.tasks i).state = .blocked ∧ (s.tasks i).wakeTime ≠ 0

instance (s : State) (i : Nat) : Decidable (Sleeping s i) :=
  inferInstanceAs (Decidable ((s.tasks i).state = .blocked ∧ (s.tasks i).wakeTime ≠ 0))

/-- A task of the current priority that is on its queue or will be woken onto it. -/
def CanReturn (s : State) (i : Nat) : Prop :=
  s.currentTask ≠ 0 ∧ (s.tasks i).priority = (s.tasks s.currentTask).priority ∧
    (Queued s i ∨ Sleeping s i)

/-- Some continuation of the kernel's own calls makes task `i` current. -/
def Returns (s : State) (i : Nat) : Prop :=
  ∃ es : List Event, (∀ e ∈ es, e.Own) ∧ (run step s (es.flatMap Event.ops)).currentTask = i

-- ---------------------------------------------------------------------------
-- What a call does to the other tasks
-- ---------------------------------------------------------------------------

/-- A call keeps the priorities, takes the new current task from the queue of the
old one's priority, and wakes or blocks no task that is neither current nor sleeping. -/
structure Effects (s s' : State) (L : Nat → List Nat) : Prop where
  kept : ∀ i, Created s i → Created s' i ∧ (s'.tasks i).priority = (s.tasks i).priority
  current : s'.currentTask = s.currentTask ∨
    s.currentTask ≠ 0 ∧ s'.currentTask ∈ L (s.tasks s.currentTask).priority
  state : ∀ i, Created s i → i ≠ s.currentTask → ¬ Sleeping s i →
    (s'.tasks i).state = (s.tasks i).state ∧ ¬ Sleeping s' i

section Calls

variable {s s' : State} {L L' : Nat → List Nat} {i : Nat}

theorem Effects.refl (s : State) (L : Nat → List Nat) : Effects s s L :=
  ⟨fun _ hi => ⟨hi, rfl⟩, .inl rfl, fun _ _ _ hs => ⟨rfl, hs⟩⟩

theorem SameTimer.sleeping_iff (h : SameTimer s s' i) : Sleeping s' i ↔ Sleeping s i := by
  unfold Sleeping
  rw [h.1, h.2.1]

theorem effects_taskCreatePriority (entry priority : Nat) :
    Effects s (taskCreatePriority s entry priority).2 L := by
  rcases taskCreatePriority_cases s entry priority with ⟨-, heq⟩ | ⟨slot, -, hslot, heq⟩
  · rw [heq]
    exact Effects.refl s L
  have hempty := (firstSlot_empty hslot).2
  rw [heq]
  set s₁ := State.setTask { s with taskCounter := s.taskCounter + 1 } slot
    (fresh s slot entry (clampPriority priority)) with hs₁
  have hsame := sameTasks_enqueue s₁ (clampPriority priority) slot
  -- the slot was empty, so a created task is another one
  have hother : ∀ j, Created s j → s₁.tasks j = s.tasks j := by
    intro j hj
    have hne : j ≠ slot := by
      rintro rfl
      exact hj.2 hempty
    simp [hs₁, hne]
  refine ⟨fun j hj => ⟨⟨hj.1, ?_⟩, ?_⟩, .inl (by simp [hs₁]), fun j hj _ hsl => ⟨?_, ?_⟩⟩
  · rw [hsame.state, hother j hj]
    exact hj.2
  · rw [hsame.priority, hother j hj]
  · rw [hsame.state, hother j hj]
  · unfold Sleeping at hsl ⊢
    rwa [hsame.state, hsame.wakeTime, hother j hj]

/-- `task_yield` changes nothing but the states of the current task. -/
theorem sameTimer_taskYield (hne : i ≠ s.currentTask) (rsp : Nat) :
    SameTimer s (taskYield s rsp) i := by
  by_cases hsw : s.schedulerRunning = true ∧ s.currentTask ≠ 0 ∧
      s.readyQueueHead (s.tasks s.currentTask).priority ≠ 0
  · obtain ⟨hrun, hc0, hhead⟩ := hsw
    have hdispatch := (sameTasks_dispatch s (s.tasks s.currentTask).priority).sameTimer i
    by_cases hst : (s.tasks s.currentTask).state = .running
    · rw [taskYield_eq_of_running hrun hc0 hhead rsp hst]
      exact (((hdispatch.trans (sameTimer_setTask hne _)).trans
        ((sameTasks_enqueue _ _ _).sameTimer i)).trans (sameTimer_stackTop _ _))
    · rw [taskYield_eq_of_not_running hrun hc0 hhead rsp hst]
      exact hdispatch.trans (sameTimer_stackTop _ _)
  · rw [taskYield_eq_self hsw]
    exact ⟨rfl, rfl, rfl⟩

theorem Lined.effects_taskYield (h : Lined s L) (rsp : Nat) :
    Effects s (Sched.taskYield s rsp) L := by
  by_cases hsw : s.schedulerRunning = true ∧ s.currentTask ≠ 0 ∧
      s.readyQueueHead (s.tasks s.currentTask).priority ≠ 0
  · obtain ⟨hrun, hc0, hhead⟩ := hsw
    have hp := h.queues.slots.prio_le _ (h.queues.slots.current_created hc0).1
    obtain ⟨hcur, hfields⟩ := taskYield_fields hrun hc0 hhead rsp
    refine ⟨fun j hj => ⟨⟨hj.1, ?_⟩, (hfields j).1⟩, .inr ⟨hc0, ?_⟩, fun j _ hne hsl => ?_⟩
    · rw [(hfields j).2]
      split
      · simp
      · exact hj.2
    · rw [hcur]
      exact (h.queues.links.linked hp (h.closed _ hp)).head_mem hhead
    · have hsame := sameTimer_taskYield hne rsp
      exact ⟨hsame.1, fun hsl' => hsl (hsame.sleeping_iff.mp hsl')⟩
  · rw [taskYield_eq_self hsw]
    exact Effects.refl s L

theorem Lined.effects_taskSleep (h : Lined s L) (ms rsp : Nat) :
    Effects s (taskSleep s ms rsp) L := by
  by_cases hon : s.schedulerRunning = true ∧ s.currentTask ≠ 0
  swap
  · rw [taskSleep_eq_self hon]
    exact Effects.refl s L
  obtain ⟨hrun, hc0⟩ := hon
  have hp := h.queues.slots.prio_le _ (h.queues.slots.current_created hc0).1
  have hstate : ∀ j, Created s j → j ≠ s.currentTask → ¬ Sleeping s j →
      ((taskSleep s ms rsp).tasks j).state = (s.tasks j).state ∧
        ¬ Sleeping (taskSleep s ms rsp) j := by
    intro j _ hne hsl
    have hsame := sameTimer_taskSleep hne ms rsp
    exact ⟨hsame.1, fun hsl' => hsl (hsame.sleeping_iff.mp hsl')⟩
  by_cases hhead : s.readyQueueHead (s.tasks s.currentTask).priority = 0
  · have heq := taskSleep_eq_of_empty hrun hc0 hhead ms rsp
    refine ⟨fun j hj => ⟨⟨hj.1, ?_⟩, ?_⟩, .inl ?_, hstate⟩
    · rw [heq, setTask_tasks]
      by_cases hjc : j = s.currentTask
      · rw [hjc, Function.update_self]
        simp [asleep]
      · rw [Function.update_of_ne hjc]
        exact hj.2
    · rw [heq]
      exact setTask_kept Task.priority rfl j
    · rw [heq]
      rfl
  · obtain ⟨hcur, -, hfields⟩ := taskSleep_fields hrun hc0 hhead ms rsp
    refine ⟨fun j hj => ⟨⟨hj.1, ?_⟩, (hfields j).1⟩, .inr ⟨hc0, ?_⟩, hstate⟩
    · rw [(hfields j).2]
      split
      · simp
      · exact hj.2
    · rw [hcur]
      exact (h.queues.links.linked hp (h.closed _ hp)).head_mem hhead

theorem Lined.effects_schedTick (h : Lined s L) : Effects s (Sched.schedTick s) L := by
  obtain ⟨hstate, hprio, hwake, hcur⟩ := h.schedTick_fields
  refine ⟨fun j hj => ⟨⟨hj.1, ?_⟩, hprio j⟩, .inl hcur, fun j hj _ hsl => ?_⟩
  · rw [hstate j hj.1]
    split
    · simp
    · exact hj.2
  · -- who is not sleeping is not woken
    have hw : ¬ Waking s j := by
      rintro ⟨-, hb, hone⟩
      exact hsl ⟨hb, by omega⟩
    unfold Sleeping at hsl ⊢
    rw [hstate j hj.1, hwake j hj.1, if_neg hw]
    refine ⟨rfl, ?_⟩
    split
    · rintro ⟨hb, hne⟩
      exact hsl ⟨hb, by omega⟩
    · exact hsl

end Calls

-- ---------------------------------------------------------------------------
-- Tasks that cannot return
-- ---------------------------------------------------------------------------

section Returning

variable {s s' : State} {L L' : Nat → List Nat} {i : Nat}

/-- Neither current nor able to return. -/
structure Lost (s : State) (i : Nat) : Prop where
  created : Created s i
  not_current : i ≠ s.currentTask
  stays : ¬ CanReturn s i

/-- The current task changes only to one of its own priority. -/
theorem Effects.current_priority (he : Effects s s' L) (hl : Lined s L)
    (hc0 : s.currentTask ≠ 0) :
    s'.currentTask ≠ 0 ∧
      (s'.tasks s'.currentTask).priority = (s.tasks s.currentTask).priority := by
  have hcr := hl.queues.slots.current_created hc0
  rcases he.current with heq | ⟨-, hhead⟩
  · rw [heq]
    exact ⟨hc0, (he.kept _ hcr).2⟩
  · have hq := hl.queues.slots.prio_le _ hcr.1
    obtain ⟨hcr', hpr⟩ := hl.queues.members _ hq _ hhead
    exact ⟨hcr'.1.ne_zero, (he.kept _ hcr').2.trans hpr⟩

/-- A call that switches, wakes and queues nothing of the task leaves it lost. -/
theorem Lost.of_effects (h : Lost s i) (op : Op) (hl : Lined s L) (he : Effects s s' L)
    (hs' : s' = step s op) (hpass : Passes s op L L') (hQ' : Queues s' L') (hc' : Closed s') :
    Lost s' i := by
  have hpi := hl.queues.slots.prio_le i h.created.1
  have hmem : ∀ {q}, q ≤ TASK_PRIORITY_MAX → i ∈ L q → Queued s i := fun hq hmem =>
    (hl.queues.links.queued_iff hl.closed).mpr ⟨_, hq, hmem⟩
  obtain ⟨hcr', hprio⟩ := he.kept i h.created
  refine ⟨hcr', ?_, ?_⟩
  · rintro rfl
    rcases he.current with heq | ⟨hc0, hhead⟩
    · exact h.not_current heq
    · have hq := hl.queues.slots.prio_le _ (hl.queues.slots.current_created hc0).1
      exact h.stays ⟨hc0, (hl.queues.members _ hq _ hhead).2, .inl (hmem hq hhead)⟩
  · rintro ⟨hc0', hpr', hback⟩
    have hc0 : s.currentTask ≠ 0 := he.current.elim (fun heq => heq ▸ hc0') And.left
    have hpr := (he.current_priority hl hc0).2
    have hsame : (s.tasks i).priority = (s.tasks s.currentTask).priority := by
      rw [← hprio, hpr', hpr]
    have hsl : ¬ Sleeping s i := fun hsl => h.stays ⟨hc0, hsame, .inr hsl⟩
    obtain ⟨hst, hsl'⟩ := he.state i h.created h.not_current hsl
    rcases hback with hqd | hsl''
    · -- it joined a queue in this call, so it became READY
      obtain ⟨q, hq, hiq⟩ := (hQ'.links.queued_iff hc').mp hqd
      have hin : i ∈ L q ++ becameReady q s op := by
        rw [hpass q hq]
        exact List.mem_append_right _ hiq
      rcases List.mem_append.mp hin with hin | hin
      · exact h.stays ⟨hc0, hsame, .inl (hmem hq hin)⟩
      · have hready := (List.mem_filter.mp hin).2
        rw [decide_eq_true_eq, ← hs', hst] at hready
        exact hready.1 hready.2.1
    · exact hsl' hsl''

theorem Settled.lost_event (h : Settled s L) {e : Event} (he : e.Own) (hi : Lost s i) :
    Lost (run step s e.ops) i := by
  cases e with
  | taskCreatePriority entry priority =>
    obtain ⟨L', h', hpass⟩ := h.taskCreatePriority entry priority
    exact hi.of_effects _ h.toLined (effects_taskCreatePriority entry priority) rfl hpass
      h'.queues h'.closed
  | taskYield rsp =>
    obtain ⟨L', h', hpass⟩ := h.taskYield rsp
    exact hi.of_effects (.taskYield rsp) h.toLined (h.effects_taskYield rsp) rfl hpass h'.queues h'.closed
  | taskSleep ms rsp =>
    obtain ⟨L', h', hpass⟩ := h.taskSleep ms rsp
    exact hi.of_effects _ h.toLined (h.effects_taskSleep ms rsp) rfl hpass h'.queues h'.closed
  | timerHandler rsp =>
    obtain ⟨hlined, htick⟩ := h.schedTick
    obtain ⟨L', h', hyield⟩ := hlined.taskYield rsp
    have hi₁ : Lost (schedTick s) i :=
      hi.of_effects .schedTick h.toLined h.effects_schedTick (step_schedTick s).symm htick
        hlined.queues hlined.closed
    rw [run_timerHandler]
    exact hi₁.of_effects (.taskYield rsp) hlined (hlined.effects_taskYield rsp) rfl hyield h'.queues h'.closed
  | taskSetPriority id priority => exact he.elim
  | taskWake id => exact he.elim

/-- Once lost, always lost. -/
theorem Settled.lost_run (h : Settled s L) (hi : Lost s i) {es : List Event}
    (hes : ∀ e ∈ es, e.Own) : Lost (run step s (es.flatMap Event.ops)) i := by
  induction es generalizing s L with
  | nil => exact hi
  | cons e es ih =>
    have he := hes e (List.mem_cons_self ..)
    obtain ⟨L', h', -⟩ := h.event he
    rw [List.flatMap_cons, run_append]
    exact ih h' (h.lost_event he hi) fun e' he' => hes e' (List.mem_cons_of_mem _ he')

-- ---------------------------------------------------------------------------
-- Tasks that do return
-- ---------------------------------------------------------------------------

theorem returns_now (h : s.currentTask = i) : Returns s i := ⟨[], by simp, h⟩

theorem Returns.of_event {e : Event} (he : e.Own) (h : Returns (run step s e.ops) i) :
    Returns s i := by
  obtain ⟨es, hes, hcur⟩ := h
  refine ⟨e :: es, ?_, ?_⟩
  · intro e' he'
    rcases List.mem_cons.mp he' with rfl | he'
    · exact he
    · exact hes e' he'
  · rw [List.flatMap_cons, run_append]
    exact hcur

/-- `task_yield` with somebody to switch to: the first in the queue runs, and the others
move up. -/
theorem Lined.yield_first (h : Lined s L) (hc0 : s.currentTask ≠ 0) {a : Nat} {l : List Nat}
    (hl : L (s.tasks s.currentTask).priority = a :: l) (rsp : Nat) :
    ∃ L' l', Settled (Sched.taskYield s rsp) L' ∧ (Sched.taskYield s rsp).currentTask = a ∧
      ((Sched.taskYield s rsp).tasks a).priority = (s.tasks s.currentTask).priority ∧
      L' (s.tasks s.currentTask).priority = l ++ l' := by
  have hq := h.queues.slots.prio_le _ (h.queues.slots.current_created hc0).1
  have hrun : s.schedulerRunning = true := by
    by_contra hrun
    exact hc0 (h.idle (by simpa using hrun))
  have hhead : s.readyQueueHead (s.tasks s.currentTask).priority ≠ 0 := by
    rw [ne_eq, (h.queues.links.queue _ hq).head_eq_nil_iff, hl]
    exact List.cons_ne_nil _ _
  obtain ⟨L', h', hpass⟩ := h.taskYield rsp
  have hswitch : switchedTo (s.tasks s.currentTask).priority s (.taskYield rsp) =
      [(Sched.taskYield s rsp).currentTask] := if_pos (if_pos ⟨hrun, hc0, hhead⟩)
  have hfirst := hpass _ hq
  rw [hl, hswitch, List.cons_append, List.singleton_append, List.cons.injEq] at hfirst
  obtain ⟨hcr, hpr⟩ := h.queues.members _ hq a (by simp [hl])
  refine ⟨L', _, h', hfirst.1.symm, ?_, hfirst.2.symm⟩
  rw [((h.effects_taskYield rsp).kept a hcr).2, hpr]

/-- A queued task of the current priority moves up with every `task_yield`. -/
theorem Lined.returns_after_yield (h : Lined s L) (hc0 : s.currentTask ≠ 0)
    (before after : List Nat)
    (hl : L (s.tasks s.currentTask).priority = before ++ i :: after) (rsp : Nat) :
    Returns (Sched.taskYield s rsp) i := by
  induction before generalizing s L after rsp with
  | nil =>
    obtain ⟨L', l', h', hcur, -, -⟩ := h.yield_first hc0 hl rsp
    exact returns_now hcur
  | cons a before ih =>
    rw [List.cons_append] at hl
    obtain ⟨L', l', h', hcur, hprio, hrest⟩ := h.yield_first hc0 hl rsp
    have hq := h.queues.slots.prio_le _ (h.queues.slots.current_created hc0).1
    have ha : a ≠ 0 := h.queues.links.ne_zero hq (by simp [hl])
    rw [← hprio, ← hcur, List.append_assoc, List.cons_append] at hrest
    exact Returns.of_event (e := .taskYield 0) trivial (ih h'.toLined (hcur ▸ ha) _ hrest 0)

/-- A sleeper of the current priority is woken by as many ticks as it has to go. -/
theorem Settled.returns_sleeping (h : Settled s L) (hc0 : s.currentTask ≠ 0) (hi : Created s i)
    (hprio : (s.tasks i).priority = (s.tasks s.currentTask).priority)
    (hst : (s.tasks i).state = .blocked) (w : Nat) (hw : (s.tasks i).wakeTime = w + 1) :
    Returns s i := by
  induction w generalizing s L with
  | zero =>
    refine Returns.of_event (e := .timerHandler 0) trivial ?_
    rw [run_timerHandler]
    obtain ⟨-, hprios, -, hcur₁⟩ := h.schedTick_fields
    obtain ⟨hlined, -⟩ := h.schedTick
    -- the tick puts the sleeper on its queue, and the yield moves the queue up
    have hwaking : Waking s i := ⟨hi.1, hst, hw⟩
    obtain ⟨before, after, hsplit⟩ := List.append_of_mem
      (mem_wakeList_slots.mpr ⟨hwaking, hprio⟩)
    have hc₁ : (Sched.schedTick s).currentTask ≠ 0 := by
      rw [hcur₁]
      exact hc0
    refine hlined.returns_after_yield hc₁
      (L (s.tasks s.currentTask).priority ++ before) after ?_ 0
    rw [hcur₁, hprios, hsplit, List.append_assoc]
  | succ w ih =>
    by_cases hcur : s.currentTask = i
    · exact returns_now hcur
    refine Returns.of_event (e := .timerHandler 0) trivial ?_
    rw [run_timerHandler]
    -- one tick less to go, whatever the yield does
    obtain ⟨hstate, hprios, hwakes, hcur₁⟩ := h.schedTick_fields
    obtain ⟨hlined, -⟩ := h.schedTick
    obtain ⟨L₂, h₂, -⟩ := hlined.taskYield 0
    have he₂ := hlined.effects_taskYield 0
    have hi₁ : Created (Sched.schedTick s) i := (h.effects_schedTick.kept i hi).1
    have hc₁ : (Sched.schedTick s).currentTask ≠ 0 ∧ i ≠ (Sched.schedTick s).currentTask := by
      rw [hcur₁]
      exact ⟨hc0, Ne.symm hcur⟩
    have hsame : SameTimer (Sched.schedTick s) (Sched.taskYield (Sched.schedTick s) 0) i :=
      sameTimer_taskYield hc₁.2 0
    obtain ⟨hc₂, hpr₂⟩ := he₂.current_priority hlined hc₁.1
    obtain ⟨hi₂, hprio₂⟩ := he₂.kept i hi₁
    refine ih h₂ hc₂ hi₂ ?_ ?_ ?_
    · rw [hprio₂, hpr₂, hcur₁, hprios, hprios, hprio]
    · rw [hsame.1, hstate i hi.1, if_neg fun hwk => ?_, hst]
      have hone := hwk.2.2
      omega
    · rw [hsame.2.1, hwakes i hi.1, if_pos hst, hw]
      omega

end Returning

-- ---------------------------------------------------------------------------
-- Whole runs
-- ---------------------------------------------------------------------------

/-- The scheduler after `sched_init`, the kernel's own calls, `sched_start`, and more of
its own calls. -/
def afterCalls (tasksAddr : Nat) (before after : List Event) : State :=
  run step (schedStart (run step (initial tasksAddr) (before.flatMap Event.ops)))
    (after.flatMap Event.ops)

theorem settled_afterCalls (tasksAddr : Nat) {before after : List Event}
    (hbefore : ∀ e ∈ before, e.Own) (hafter : ∀ e ∈ after, e.Own) :
    ∃ L, Settled (afterCalls tasksAddr before after) L := by
  obtain ⟨L₁, h₁, -⟩ := (settled_initial tasksAddr).run_own hbefore
  obtain ⟨L₂, h₂, -⟩ := h₁.schedStart
  obtain ⟨L₃, h₃, -⟩ := h₂.run_own hafter
  exact ⟨L₃, h₃⟩

/-- **Which tasks run again.** After any run of the kernel's own calls, a created task
other than the current one runs again in some continuation exactly if it has the
current task's priority and is on its ready queue or asleep with something on the
timer. -/
theorem returns_iff (tasksAddr : Nat) (before after : List Event)
    (hbefore : ∀ e ∈ before, e.Own) (hafter : ∀ e ∈ after, e.Own) {i : Nat}
    (hi : Created (afterCalls tasksAddr before after) i)
    (hne : i ≠ (afterCalls tasksAddr before after).currentTask) :
    Returns (afterCalls tasksAddr before after) i ↔
      CanReturn (afterCalls tasksAddr before after) i := by
  obtain ⟨L, h⟩ := settled_afterCalls tasksAddr hbefore hafter
  constructor
  · rintro ⟨es, hes, hcur⟩
    by_contra hno
    exact (h.lost_run ⟨hi, hne, hno⟩ hes).not_current hcur.symm
  · rintro ⟨hc0, hprio, hqd | ⟨hst, hw⟩⟩
    · obtain ⟨q, hq, hmem⟩ := (h.queues.links.queued_iff h.closed).mp hqd
      obtain ⟨before', after', hsplit⟩ := List.append_of_mem hmem
      obtain ⟨-, rfl⟩ := h.queues.members q hq i hmem
      rw [hprio] at hsplit
      exact Returns.of_event (e := .taskYield 0) trivial
        (h.toLined.returns_after_yield hc0 before' after' hsplit 0)
    · obtain ⟨w, hw⟩ := Nat.exists_eq_succ_of_ne_zero hw
      exact h.returns_sleeping hc0 hi hprio hst w hw

/-- Two tasks that yield in turn: at the second yield task 2 is READY and not RUNNING, so it
is put on no queue. -/
theorem second_task_lost :
    ¬ Returns (afterCalls 0 [.taskCreatePriority 1 1, .taskCreatePriority 1 1]
      [.taskYield 0, .taskYield 0]) 2 := by
  rw [returns_iff 0 _ _ (by simp [Event.Own]) (by simp [Event.Own])
    ⟨⟨by decide, by decide⟩, by decide⟩ (by decide)]
  rintro ⟨-, -, ⟨p, hp, hin⟩ | hsl⟩
  · have hempty : ∀ p ≤ TASK_PRIORITY_MAX, (afterCalls 0 [.taskCreatePriority 1 1,
        .taskCreatePriority 1 1] [.taskYield 0, .taskYield 0]).readyQueueHead p = 0 := by
      decide
    unfold InQueue at hin
    rw [hempty p hp] at hin
    cases hin with
    | there hne _ => exact hne rfl
  · revert hsl
    decide

end AegisKernel.Sched
