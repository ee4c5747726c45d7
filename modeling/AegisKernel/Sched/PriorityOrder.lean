import AegisKernel.Sched.Agreement

/-!
# Scheduler — when the current task has the highest priority

`sched_start` looks for the highest non-empty queue. `task_yield` and
`task_sleep`, and with them the timer, only look at the queue of the current
task's own priority. So a task of a higher priority that was created, woken or
raised in the meantime waits, and a task that sleeps with nobody of its own
priority to switch to stays current, whoever else is ready.

* `timerHandler` — `timer_handler` of `timer.c`, and the kernel calls that reach
  the scheduler as a machine (`Kernel.step`).
* `PriorityOrder` — no ready task has a higher priority than the current one,
  and the current one is not BLOCKED while a task is ready.
* `KeepsOrder s op` — the condition on a switch and the state it is made in.
* `priorityOrder_iff` — over runs that keep the queues well formed, the order
  holds after every switch exactly when every switch meets the condition.
-/

namespace AegisKernel.Sched

open Library

-- ---------------------------------------------------------------------------
-- The scheduler with its timer
-- ---------------------------------------------------------------------------

/-- The scheduler, and `tick_count` of `timer.c`. -/
structure Kernel where
  sched : State
  tickCount : BitVec 64

/-- `timer_handler` -/
def timerHandler (k : Kernel) (rsp : Nat) : Kernel where
  tickCount := k.tickCount + 1#64
  sched := taskYield (schedTick k.sched) rsp

/-- The calls that reach the scheduler before and after `sched_start`. -/
inductive Event
  | taskCreatePriority (entry priority : Nat)
  | taskSetPriority (id priority : Nat)
  | taskYield (rsp : Nat)
  | taskSleep (ms rsp : Nat)
  | taskWake (id : Nat)
  | timerHandler (rsp : Nat)

def Kernel.step (k : Kernel) : Event → Kernel
  | .taskCreatePriority entry priority =>
    { k with sched := (Sched.taskCreatePriority k.sched entry priority).2 }
  | .taskSetPriority id priority => { k with sched := Sched.taskSetPriority k.sched id priority }
  | .taskYield rsp => { k with sched := Sched.taskYield k.sched rsp }
  | .taskSleep ms rsp => { k with sched := Sched.taskSleep k.sched ms rsp }
  | .taskWake id => { k with sched := Sched.taskWake k.sched id }
  | .timerHandler rsp => Sched.timerHandler k rsp

/-- `sched_init`, some calls, and `sched_start`. -/
def started (tasksAddr : Nat) (before : List Event) : Kernel :=
  let k := run Kernel.step ⟨initial tasksAddr, 0#64⟩ before
  { k with sched := schedStart k.sched }

/-- The calls into `sched.c` behind an event. -/
def Event.ops : Event → List Op
  | .taskCreatePriority entry priority => [.taskCreatePriority entry priority]
  | .taskSetPriority id priority => [.taskSetPriority id priority]
  | .taskYield rsp => [.taskYield rsp]
  | .taskSleep ms rsp => [.taskSleep ms rsp]
  | .taskWake id => [.taskWake id]
  | .timerHandler rsp => [.schedTick, .taskYield rsp]

/-- The events after which the order is to hold. -/
def Event.Switches : Event → Prop
  | .taskYield _ => True
  | .taskSleep _ _ => True
  | .timerHandler _ => True
  | _ => False

theorem step_sched (k : Kernel) (e : Event) : (k.step e).sched = run step k.sched e.ops := by
  cases e <;> simp only [Kernel.step, Event.ops, run_cons, run_nil, step, timerHandler]

theorem run_sched (k : Kernel) (es : List Event) :
    (run Kernel.step k es).sched = run step k.sched (es.flatMap Event.ops) := by
  induction es generalizing k with
  | nil => rfl
  | cons e es ih => rw [run_cons, ih, step_sched, List.flatMap_cons, run_append]

-- ---------------------------------------------------------------------------
-- The order, and the switches that keep it
-- ---------------------------------------------------------------------------

/-- No task in a ready queue has a higher priority than the current task, and if
that is BLOCKED, nobody is ready. -/
structure PriorityOrder (s : State) : Prop where
  highest : ∀ p ≤ TASK_PRIORITY_MAX, ∀ i, InQueue s p i →
    (s.tasks i).priority ≤ (s.tasks s.currentTask).priority
  idle : (s.tasks s.currentTask).state = .blocked →
    ∀ p ≤ TASK_PRIORITY_MAX, s.readyQueueHead p = 0

/-- The order, once the scheduler has a current task. -/
def Ordered (s : State) : Prop :=
  s.schedulerRunning = true → s.currentTask ≠ 0 → PriorityOrder s

/-- No queue above priority `p` holds a task. -/
def NoneAbove (s : State) (p : Nat) : Prop :=
  ∀ q ≤ TASK_PRIORITY_MAX, p < q → s.readyQueueHead q = 0

instance (s : State) (p : Nat) : Decidable (NoneAbove s p) :=
  inferInstanceAs (Decidable (∀ q ≤ TASK_PRIORITY_MAX, p < q → s.readyQueueHead q = 0))

/-- The head of queue `p` is the only task in a queue. -/
def OnlyHead (s : State) (p : Nat) : Prop :=
  (∀ q ≤ TASK_PRIORITY_MAX, q ≠ p → s.readyQueueHead q = 0) ∧ s.next (s.readyQueueHead p) = 0

instance (s : State) (p : Nat) : Decidable (OnlyHead s p) :=
  inferInstanceAs (Decidable
    ((∀ q ≤ TASK_PRIORITY_MAX, q ≠ p → s.readyQueueHead q = 0) ∧ s.next (s.readyQueueHead p) = 0))

/-- The switches after which the order holds. -/
def KeepsOrder (s : State) : Op → Prop
  | .taskYield _ =>
    s.schedulerRunning = true → s.currentTask ≠ 0 →
      let p := (s.tasks s.currentTask).priority
      NoneAbove s p ∧
        -- nobody to switch to
        (s.readyQueueHead p = 0 → (s.tasks s.currentTask).state = .blocked →
          ∀ q ≤ TASK_PRIORITY_MAX, s.readyQueueHead q = 0) ∧
        -- a BLOCKED task to switch to
        (s.readyQueueHead p ≠ 0 → (s.tasks (s.readyQueueHead p)).state = .blocked →
          OnlyHead s p ∧ (s.tasks s.currentTask).state ≠ .running)
  | .taskSleep _ _ =>
    s.schedulerRunning = true → s.currentTask ≠ 0 →
      let p := (s.tasks s.currentTask).priority
      NoneAbove s p ∧
        (s.readyQueueHead p = 0 → ∀ q ≤ TASK_PRIORITY_MAX, s.readyQueueHead q = 0) ∧
        (s.readyQueueHead p ≠ 0 →
          s.readyQueueHead p = s.currentTask ∨
            (s.tasks (s.readyQueueHead p)).state = .blocked → OnlyHead s p)
  | _ => True

section Exactness

variable {s : State}

/-- On well-formed queues the order is a matter of the queue heads. -/
theorem ChainInv.ordered_iff (h : ChainInv s) :
    PriorityOrder s ↔
      NoneAbove s (s.tasks s.currentTask).priority ∧
        ((s.tasks s.currentTask).state = .blocked →
          ∀ p ≤ TASK_PRIORITY_MAX, s.readyQueueHead p = 0) := by
  constructor
  · rintro ⟨hhigh, hidle⟩
    refine ⟨fun q hq hlt => ?_, hidle⟩
    by_contra hne
    have hin : InQueue s q (s.readyQueueHead q) := .here hne
    have hle := hhigh q hq _ hin
    rw [(h.wellFormed.member hq hin).2] at hle
    omega
  · rintro ⟨hnone, hidle⟩
    refine ⟨fun p hp i hi => ?_, hidle⟩
    rw [(h.wellFormed.member hp hi).2]
    by_contra hlt
    -- a queue above the current priority is empty
    have hempty := hnone p hp (by omega)
    unfold InQueue at hi
    rw [hempty] at hi
    cases hi with
    | here hne => exact hne rfl
    | there hne _ => exact hne rfl

/-- Updating the head of queue `p` leaves the queues above it alone. -/
theorem noneAbove_update {s' : State} {p n : Nat}
    (hhead : s'.readyQueueHead = Function.update s.readyQueueHead p n) :
    NoneAbove s' p ↔ NoneAbove s p := by
  refine forall_congr' fun q => forall_congr' fun _ => forall_congr' fun hlt => ?_
  rw [hhead, Function.update_of_ne (by omega)]

/-- All queues are empty afterwards if the others were and queue `p` becomes so. -/
theorem all_empty_update {s' : State} {p n : Nat} (hp : p ≤ TASK_PRIORITY_MAX)
    (hhead : s'.readyQueueHead = Function.update s.readyQueueHead p n) :
    (∀ q ≤ TASK_PRIORITY_MAX, s'.readyQueueHead q = 0) ↔
      (∀ q ≤ TASK_PRIORITY_MAX, q ≠ p → s.readyQueueHead q = 0) ∧ n = 0 := by
  constructor
  · intro hall
    refine ⟨fun q hq hqp => ?_, ?_⟩
    · have := hall q hq
      rwa [hhead, Function.update_of_ne hqp] at this
    · have := hall p hp
      rwa [hhead, Function.update_self] at this
  · rintro ⟨hrest, hn⟩ q hq
    rw [hhead]
    by_cases hqp : q = p
    · rw [hqp, Function.update_self, hn]
    · rw [Function.update_of_ne hqp]
      exact hrest q hq hqp

/-- The order after a call that leaves a running scheduler with a current task. -/
theorem ordered_iff_of_running {s' : State} (h : ChainInv s') (hrun : s'.schedulerRunning = true)
    (hc0 : s'.currentTask ≠ 0) :
    Ordered s' ↔ NoneAbove s' (s'.tasks s'.currentTask).priority ∧
      ((s'.tasks s'.currentTask).state = .blocked →
        ∀ p ≤ TASK_PRIORITY_MAX, s'.readyQueueHead p = 0) := by
  rw [← h.ordered_iff]
  exact ⟨fun hord => hord hrun hc0, fun hord _ _ => hord⟩

/-- The order after `task_yield`, when there is a task to switch to. -/
theorem yield_switch_ordered_iff (h : ChainInv s) {rsp : Nat}
    (hkeeps : KeepsChains s (.taskYield rsp)) (hrun : s.schedulerRunning = true)
    (hc0 : s.currentTask ≠ 0)
    (hhead : s.readyQueueHead (s.tasks s.currentTask).priority ≠ 0) :
    Ordered (taskYield s rsp) ↔
      NoneAbove s (s.tasks s.currentTask).priority ∧
        ((s.tasks (s.readyQueueHead (s.tasks s.currentTask).priority)).state = .blocked →
          OnlyHead s (s.tasks s.currentTask).priority ∧
            (s.tasks s.currentTask).state ≠ .running) := by
  have hinv' : ChainInv (taskYield s rsp) := (taskYield_exact h rsp).2 hkeeps
  have hrun' : (step s (.taskYield rsp)).schedulerRunning = true :=
    (step_running (by simp)).trans hrun
  obtain ⟨L, hQ, hc⟩ := h
  have hp := hQ.slots.prio_le _ (hQ.slots.current_created hc0).1
  obtain ⟨hcur, hfields⟩ := taskYield_fields hrun hc0 hhead rsp
  have hheads := taskYield_head hrun hc0 hhead rsp
  set c := s.currentTask with hcdef
  set i := s.readyQueueHead (s.tasks c).priority with hidef
  have hmember := hQ.members _ hp i ((hQ.links.linked hp (hc _ hp)).head_mem hhead)
  -- a RUNNING task becomes READY, so nobody becomes BLOCKED
  have hblocked : ((taskYield s rsp).tasks i).state = .blocked ↔ (s.tasks i).state = .blocked := by
    rw [(hfields i).2]
    split
    · rename_i hic
      simp [hic.1, hic.2]
    · exact Iff.rfl
  -- the queue is left empty if it had one task and none was put back
  have hempty : (if s.next i = 0 ∧ (s.tasks c).state = .running then c else s.next i) = 0 ↔
      s.next i = 0 ∧ (s.tasks c).state ≠ .running := by
    split
    · rename_i hback
      simp [hc0, hback.2]
    · rename_i hback
      constructor
      · exact fun h0 => ⟨h0, fun hst => hback ⟨h0, hst⟩⟩
      · exact fun h0 => h0.1
  rw [ordered_iff_of_running hinv' hrun' (hcur ▸ hhead), hcur, hblocked, (hfields i).1, hmember.2,
    noneAbove_update hheads, all_empty_update hp hheads, hempty, ← and_assoc]
  rfl

theorem taskYield_ordered_iff (h : ChainInv s) {rsp : Nat}
    (hkeeps : KeepsChains s (.taskYield rsp)) :
    Ordered (taskYield s rsp) ↔ KeepsOrder s (.taskYield rsp) := by
  by_cases hon : s.schedulerRunning = true ∧ s.currentTask ≠ 0
  · obtain ⟨hrun, hc0⟩ := hon
    simp only [KeepsOrder, hrun, true_implies, ne_eq, hc0, not_false_eq_true]
    by_cases hhead : s.readyQueueHead (s.tasks s.currentTask).priority = 0
    · -- nobody to switch to: nothing happens
      rw [taskYield_eq_self fun hsw => hsw.2.2 hhead, ordered_iff_of_running h hrun hc0]
      simp only [hhead, true_implies, not_true_eq_false, false_implies, and_true]
    · rw [yield_switch_ordered_iff h hkeeps hrun hc0 hhead]
      simp only [hhead, false_implies, not_false_eq_true, true_implies, true_and, ne_eq]
  · -- no current task
    rw [taskYield_eq_self fun hsw => hon ⟨hsw.1, hsw.2.1⟩]
    exact iff_of_true (fun hrun hc0 => absurd ⟨hrun, hc0⟩ hon)
      fun hrun hc0 => absurd ⟨hrun, hc0⟩ hon

/-- The order after `task_sleep`, when there is a task to switch to. -/
theorem sleep_switch_ordered_iff (h : ChainInv s) {ms rsp : Nat}
    (hrun : s.schedulerRunning = true) (hc0 : s.currentTask ≠ 0)
    (hhead : s.readyQueueHead (s.tasks s.currentTask).priority ≠ 0) :
    Ordered (taskSleep s ms rsp) ↔
      NoneAbove s (s.tasks s.currentTask).priority ∧
        (s.readyQueueHead (s.tasks s.currentTask).priority = s.currentTask ∨
          (s.tasks (s.readyQueueHead (s.tasks s.currentTask).priority)).state = .blocked →
          OnlyHead s (s.tasks s.currentTask).priority) := by
  have hinv' : ChainInv (taskSleep s ms rsp) := taskSleep_chainInv h ms rsp
  have hrun' : (step s (.taskSleep ms rsp)).schedulerRunning = true :=
    (step_running (by simp)).trans hrun
  obtain ⟨L, hQ, hc⟩ := h
  have hp := hQ.slots.prio_le _ (hQ.slots.current_created hc0).1
  obtain ⟨hcur, hheads, hfields⟩ := taskSleep_fields hrun hc0 hhead ms rsp
  set c := s.currentTask with hcdef
  set i := s.readyQueueHead (s.tasks c).priority with hidef
  have hmember := hQ.members _ hp i ((hQ.links.linked hp (hc _ hp)).head_mem hhead)
  -- the sleeper is BLOCKED now, and perhaps the task switched to
  have hblocked : ((taskSleep s ms rsp).tasks i).state = .blocked ↔
      i = c ∨ (s.tasks i).state = .blocked := by
    rw [(hfields i).2]
    split
    · rename_i hic
      simp [hic]
    · rename_i hic
      simp [hic]
  rw [ordered_iff_of_running hinv' hrun' (hcur ▸ hhead), hcur, hblocked, (hfields i).1, hmember.2,
    noneAbove_update hheads, all_empty_update hp hheads]
  rfl

theorem taskSleep_ordered_iff (h : ChainInv s) (ms rsp : Nat) :
    Ordered (taskSleep s ms rsp) ↔ KeepsOrder s (.taskSleep ms rsp) := by
  by_cases hon : s.schedulerRunning = true ∧ s.currentTask ≠ 0
  · obtain ⟨hrun, hc0⟩ := hon
    simp only [KeepsOrder, hrun, true_implies, ne_eq, hc0, not_false_eq_true]
    by_cases hhead : s.readyQueueHead (s.tasks s.currentTask).priority = 0
    · -- nobody to switch to: the sleeper stays current, BLOCKED
      have hinv' := taskSleep_chainInv h ms rsp
      have heq := taskSleep_eq_of_empty hrun hc0 hhead ms rsp
      rw [heq] at hinv' ⊢
      rw [ordered_iff_of_running hinv' hrun hc0]
      simp [asleep, hhead, NoneAbove]
    · rw [sleep_switch_ordered_iff h hrun hc0 hhead]
      simp only [hhead, false_implies, not_false_eq_true, true_implies, true_and]
  · -- no current task
    rw [taskSleep_eq_self hon]
    exact iff_of_true (fun hrun hc0 => absurd ⟨hrun, hc0⟩ hon)
      fun hrun hc0 => absurd ⟨hrun, hc0⟩ hon

end Exactness

-- ---------------------------------------------------------------------------
-- Whole runs
-- ---------------------------------------------------------------------------

/-- The scheduler calls after which the order is to hold. -/
def Op.Switches : Op → Prop
  | .taskYield _ => True
  | .taskSleep _ _ => True
  | _ => False

/-- One call: the order holds after it exactly when it meets the condition. -/
theorem step_ordered_iff {s : State} (h : ChainInv s) {op : Op} (hkeeps : KeepsChains s op) :
    (op.Switches → Ordered (step s op)) ↔ KeepsOrder s op := by
  cases op with
  | taskYield rsp =>
    rw [← taskYield_ordered_iff h hkeeps]
    exact true_imp_iff
  | taskSleep ms rsp =>
    rw [← taskSleep_ordered_iff h ms rsp]
    exact true_imp_iff
  | taskCreatePriority entry priority => exact iff_of_true False.elim trivial
  | taskSetPriority id priority => exact iff_of_true False.elim trivial
  | schedStart => exact iff_of_true False.elim trivial
  | taskWake id => exact iff_of_true False.elim trivial
  | schedTick => exact iff_of_true False.elim trivial

/-- An event is followed by the order exactly when the switch behind it is. -/
theorem event_ordered_iff (k : Kernel) (e : Event) :
    Meets step (fun s op => op.Switches → Ordered (step s op)) k.sched e.ops ↔
      (e.Switches → Ordered (k.step e).sched) := by
  have hsingle : ∀ {P : Prop}, P ∧ True ↔ P := fun {P} => and_iff_left trivial
  cases e with
  | taskYield rsp => exact hsingle
  | taskSleep ms rsp => exact hsingle
  | taskCreatePriority entry priority => exact hsingle
  | taskSetPriority id priority => exact hsingle
  | taskWake id => exact hsingle
  | timerHandler rsp =>
    -- the tick is no switch, the yield behind it is one
    simp only [Event.ops, Meets, Op.Switches, Event.Switches, Kernel.step, timerHandler, step,
      false_implies, true_implies, true_and, and_true]

/-- **Priority order.** Over runs whose calls keep the queues well formed, the
order holds after every `timer_handler`, `task_yield` and `task_sleep` that
follows `sched_start` exactly when every switch among these calls meets
`KeepsOrder` in the state it is made in. -/
theorem priorityOrder_iff (tasksAddr : Nat) (before es : List Event)
    (hchains : Meets step KeepsChains (initial tasksAddr)
      (before.flatMap Event.ops ++ .schedStart :: es.flatMap Event.ops)) :
    Meets Kernel.step (fun k e => e.Switches → Ordered (k.step e).sched)
        (started tasksAddr before) es ↔
      Meets step KeepsOrder (started tasksAddr before).sched (es.flatMap Event.ops) := by
  obtain ⟨hbefore, -, hafter⟩ := meets_append.mp hchains
  have hsched : (started tasksAddr before).sched =
      step (run step (initial tasksAddr) (before.flatMap Event.ops)) .schedStart := by
    show schedStart (run Kernel.step ⟨initial tasksAddr, 0#64⟩ before).sched = _
    rw [run_sched]
    rfl
  have hkeep : ∀ s op, ChainInv s → KeepsChains s op → ChainInv (step s op) :=
    fun s op hs hop => (step_exact hs op).2 hop
  have hinv : ChainInv (started tasksAddr before).sched := by
    rw [hsched]
    exact schedStart_chainInv (run_of_meets hkeep (chainInv_initial tasksAddr) hbefore)
  rw [← hsched] at hafter
  -- event by event, call by call
  have hevents : Meets step (fun s op => op.Switches → Ordered (step s op))
      (started tasksAddr before).sched (es.flatMap Event.ops) ↔
      Meets Kernel.step (fun k e => Meets step (fun s op => op.Switches → Ordered (step s op))
        k.sched e.ops) (started tasksAddr before) es :=
    meets_flatMap Kernel.sched Event.ops step_sched
  simp only [event_ordered_iff] at hevents
  rw [← hevents]
  exact meets_congr (D := KeepsChains) (fun s op hs hop => step_ordered_iff hs hop)
    (fun s op hs hop _ => hkeep s op hs hop) hinv hafter

/-- Two tasks of one priority and a yield: the order holds. -/
theorem order_after_yield :
    Meets Kernel.step (fun k e => e.Switches → Ordered (k.step e).sched)
      (started 0 [.taskCreatePriority 1 1, .taskCreatePriority 1 1]) [.taskYield 0] := by
  refine (priorityOrder_iff 0 _ _ ?_).mpr ?_
  · refine ⟨trivial, trivial, trivial, ?_, trivial⟩
    rintro ⟨-, -, -, -, htail⟩
    revert htail
    decide
  · refine ⟨fun _ _ => ⟨?_, ?_, ?_⟩, trivial⟩
    · decide
    · decide
    · decide

/-- With a LOW task running, a HIGH task is created; the next yield leaves the
LOW task current. -/
theorem high_task_waits :
    ¬ Meets Kernel.step (fun k e => e.Switches → Ordered (k.step e).sched)
      (started 0 [.taskCreatePriority 1 0]) [.taskCreatePriority 1 2, .taskYield 0] := by
  rintro ⟨-, hyield, -⟩
  have hord := hyield trivial (by decide) (by decide)
  -- task 2 is the head of queue 2
  have hhigh := hord.highest 2 (by decide) 2 (.here (by decide))
  revert hhigh
  decide

end AegisKernel.Sched
