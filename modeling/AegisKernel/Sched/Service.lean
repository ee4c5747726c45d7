import AegisKernel.Library.Flow
import AegisKernel.Sched.PriorityOrder

/-!
# Scheduler — the kernel's own calls and first come, first served

Nothing in the kernel calls `task_set_priority`, and only `sched_tick` calls
`task_wake`. Without these two calls from outside, everything on a ready queue
is READY and the current task is on none of them between two calls. Then each
queue is a queue: the tasks of a priority are switched to in the order in which
they became READY.

* `Event.Own` — the calls that name no other task.
* `becameReady`, `switchedTo` — what is seen of a call from outside: the tasks
  it made READY, by slot, and the task it switched to.
* `Settled` — the invariant between two calls; `Lined` is the part of it that
  also holds between the two halves of `timer_handler`.
* `served_in_order` — first come, first served, over every run.
-/

namespace AegisKernel.Sched

open Library

/-- The calls the kernel makes: of these, none names another task. -/
def Event.Own : Event → Prop
  | .taskCreatePriority _ _ => True
  | .taskYield _ => True
  | .taskSleep _ _ => True
  | .timerHandler _ => True
  | .taskSetPriority _ _ => False
  | .taskWake _ => False

/-- The tasks of priority `p` that a call makes READY, in the order of their slots. -/
def becameReady (p : Nat) (s : State) (op : Op) : List Nat :=
  (List.range' 1 (TASK_MAX - 1)).filter fun i =>
    decide ((s.tasks i).state ≠ .ready ∧ ((step s op).tasks i).state = .ready ∧
      ((step s op).tasks i).priority = p)

/-- The calls that reach the assembly of a switch, with the queue they take the
new task from. -/
def switchQueue (s : State) : Op → Option Nat
  | .taskYield _ =>
    if s.schedulerRunning = true ∧ s.currentTask ≠ 0 ∧
        s.readyQueueHead (s.tasks s.currentTask).priority ≠ 0 then
      some (s.tasks s.currentTask).priority
    else none
  | .taskSleep _ _ =>
    if s.schedulerRunning = true ∧ s.currentTask ≠ 0 ∧
        s.readyQueueHead (s.tasks s.currentTask).priority ≠ 0 then
      some (s.tasks s.currentTask).priority
    else none
  | .schedStart => highestPrio s
  | _ => none

/-- The task a call switches to, if that is done for priority `p`. -/
def switchedTo (p : Nat) (s : State) (op : Op) : List Nat :=
  if switchQueue s op = some p then [(step s op).currentTask] else []

-- ---------------------------------------------------------------------------
-- The invariant
-- ---------------------------------------------------------------------------

/-- The queues are well formed and hold READY tasks. -/
structure Lined (s : State) (L : Nat → List Nat) : Prop where
  queues : Queues s L
  closed : Closed s
  ready : ∀ p ≤ TASK_PRIORITY_MAX, ∀ i ∈ L p, (s.tasks i).state = .ready
  busy : s.schedulerRunning = true → s.currentTask ≠ 0
  idle : s.schedulerRunning = false → s.currentTask = 0

/-- Between two calls the current task is also on no queue. -/
structure Settled (s : State) (L : Nat → List Nat) : Prop extends Lined s L where
  outside : ∀ p ≤ TASK_PRIORITY_MAX, s.currentTask ∉ L p

/-- A call as its queues see it: what becomes READY joins them, what is switched
to leaves them. -/
def Passes (s : State) (op : Op) (L L' : Nat → List Nat) : Prop :=
  ∀ p ≤ TASK_PRIORITY_MAX, L p ++ becameReady p s op = switchedTo p s op ++ L' p

section Calls

variable {s : State} {L : Nat → List Nat}

theorem settled_initial (tasksAddr : Nat) : Settled (initial tasksAddr) fun _ => [] := by
  obtain ⟨hQ, hc⟩ := queues_initial tasksAddr
  have hrun : (initial tasksAddr).schedulerRunning ≠ true := by simp [initial, schedInit]
  exact ⟨⟨hQ, hc, by simp, fun h => absurd h hrun, fun _ => rfl⟩, by simp⟩

/-- The tasks a call makes READY, when it makes at most one READY. -/
theorem becameReady_of_forall {op : Op} {i : Nat} {C : Prop} [Decidable C] (hi : Slot i)
    (h : ∀ j, (s.tasks j).state ≠ .ready ∧ ((step s op).tasks j).state = .ready ↔ C ∧ j = i)
    (p : Nat) :
    becameReady p s op =
      if C ∧ ((step s op).tasks i).priority = p then [i] else [] := by
  have hone : (List.range' 1 (TASK_MAX - 1)).filter (fun j => decide (j = i)) = [i] := by
    have hcount : (List.range' 1 (TASK_MAX - 1)).count i = 1 :=
      List.count_eq_one_of_mem List.nodup_range' (mem_slots.mpr hi)
    rw [List.filter_eq, hcount, List.replicate_one]
  unfold becameReady
  split
  · rename_i hC
    rw [← hone]
    refine List.filter_congr fun j _ => ?_
    rw [decide_eq_decide, ← and_assoc, h]
    constructor
    · exact fun hj => hj.1.2
    · rintro rfl
      exact ⟨⟨hC.1, rfl⟩, hC.2⟩
  · rename_i hC
    rw [List.filter_eq_nil_iff]
    intro j _ hj
    rw [decide_eq_true_eq, ← and_assoc, h] at hj
    obtain ⟨⟨hc, rfl⟩, hp⟩ := hj
    exact hC ⟨hc, hp⟩

theorem becameReady_of_no_change {op : Op}
    (h : ∀ j, ((step s op).tasks j).state = .ready → (s.tasks j).state = .ready) (p : Nat) :
    becameReady p s op = [] := by
  unfold becameReady
  rw [List.filter_eq_nil_iff]
  intro j _ hj
  rw [decide_eq_true_eq] at hj
  exact hj.1 (h j hj.2.1)

/-- A call that changes nothing. -/
theorem passes_of_eq {op : Op} (heq : step s op = s) (hq : switchQueue s op = none) :
    Passes s op L L := by
  intro p _
  rw [becameReady_of_no_change (fun j hj => by rwa [heq] at hj), switchedTo, hq, List.append_nil]
  rfl

/-- Only READY tasks are on a queue. -/
theorem Lined.not_mem_of_state (h : Lined s L) {i : Nat} (hi : (s.tasks i).state ≠ .ready)
    {p : Nat} (hp : p ≤ TASK_PRIORITY_MAX) : i ∉ L p :=
  fun hmem => hi (h.ready p hp i hmem)

end Calls

-- ---------------------------------------------------------------------------
-- Lists with a task more or less
-- ---------------------------------------------------------------------------

section Lists

variable {s : State} {L : Nat → List Nat} {l : List Nat} {p q i j : Nat}

/-- Queue `q` with task `i` appended, as seen by each priority. -/
theorem update_concat (L : Nat → List Nat) (l : List Nat) (p q i : Nat) :
    Function.update L q (l ++ [i]) p =
      Function.update L q l p ++ if q = p then [i] else [] := by
  by_cases hpq : q = p
  · rw [← hpq, Function.update_self, Function.update_self, if_pos rfl]
  · rw [Function.update_of_ne (Ne.symm hpq), Function.update_of_ne (Ne.symm hpq), if_neg hpq,
      List.append_nil]

theorem mem_update_concat (hj : j ∈ Function.update L q (l ++ [i]) p) :
    j ∈ Function.update L q l p ∨ j = i := by
  rw [update_concat] at hj
  refine (List.mem_append.mp hj).imp_right fun hj => ?_
  split at hj
  · exact List.mem_singleton.mp hj
  · exact absurd hj List.not_mem_nil

/-- Queue `q` without its head. -/
theorem eq_head_append (hl : L q = i :: l) (p : Nat) :
    L p = (if q = p then [i] else []) ++ Function.update L q l p := by
  by_cases hpq : q = p
  · rw [← hpq, Function.update_self, if_pos rfl, hl]
    rfl
  · rw [Function.update_of_ne (Ne.symm hpq), if_neg hpq, List.nil_append]

theorem mem_of_mem_rest (hl : L q = i :: l) (hj : j ∈ Function.update L q l p) : j ∈ L p := by
  rw [eq_head_append hl p]
  exact List.mem_append_right _ hj

/-- A head taken off its queue is on no queue. -/
theorem Lined.head_not_mem (h : Lined s L) (hq : q ≤ TASK_PRIORITY_MAX) (hl : L q = i :: l)
    (hp : p ≤ TASK_PRIORITY_MAX) : i ∉ Function.update L q l p := by
  intro hmem
  have hi : i ∈ L q := by simp [hl]
  by_cases hpq : p = q
  · rw [hpq, Function.update_self] at hmem
    exact (List.nodup_cons.mp (hl ▸ (h.queues.links.queue q hq).nodup)).1 hmem
  · rw [Function.update_of_ne hpq] at hmem
    exact hpq (h.queues.links.disjoint p hp q hq i hmem hi)

end Lists

-- ---------------------------------------------------------------------------
-- One call at a time
-- ---------------------------------------------------------------------------

section Steps

variable {s : State} {L : Nat → List Nat}

/-- A new task joins the queue of its priority. -/
theorem Settled.taskCreatePriority (h : Settled s L) (entry priority : Nat) :
    ∃ L', Settled (taskCreatePriority s entry priority).2 L' ∧
      Passes s (.taskCreatePriority entry priority) L L' := by
  rcases taskCreatePriority_cases s entry priority with ⟨-, heq⟩ | ⟨slot, hentry, hslot, -⟩
  · refine ⟨L, ?_, passes_of_eq (congrArg Prod.snd heq) rfl⟩
    rw [heq]
    exact h
  obtain ⟨hsl, hempty⟩ := firstSlot_empty hslot
  obtain ⟨hno, hQ', hc'⟩ := h.queues.create h.closed priority hentry hslot
  rw [requeued_of_not_mem hno] at hQ'
  set q := clampPriority priority with hq
  set s' := (Sched.taskCreatePriority s entry priority).2 with hs'
  have heq : s' = enqueue (State.setTask { s with taskCounter := s.taskCounter + 1 } slot
      (fresh s slot entry q)) q slot := taskCreatePriority_eq hentry hslot
  have hcur : s'.currentTask = s.currentTask := by simp [heq]
  have hrun : s'.schedulerRunning = s.schedulerRunning := by simp [heq]
  have hstate : ∀ j, (s'.tasks j).state = if j = slot then .ready else (s.tasks j).state := by
    intro j
    rw [heq, (sameTasks_enqueue _ _ _).state]
    by_cases hj : j = slot
    · simp [hj, fresh]
    · simp [hj]
  have hprio : (s'.tasks slot).priority = q := by
    rw [heq, (sameTasks_enqueue _ _ _).priority]
    simp [fresh]
  have hnotcur : s.currentTask ≠ slot := by
    rintro heq
    exact (h.queues.slots.current_created (heq ▸ hsl.ne_zero)).2 (heq ▸ hempty)
  have hmem : ∀ {p j}, j ∈ Function.update L q (L q ++ [slot]) p → j ∈ L p ∨ j = slot := by
    intro p j hj
    have := mem_update_concat hj
    rwa [Function.update_eq_self] at this
  refine ⟨_, ⟨⟨hQ', hc', fun p hp j hj => ?_, ?_, ?_⟩, fun p hp hj => ?_⟩, fun p _ => ?_⟩
  · rw [hstate]
    split
    · rfl
    · rename_i hne
      exact h.ready p hp j ((hmem hj).resolve_right hne)
  · rw [hcur, hrun]
    exact h.busy
  · rw [hcur, hrun]
    exact h.idle
  · rw [hcur] at hj
    exact h.outside p hp ((hmem hj).resolve_right hnotcur)
  · have hbecame : becameReady p s (.taskCreatePriority entry priority) =
        if True ∧ (s'.tasks slot).priority = p then [slot] else [] := by
      refine becameReady_of_forall hsl (fun j => ?_) p
      show (s.tasks j).state ≠ .ready ∧ (s'.tasks j).state = .ready ↔ _
      rw [hstate]
      by_cases hj : j = slot
      · simp [hj, hempty]
      · simp [hj]
    have hswitch : switchedTo p s (.taskCreatePriority entry priority) = [] :=
      if_neg (by simp [switchQueue])
    rw [hbecame, hswitch, hprio, update_concat, Function.update_eq_self, List.nil_append]
    simp only [true_and]

section Switch

variable {q i : Nat} {l : List Nat}

/-- A call that makes the head of queue `q` current and makes no task READY. -/
theorem Lined.switch_away (h : Lined s L) (op : Op) (hq : q ≤ TASK_PRIORITY_MAX)
    (hl : L q = i :: l) (hswitch : switchQueue s op = some q)
    (hcur : (step s op).currentTask = i) (hrun : (step s op).schedulerRunning = true)
    (hQ' : Queues (step s op) (Function.update L q l)) (hc' : Closed (step s op))
    (hkept : ∀ p ≤ TASK_PRIORITY_MAX, ∀ j ∈ Function.update L q l p,
      ((step s op).tasks j).state = (s.tasks j).state)
    (hnone : ∀ j, ((step s op).tasks j).state = .ready → (s.tasks j).state = .ready) :
    Settled (step s op) (Function.update L q l) ∧ Passes s op L (Function.update L q l) := by
  have hi : i ≠ 0 := h.queues.links.ne_zero hq (by simp [hl])
  refine ⟨⟨⟨hQ', hc', fun p hp j hj => ?_, fun _ => hcur ▸ hi, fun hr => ?_⟩, fun p hp => ?_⟩,
    fun p _ => ?_⟩
  · rw [hkept p hp j hj]
    exact h.ready p hp j (mem_of_mem_rest hl hj)
  · rw [hrun] at hr
    cases hr
  · rw [hcur]
    exact h.head_not_mem hq hl hp
  · rw [becameReady_of_no_change hnone, List.append_nil, switchedTo, hswitch, hcur]
    simp only [Option.some.injEq]
    exact eq_head_append hl p

/-- `task_yield` by a RUNNING task, which is on no queue and goes to the end of its own. -/
theorem Lined.yield_running (h : Lined s L) (hrun : s.schedulerRunning = true)
    (hc0 : s.currentTask ≠ 0)
    (hhead : s.readyQueueHead (s.tasks s.currentTask).priority ≠ 0) (rsp : Nat)
    (hst : (s.tasks s.currentTask).state = .running) :
    ∃ L', Settled (taskYield s rsp) L' ∧ Passes s (.taskYield rsp) L L' := by
  have hcr := h.queues.slots.current_created hc0
  have hq := h.queues.slots.prio_le _ hcr.1
  obtain ⟨hcur, hfields⟩ := taskYield_fields hrun hc0 hhead rsp
  obtain ⟨l, hl, hQ', hc'⟩ := h.queues.yield_running h.closed hrun hc0 hhead rsp hst
  have hrun' : (step s (.taskYield rsp)).schedulerRunning = true :=
    (step_running (by simp)).trans hrun
  have hswitch : switchQueue s (.taskYield rsp) = some (s.tasks s.currentTask).priority :=
    if_pos ⟨hrun, hc0, hhead⟩
  have hout : ∀ p ≤ TASK_PRIORITY_MAX, s.currentTask ∉ L p := fun p hp =>
    h.not_mem_of_state (by simp [hst]) hp
  have hcl : s.currentTask ∉ l := fun hmem => hout _ hq (hl ▸ List.mem_cons_of_mem _ hmem)
  rw [requeued_of_not_mem hcl] at hQ'
  have hclosed : Closed (taskYield s rsp) := by
    refine hc'.mpr ?_
    rintro ⟨-, htail⟩
    have htm := (h.queues.links.queue _ hq).tail_mem
    rw [htail] at htm
    exact hout _ hq (htm hc0)
  -- the head was READY, so it is another task
  have hother : s.readyQueueHead (s.tasks s.currentTask).priority ≠ s.currentTask := by
    intro heq
    refine hout _ hq ?_
    rw [hl]
    exact List.mem_cons.mpr (.inl heq.symm)
  refine ⟨_, ⟨⟨hQ', hclosed, fun p hp j hj => ?_, fun _ => hcur ▸ hhead, fun hr => ?_⟩,
    fun p hp hj => ?_⟩, fun p _ => ?_⟩
  · rw [(hfields j).2]
    split
    · rfl
    · rename_i hne
      have hj' := (mem_update_concat hj).resolve_right fun heq => hne ⟨heq, hst⟩
      exact h.ready p hp j (mem_of_mem_rest hl hj')
  · rw [show (taskYield s rsp).schedulerRunning = true from hrun'] at hr
    cases hr
  · rw [hcur] at hj
    exact h.head_not_mem hq hl hp ((mem_update_concat hj).resolve_right hother)
  · have hbecame : becameReady p s (.taskYield rsp) = if True ∧
        ((taskYield s rsp).tasks s.currentTask).priority = p then [s.currentTask] else [] := by
      refine becameReady_of_forall hcr.1 (fun j => ?_) p
      show (s.tasks j).state ≠ .ready ∧ ((taskYield s rsp).tasks j).state = .ready ↔ _
      rw [(hfields j).2]
      by_cases hj : j = s.currentTask
      · simp [hj, hst]
      · simp [hj]
    have hsingle : switchedTo p s (.taskYield rsp) =
        if (s.tasks s.currentTask).priority = p then
          [s.readyQueueHead (s.tasks s.currentTask).priority] else [] := by
      rw [switchedTo, hswitch, show (step s (.taskYield rsp)).currentTask = _ from hcur]
      simp only [Option.some.injEq]
    rw [hbecame, hsingle, (hfields _).1, update_concat, ← List.append_assoc, ← eq_head_append hl]
    simp only [true_and]

/-- `task_yield` takes the head off its queue, and appends a RUNNING task. -/
theorem Lined.taskYield (h : Lined s L) (rsp : Nat) :
    ∃ L', Settled (taskYield s rsp) L' ∧ Passes s (.taskYield rsp) L L' := by
  by_cases hsw : s.schedulerRunning = true ∧ s.currentTask ≠ 0 ∧
      s.readyQueueHead (s.tasks s.currentTask).priority ≠ 0
  · obtain ⟨hrun, hc0, hhead⟩ := hsw
    by_cases hst : (s.tasks s.currentTask).state = .running
    · exact h.yield_running hrun hc0 hhead rsp hst
    · have hq := h.queues.slots.prio_le _ (h.queues.slots.current_created hc0).1
      obtain ⟨hcur, hfields⟩ := taskYield_fields hrun hc0 hhead rsp
      obtain ⟨l, hl, hQ', hc'⟩ := h.queues.yield_not_running h.closed hrun hc0 hhead rsp hst
      have hrun' : (step s (.taskYield rsp)).schedulerRunning = true :=
        (step_running (by simp)).trans hrun
      have hstate : ∀ j, ((Sched.taskYield s rsp).tasks j).state = (s.tasks j).state := by
        intro j
        rw [(hfields j).2, if_neg fun hj => hst hj.2]
      exact ⟨_, h.switch_away (.taskYield rsp) hq hl (if_pos ⟨hrun, hc0, hhead⟩) hcur hrun'
        hQ' hc' (fun _ _ j _ => hstate j) fun j hj => (hstate j) ▸ hj⟩
  · -- nobody to switch to: then the current task is on no queue
    have heq : Sched.taskYield s rsp = s := taskYield_eq_self hsw
    refine ⟨L, ?_, passes_of_eq heq (if_neg hsw)⟩
    rw [heq]
    refine ⟨h, fun p hp hmem => hsw ?_⟩
    have hc0 := h.queues.links.ne_zero hp hmem
    have hrun : s.schedulerRunning = true := by
      by_contra hrun
      exact hc0 (h.idle (by simpa using hrun))
    obtain ⟨-, rfl⟩ := h.queues.members p hp _ hmem
    refine ⟨hrun, hc0, fun h0 => ?_⟩
    rw [(h.queues.links.queue _ hp).head_eq_nil_iff] at h0
    rw [h0] at hmem
    exact List.not_mem_nil hmem

/-- `task_sleep` blocks the current task, which is on no queue. -/
theorem Settled.taskSleep (h : Settled s L) (ms rsp : Nat) :
    ∃ L', Settled (taskSleep s ms rsp) L' ∧ Passes s (.taskSleep ms rsp) L L' := by
  by_cases hon : s.schedulerRunning = true ∧ s.currentTask ≠ 0
  swap
  · have heq : Sched.taskSleep s ms rsp = s := taskSleep_eq_self hon
    refine ⟨L, ?_, passes_of_eq heq (if_neg fun hsw => hon ⟨hsw.1, hsw.2.1⟩)⟩
    rw [heq]
    exact h
  obtain ⟨hrun, hc0⟩ := hon
  have hq := h.queues.slots.prio_le _ (h.queues.slots.current_created hc0).1
  have hout : ∀ {p j}, p ≤ TASK_PRIORITY_MAX → j ∈ L p → j ≠ s.currentTask := by
    rintro p j hp hj rfl
    exact h.outside p hp hj
  by_cases hhead : s.readyQueueHead (s.tasks s.currentTask).priority = 0
  · -- nobody to switch to: the sleeper stays current
    have heq := taskSleep_eq_of_empty hrun hc0 hhead ms rsp
    obtain ⟨hQ', hc'⟩ := h.queues.asleep h.closed hc0 ms
    have hstate : ∀ j, (((s.setTask s.currentTask (asleep ms)).tasks j).state = .ready →
        (s.tasks j).state = .ready) := by
      intro j hj
      by_cases hjc : j = s.currentTask
      · rw [hjc, setTask_tasks, Function.update_self] at hj
        cases hj
      · rwa [setTask_tasks, Function.update_of_ne hjc] at hj
    refine ⟨L, ?_, fun p _ => ?_⟩
    · rw [heq]
      refine ⟨⟨hQ', hc', fun p hp j hj => ?_, h.busy, h.idle⟩, h.outside⟩
      rw [setTask_tasks, Function.update_of_ne (hout hp hj)]
      exact h.ready p hp j hj
    · have hnone : switchedTo p s (.taskSleep ms rsp) = [] :=
        if_neg (by simp [switchQueue, hhead])
      rw [hnone, becameReady_of_no_change fun j hj => ?_, List.append_nil, List.nil_append]
      rw [show step s (.taskSleep ms rsp) = _ from heq] at hj
      exact hstate j hj
  · obtain ⟨hcur, -, hfields⟩ := taskSleep_fields hrun hc0 hhead ms rsp
    obtain ⟨l, hl, hQ', hc'⟩ := h.queues.sleep h.closed hrun hc0 hhead ms rsp
    have hrun' : (step s (.taskSleep ms rsp)).schedulerRunning = true :=
      (step_running (by simp)).trans hrun
    refine ⟨_, h.switch_away (.taskSleep ms rsp) hq hl (if_pos ⟨hrun, hc0, hhead⟩) hcur
      hrun' hQ' hc' (fun p hp j hj => ?_) fun j hj => ?_⟩
    · show ((Sched.taskSleep s ms rsp).tasks j).state = _
      rw [(hfields j).2, if_neg (hout hp (mem_of_mem_rest hl hj))]
    · replace hj : ((Sched.taskSleep s ms rsp).tasks j).state = .ready := hj
      rw [(hfields j).2] at hj
      split at hj
      · cases hj
      · exact hj

/-- `sched_start` takes the head of the highest queue. -/
theorem Settled.schedStart (h : Settled s L) :
    ∃ L', Settled (schedStart s) L' ∧ Passes s .schedStart L L' := by
  rcases hp : highestPrio s with _ | p
  · have heq : Sched.schedStart s = s := by simp [Sched.schedStart, hp]
    refine ⟨L, ?_, passes_of_eq heq hp⟩
    rw [heq]
    exact h
  obtain ⟨hple, hne⟩ := highestPrio_eq_some hp
  obtain ⟨l, hl, hQ', hc'⟩ := h.queues.start h.closed hp
  have hcur : (Sched.schedStart s).currentTask = s.readyQueueHead p := by
    rw [schedStart_eq hp]
    simp
  have hrun : (Sched.schedStart s).schedulerRunning = true := by
    rw [schedStart_eq hp]
    simp
  have hhead : ((Sched.schedStart s).tasks (s.readyQueueHead p)).state = .running := by
    rw [schedStart_eq hp]
    simp
  have hother : ∀ j, j ≠ s.readyQueueHead p →
      (Sched.schedStart s).tasks j = s.tasks j := by
    intro j hj
    rw [schedStart_eq hp]
    simp [hj]
  refine ⟨_, h.switch_away .schedStart hple hl hp hcur hrun hQ' hc'
    (fun r hr j hj => ?_) fun j hj => ?_⟩
  · have hne : j ≠ s.readyQueueHead p := fun heq => h.head_not_mem hple hl hr (heq ▸ hj)
    show ((Sched.schedStart s).tasks j).state = _
    rw [hother j hne]
  · replace hj : ((Sched.schedStart s).tasks j).state = .ready := hj
    by_cases hjh : j = s.readyQueueHead p
    · rw [hjh, hhead] at hj
      cases hj
    · rwa [hother j hjh] at hj

end Switch

-- ---------------------------------------------------------------------------
-- One tick
-- ---------------------------------------------------------------------------

theorem step_schedTick (s : State) : step s .schedTick = schedTick s := by
  simp only [step]

instance (s : State) (i : Nat) : Decidable (Waking s i) :=
  inferInstanceAs (Decidable ((1 ≤ i ∧ i < TASK_MAX) ∧ (s.tasks i).state = .blocked ∧
    (s.tasks i).wakeTime = 1))

/-- One iteration of the tick loop, field by field: a sleeper whose time is up
becomes READY, and nothing else that matters here changes. -/
theorem Lined.tickSlot_fields (h : Lined s L) {i : Nat} (hi : Slot i) :
    (∀ j, ((tickSlot s i).tasks j).state =
        if j = i ∧ Waking s i then .ready else (s.tasks j).state) ∧
      (∀ j, ((tickSlot s i).tasks j).priority = (s.tasks j).priority) ∧
      (∀ j, ((tickSlot s i).tasks j).wakeTime =
        if j = i ∧ (s.tasks i).state = .blocked then (s.tasks j).wakeTime - 1
        else (s.tasks j).wakeTime) ∧
      (tickSlot s i).currentTask = s.currentTask ∧
      (tickSlot s i).schedulerRunning = s.schedulerRunning := by
  by_cases hw : Waking s i
  · have heq := tickSlot_waking h.queues hw
    have hsame := sameTasks_enqueue (s.setTask i woken) (s.tasks i).priority i
    rw [heq]
    refine ⟨fun j => ?_, fun j => ?_, fun j => ?_, by simp, by simp⟩
    · rw [hsame.state]
      by_cases hj : j = i
      · simp [hj, hw, woken]
      · simp [hj]
    · rw [hsame.priority]
      exact setTask_kept Task.priority rfl j
    · rw [hsame.wakeTime]
      by_cases hj : j = i
      · simp [hj, hw.2.1, hw.2.2, woken]
      · simp [hj]
  · unfold tickSlot
    simp only [hw, and_false, if_false]
    split
    · rename_i hb
      rw [if_neg fun hle => hw ⟨hi, hb.1, by omega⟩]
      refine ⟨setTask_kept Task.state rfl, setTask_kept Task.priority rfl, fun j => ?_, rfl, rfl⟩
      by_cases hj : j = i
      · simp [hj, hb.1]
      · simp [hj]
    · rename_i hb
      refine ⟨fun _ => rfl, fun _ => rfl, fun j => ?_, rfl, rfl⟩
      split
      · rename_i hj
        have hzero : ¬ (s.tasks i).wakeTime > 0 := fun hpos => hb ⟨hj.2, hpos⟩
        rw [hj.1]
        omega
      · rfl

theorem wakeList_singleton {i : Nat} (hi : Slot i) (p : Nat) :
    wakeList s p [i] = if Waking s i ∧ (s.tasks i).priority = p then [i] else [] := by
  have hiff : (s.tasks i).state = .blocked ∧ (s.tasks i).wakeTime = 1 ∧
      (s.tasks i).priority = p ↔ Waking s i ∧ (s.tasks i).priority = p := by
    unfold Waking
    tauto
  unfold wakeList
  rw [List.filter_cons, List.filter_nil]
  simp only [decide_eq_true_eq, hiff]

theorem Lined.tickSlot (h : Lined s L) {i : Nat} (hi : Slot i) :
    Lined (tickSlot s i) fun p => L p ++ wakeList s p [i] := by
  obtain ⟨hstate, -, -, hcur, hrun⟩ := h.tickSlot_fields hi
  have hbusy := h.busy
  have hidle := h.idle
  rw [← hcur, ← hrun] at hbusy hidle
  by_cases hw : Waking s i
  · have hlists : (fun p => L p ++ wakeList s p [i]) =
        Function.update L (s.tasks i).priority (L (s.tasks i).priority ++ [i]) := by
      funext p
      rw [update_concat, Function.update_eq_self, wakeList_singleton hi]
      simp only [hw, true_and]
    -- a sleeper is on no queue
    have hno : ∀ p ≤ TASK_PRIORITY_MAX, i ∉ L p := fun p hp =>
      h.not_mem_of_state (by simp [hw.2.1]) hp
    have hcr : Created s i := ⟨hi, by simp [hw.2.1]⟩
    have hp := h.queues.slots.prio_le i hi
    have hQ' := h.queues.requeue (f := woken) hcr rfl rfl rfl (by simp [woken])
    have hc' := (h.queues.requeue_closed h.closed (f := woken) hcr rfl).mpr fun htail => by
      have htm := (h.queues.links.queue _ hp).tail_mem
      rw [htail] at htm
      exact hno _ hp (htm hi.ne_zero)
    rw [requeued_of_not_mem (hno _ hp)] at hQ'
    rw [← tickSlot_waking h.queues hw] at hQ' hc'
    rw [hlists]
    refine ⟨hQ', hc', fun p hp j hj => ?_, hbusy, hidle⟩
    rw [hstate]
    split
    · rfl
    · rename_i hne
      have hj' := mem_update_concat hj
      rw [Function.update_eq_self] at hj'
      exact h.ready p hp j (hj'.resolve_right fun heq => hne ⟨heq, hw⟩)
  · have hlists : (fun p => L p ++ wakeList s p [i]) = L := by
      funext p
      rw [wakeList_singleton hi, if_neg fun hp => hw hp.1, List.append_nil]
    obtain ⟨hQ', hnext, htail, -⟩ := tickSlot_not_waking h.queues hi hw
    rw [hlists]
    refine ⟨hQ', fun p hp => ?_, fun p hp j hj => ?_, hbusy, hidle⟩
    · have hc := h.closed p hp
      unfold ClosedAt at hc ⊢
      rwa [hnext, htail]
    · rw [hstate, if_neg fun hj => hw hj.2]
      exact h.ready p hp j hj

/-- The whole loop, by induction on the slots still to come. -/
theorem Lined.tickSlots {is : List Nat} (h : Lined s L) (hnd : is.Nodup)
    (his : ∀ i ∈ is, Slot i) :
    Lined (is.foldl Sched.tickSlot s) (fun p => L p ++ wakeList s p is) ∧
      (∀ j, ((is.foldl Sched.tickSlot s).tasks j).state =
        if j ∈ is ∧ Waking s j then .ready else (s.tasks j).state) ∧
      (∀ j, ((is.foldl Sched.tickSlot s).tasks j).priority = (s.tasks j).priority) ∧
      (∀ j, ((is.foldl Sched.tickSlot s).tasks j).wakeTime =
        if j ∈ is ∧ (s.tasks j).state = .blocked then (s.tasks j).wakeTime - 1
        else (s.tasks j).wakeTime) ∧
      (is.foldl Sched.tickSlot s).currentTask = s.currentTask := by
  induction is generalizing s L with
  | nil =>
    refine ⟨?_, fun j => ?_, fun j => rfl, fun j => ?_, rfl⟩
    · have hlists : (fun p => L p ++ wakeList s p []) = L := by
        funext p
        exact List.append_nil _
      rw [hlists]
      exact h
    · simp
    · simp
  | cons i is ih =>
    obtain ⟨hnot, hnd⟩ := List.nodup_cons.mp hnd
    have hi := his i (List.mem_cons_self ..)
    obtain ⟨hstate, hprio, hwake, hcur, -⟩ := h.tickSlot_fields hi
    -- the slots still to come are as before
    have hsame : ∀ j ∈ is, ((Sched.tickSlot s i).tasks j).state = (s.tasks j).state ∧
        ((Sched.tickSlot s i).tasks j).wakeTime = (s.tasks j).wakeTime ∧
        ((Sched.tickSlot s i).tasks j).priority = (s.tasks j).priority := by
      intro j hj
      have hne : j ≠ i := fun heq => hnot (heq ▸ hj)
      exact ⟨by rw [hstate, if_neg fun h => hne h.1], by rw [hwake, if_neg fun h => hne h.1],
        hprio j⟩
    obtain ⟨hlined, hstates, hprios, hwakes, hcurs⟩ :=
      ih (h.tickSlot hi) hnd fun j hj => his j (List.mem_cons_of_mem _ hj)
    rw [List.foldl_cons]
    refine ⟨?_, fun j => ?_, fun j => (hprios j).trans (hprio j), fun j => ?_,
      hcurs.trans hcur⟩
    · have hlists : (fun p => L p ++ wakeList s p (i :: is)) =
          fun p => L p ++ wakeList s p [i] ++ wakeList (Sched.tickSlot s i) p is := by
        funext p
        rw [wakeList_congr hsame, List.append_assoc]
        unfold wakeList
        rw [← List.filter_append, List.singleton_append]
      rw [hlists]
      exact hlined
    · rw [hstates, hstate]
      by_cases hji : j = i
      · simp [hji, hnot]
      · have hwaking : j ∈ is → (Waking (Sched.tickSlot s i) j ↔ Waking s j) := by
          intro hj
          obtain ⟨h₁, h₂, -⟩ := hsame j hj
          unfold Waking
          rw [h₁, h₂]
        simp only [hji, false_and, if_false, List.mem_cons, false_or]
        by_cases hj : j ∈ is
        · simp only [hj, true_and, hwaking hj]
        · simp only [hj, false_and, if_false]
    · rw [hwakes, hwake]
      by_cases hji : j = i
      · simp [hji, hnot]
      · by_cases hj : j ∈ is
        · simp [hji, hj, (hsame j hj).1]
        · simp [hji, hj]

/-- `sched_tick`, field by field. -/
theorem Lined.schedTick_fields (h : Lined s L) :
    (∀ j, Slot j → ((Sched.schedTick s).tasks j).state =
        if Waking s j then .ready else (s.tasks j).state) ∧
      (∀ j, ((Sched.schedTick s).tasks j).priority = (s.tasks j).priority) ∧
      (∀ j, Slot j → ((Sched.schedTick s).tasks j).wakeTime =
        if (s.tasks j).state = .blocked then (s.tasks j).wakeTime - 1
        else (s.tasks j).wakeTime) ∧
      (Sched.schedTick s).currentTask = s.currentTask := by
  obtain ⟨-, hstate, hprio, hwake, hcur⟩ :=
    h.tickSlots List.nodup_range' fun i hi => mem_slots.mp hi
  unfold Sched.schedTick
  refine ⟨fun j hj => ?_, hprio, fun j hj => ?_, hcur⟩
  · rw [hstate]
    simp only [mem_slots.mpr hj, true_and]
  · rw [hwake]
    simp only [mem_slots.mpr hj, true_and]

/-- `sched_tick` lets the tasks it wakes join their queues. -/
theorem Lined.schedTick (h : Lined s L) :
    Lined (schedTick s) (fun p => L p ++ wakeList s p (List.range' 1 (TASK_MAX - 1))) ∧
      Passes s .schedTick L fun p => L p ++ wakeList s p (List.range' 1 (TASK_MAX - 1)) := by
  obtain ⟨hlined, -⟩ := h.tickSlots List.nodup_range' fun i hi => mem_slots.mp hi
  obtain ⟨hstate, hprio, -⟩ := h.schedTick_fields
  refine ⟨hlined, fun p _ => ?_⟩
  have hnone : switchedTo p s .schedTick = [] := if_neg (by simp [switchQueue])
  rw [hnone, List.nil_append]
  refine congrArg (L p ++ ·) (List.filter_congr fun i hi => ?_)
  have hi := mem_slots.mp hi
  rw [decide_eq_decide, step_schedTick, hstate i hi, hprio]
  by_cases hw : Waking s i
  · simp [hw, hw.2.1, hw.2.2]
  · simp only [hw, if_false]
    constructor
    · exact fun h => absurd h.2.1 h.1
    · exact fun h => absurd ⟨hi, h.1, h.2.1⟩ hw

end Steps

-- ---------------------------------------------------------------------------
-- Whole runs
-- ---------------------------------------------------------------------------

theorem run_timerHandler (s : State) (rsp : Nat) :
    run step s (Event.timerHandler rsp).ops = taskYield (schedTick s) rsp := by
  simp only [Event.ops, run_cons, run_nil, step]

/-- An event, seen as the calls into `sched.c` behind it. -/
theorem Settled.event {s : State} {L : Nat → List Nat} (h : Settled s L) {e : Event} (he : e.Own) :
    ∃ L', Settled (run step s e.ops) L' ∧ ∀ p ≤ TASK_PRIORITY_MAX,
      L p ++ flow step (becameReady p) s e.ops = flow step (switchedTo p) s e.ops ++ L' p := by
  have hone : ∀ {op L'}, Passes s op L L' → ∀ p ≤ TASK_PRIORITY_MAX,
      L p ++ flow step (becameReady p) s [op] = flow step (switchedTo p) s [op] ++ L' p := by
    intro op L' hpass p hp
    rw [flow, flow, flow, flow, List.append_nil, List.append_nil]
    exact hpass p hp
  cases e with
  | taskCreatePriority entry priority =>
    obtain ⟨L', h', hpass⟩ := h.taskCreatePriority entry priority
    exact ⟨L', h', hone hpass⟩
  | taskYield rsp =>
    obtain ⟨L', h', hpass⟩ := h.taskYield rsp
    exact ⟨L', h', hone hpass⟩
  | taskSleep ms rsp =>
    obtain ⟨L', h', hpass⟩ := h.taskSleep ms rsp
    exact ⟨L', h', hone hpass⟩
  | timerHandler rsp =>
    -- the tick, and then the yield
    obtain ⟨hlined, htick⟩ := h.schedTick
    obtain ⟨L', h', hyield⟩ := hlined.taskYield rsp
    have hflow : ∀ f : State → Op → List Nat, flow step f s (Event.timerHandler rsp).ops =
        f s .schedTick ++ f (schedTick s) (.taskYield rsp) := by
      intro f
      simp only [Event.ops, flow, step, List.append_nil]
    rw [run_timerHandler]
    refine ⟨L', h', fun p hp => ?_⟩
    rw [hflow, hflow, ← List.append_assoc, htick p hp, List.append_assoc, hyield p hp,
      List.append_assoc]
  | taskSetPriority id priority => exact he.elim
  | taskWake id => exact he.elim

theorem Settled.run_own {s : State} {L : Nat → List Nat} (h : Settled s L) {es : List Event}
    (hes : ∀ e ∈ es, e.Own) :
    ∃ L', Settled (run step s (es.flatMap Event.ops)) L' ∧ ∀ p ≤ TASK_PRIORITY_MAX,
      L p ++ flow step (becameReady p) s (es.flatMap Event.ops) =
        flow step (switchedTo p) s (es.flatMap Event.ops) ++ L' p := by
  simp only [← flow_flatMap, ← run_flatMap]
  exact flow_fifo (H := Settled) (C := fun _ e => e.Own) (I := (· ≤ TASK_PRIORITY_MAX))
    (fun s e L hs he => hs.event he) h (meets_of_forall fun e he _ => hes e he)

/-- **First come, first served.** Over every run of the kernel's own calls with one
`sched_start`, the tasks of each priority are switched to in the order in which they
became READY: what became READY is what was switched to, followed by what its ready
queue holds. -/
theorem served_in_order (tasksAddr : Nat) (before after : List Event)
    (hbefore : ∀ e ∈ before, e.Own) (hafter : ∀ e ∈ after, e.Own) {p : Nat}
    (hp : p ≤ TASK_PRIORITY_MAX) :
    let ops := before.flatMap Event.ops ++ .schedStart :: after.flatMap Event.ops
    let s := run step (initial tasksAddr) ops
    ∃ l, Linked 0 s.next (s.readyQueueHead p) l ∧
      flow step (becameReady p) (initial tasksAddr) ops =
        flow step (switchedTo p) (initial tasksAddr) ops ++ l := by
  intro ops s
  obtain ⟨L₁, h₁, heq₁⟩ := (settled_initial tasksAddr).run_own hbefore
  obtain ⟨L₂, h₂, hstart⟩ := h₁.schedStart
  obtain ⟨L₃, h₃, heq₃⟩ := h₂.run_own hafter
  have hs : s = run step (schedStart (run step (initial tasksAddr)
      (before.flatMap Event.ops))) (after.flatMap Event.ops) := run_append ..
  rw [← hs] at h₃
  refine ⟨L₃ p, h₃.queues.links.linked hp (h₃.closed p hp), ?_⟩
  have hflow : ∀ f : State → Op → List Nat, flow step f (initial tasksAddr) ops =
      flow step f (initial tasksAddr) (before.flatMap Event.ops) ++
        (f (run step (initial tasksAddr) (before.flatMap Event.ops)) .schedStart ++
          flow step f (schedStart (run step (initial tasksAddr) (before.flatMap Event.ops)))
            (after.flatMap Event.ops)) := fun f => flow_append
  have hfirst := heq₁ p hp
  rw [List.nil_append] at hfirst
  rw [hflow, hflow, hfirst, List.append_assoc, List.append_assoc, List.append_assoc]
  congr 1
  rw [← List.append_assoc, hstart p hp, List.append_assoc]
  congr 1
  exact heq₃ p hp

/-- Three tasks, a sleeper and two ticks. -/
theorem three_served_in_order :
    let ops := List.flatMap Event.ops [.taskCreatePriority 1 1, .taskCreatePriority 1 1,
        .taskCreatePriority 1 1] ++ .schedStart ::
      List.flatMap Event.ops [.taskSleep 1 0, .timerHandler 0, .timerHandler 0]
    let s := run step (initial 0) ops
    ∃ l, Linked 0 s.next (s.readyQueueHead 1) l ∧
      flow step (becameReady 1) (initial 0) ops = flow step (switchedTo 1) (initial 0) ops ++ l :=
  served_in_order 0 _ _ (by simp [Event.Own]) (by simp [Event.Own]) (by decide)

end AegisKernel.Sched
