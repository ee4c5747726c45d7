import Mathlib.Data.List.Rotate
import AegisKernel.Sched.Arrival

/-!
# Scheduler — round robin among tasks of one priority

Tasks of one priority are to take turns: each `task_yield` moves the current
task behind the others. The first one does. It leaves the task it switches to
READY, though, and `task_yield` only requeues a RUNNING task, so every later
one drops the task that yields, until one task is left.

* `InRotation s p ids k` — the current task and queue `p` behind it are `ids`
  rotated by `k`.
* `Turn.yieldAll` — later yields shorten the queue and add nothing to it.
* `inRotation_iff` — the tasks are in rotation after `k` yields exactly when
  there is one task or `k` is at most 1.
-/

namespace AegisKernel.Sched

open Library

/-- Creates a task for each entry; the ids returned, and the state after it. -/
def createAll (s : State) (priority : Nat) : List Nat → List Nat × State
  | [] => ([], s)
  | entry :: entries =>
    let (id, s') := taskCreatePriority s entry priority
    let (ids, s'') := createAll s' priority entries
    (id :: ids, s'')

/-- `sched_start` after the creations, and one `task_yield` for each saved stack
pointer. -/
def takeTurns (tasksAddr priority : Nat) (entries rsps : List Nat) : State :=
  run taskYield (schedStart (createAll (initial tasksAddr) priority entries).2) rsps

/-- The current task, and the others queued behind it, are `ids` rotated by `k`. -/
def InRotation (s : State) (p : Nat) (ids : List Nat) (k : Nat) : Prop :=
  ∃ l, Chain s p l ∧ (s.currentTask :: l).map (fun i => (s.tasks i).id) = ids.rotate k

-- ---------------------------------------------------------------------------
-- Turns
-- ---------------------------------------------------------------------------

/-- A task of priority `p` is current, and the queues are in order. -/
structure Turn (s : State) (L : Nat → List Nat) (p : Nat) : Prop where
  queues : Queues s L
  closed : Closed s
  running : s.schedulerRunning = true
  current : s.currentTask ≠ 0
  prio : (s.tasks s.currentTask).priority = p

/-- No task is RUNNING any more. -/
def NoneRunning (s : State) : Prop := ∀ i, Created s i → (s.tasks i).state ≠ .running

section Turns

variable {s : State} {L : Nat → List Nat} {p : Nat}

theorem Turn.prio_le (h : Turn s L p) : p ≤ TASK_PRIORITY_MAX := by
  rw [← h.prio]
  exact h.queues.slots.prio_le _ (h.queues.slots.current_created h.current).1

/-- Slots and ids are the same numbers, and the links determine the queue. -/
theorem Turn.rotation_iff (h : Turn s L p) {ids : List Nat} {k : Nat} :
    InRotation s p ids k ↔ s.currentTask :: L p = ids.rotate k := by
  have hchain := h.queues.chain h.closed h.prio_le
  have hids : (s.currentTask :: L p).map (fun i => (s.tasks i).id) = s.currentTask :: L p := by
    have hall : ∀ i ∈ s.currentTask :: L p, (s.tasks i).id = id i := by
      intro i hi
      rcases List.mem_cons.mp hi with rfl | hi
      · exact h.queues.slots.id_eq _ (h.queues.slots.current_created h.current)
      · exact h.queues.slots.id_eq i (h.queues.members p h.prio_le i hi).1
    rw [List.map_congr_left hall, List.map_id]
  constructor
  · rintro ⟨l, hl, hrot⟩
    obtain rfl := hchain.linked.unique hl.linked
    rwa [hids] at hrot
  · intro hrot
    exact ⟨L p, hchain, hids.trans hrot⟩

theorem Turn.head_eq_zero_iff (h : Turn s L p) :
    s.readyQueueHead (s.tasks s.currentTask).priority = 0 ↔ L p = [] := by
  rw [h.prio]
  exact (h.queues.links.queue p h.prio_le).head_eq_nil_iff

/-- Alone on its priority, a task that yields stays current. -/
theorem Turn.yield_alone (h : Turn s L p) (rsp : Nat) (hl : L p = []) : taskYield s rsp = s :=
  taskYield_eq_self fun hsw => hsw.2.2 (h.head_eq_zero_iff.mpr hl)

theorem Turn.yieldAll_alone (h : Turn s L p) (hl : L p = []) (rsps : List Nat) :
    run taskYield s rsps = s := by
  induction rsps with
  | nil => rfl
  | cons rsp rsps ih => rw [run_cons, h.yield_alone rsp hl, ih]

/-- The task switched to is of the same priority, and the scheduler goes on. -/
theorem Turn.of_yield (h : Turn s L p) {rsp : Nat} {l : List Nat} {i : Nat} (hl : L p = i :: l)
    {L' : Nat → List Nat} (hQ' : Queues (taskYield s rsp) L') (hc' : Closed (taskYield s rsp))
    (hcur : (taskYield s rsp).currentTask = i)
    (hprio : ((taskYield s rsp).tasks i).priority = (s.tasks i).priority) :
    Turn (taskYield s rsp) L' p := by
  have hmem := h.queues.members p h.prio_le i (by simp [hl])
  have hrun : (step s (.taskYield rsp)).schedulerRunning = s.schedulerRunning :=
    step_running (by simp)
  refine ⟨hQ', hc', hrun.trans h.running, ?_, ?_⟩
  · rw [hcur]
    exact hmem.1.1.ne_zero
  · rw [hcur, hprio]
    exact hmem.2

/-- The first yield: the RUNNING task goes to the end, as READY. -/
theorem Turn.yield_first (h : Turn s L p) (rsp : Nat) (hagree : AgreeInv s L)
    {l : List Nat} {i : Nat} (hl : L p = i :: l) (hout : s.currentTask ∉ L p) :
    (taskYield s rsp).currentTask = i ∧ NoneRunning (taskYield s rsp) ∧
      Turn (taskYield s rsp) (Function.update L p (l ++ [s.currentTask])) p := by
  have hst := (hagree.busy h.running).2
  have hhead : s.readyQueueHead (s.tasks s.currentTask).priority ≠ 0 := by
    rw [ne_eq, h.head_eq_zero_iff, hl]
    simp
  obtain ⟨l', hl', hQ', hc'⟩ :=
    h.queues.yield_running h.closed h.running h.current hhead rsp hst
  obtain ⟨hcur, hfields⟩ := taskYield_fields h.running h.current hhead rsp
  have htailne : s.readyQueueTail (s.tasks s.currentTask).priority ≠ s.currentTask := by
    intro ht
    rw [h.prio] at ht
    have hmem := (h.queues.links.queue p h.prio_le).tail_mem (ht ▸ h.current)
    exact hout (ht ▸ hmem)
  have hclosed := hc'.mpr fun hbad => htailne hbad.2
  rw [h.prio] at hl' hQ' hcur
  rw [hl] at hl'
  obtain ⟨hi, rfl⟩ := List.cons.inj hl'
  have hcl : s.currentTask ∉ l := fun hmem => hout (by simp [hl, hmem])
  rw [requeued_of_not_mem hcl] at hQ'
  have hcur : (taskYield s rsp).currentTask = i := hcur.trans hi.symm
  refine ⟨hcur, fun j hj => ?_, h.of_yield hl hQ' hclosed hcur (hfields i).1⟩
  -- the current task is READY now, and the others were
  rw [(hfields j).2]
  split
  · simp
  · rename_i hne
    have hjc : j ≠ s.currentTask := fun hjc => hne ⟨hjc, hst⟩
    have hcr : Created s j := ⟨hj.1, by simpa [(hfields j).2, hjc] using hj.2⟩
    rw [(hagree.ready j hcr hjc).1]
    simp

/-- A later yield: the READY task that yields is dropped. -/
theorem Turn.yield_later (h : Turn s L p) (rsp : Nat) (hnone : NoneRunning s) {l : List Nat}
    {i : Nat} (hl : L p = i :: l) :
    NoneRunning (taskYield s rsp) ∧ Turn (taskYield s rsp) (Function.update L p l) p := by
  have hst := hnone _ (h.queues.slots.current_created h.current)
  have hhead : s.readyQueueHead (s.tasks s.currentTask).priority ≠ 0 := by
    rw [ne_eq, h.head_eq_zero_iff, hl]
    simp
  obtain ⟨l', hl', hQ', hc'⟩ :=
    h.queues.yield_not_running h.closed h.running h.current hhead rsp hst
  obtain ⟨hcur, hfields⟩ := taskYield_fields h.running h.current hhead rsp
  rw [h.prio] at hl' hQ' hcur
  rw [hl] at hl'
  obtain ⟨hi, rfl⟩ := List.cons.inj hl'
  have hstates : ∀ j, ((taskYield s rsp).tasks j).state = (s.tasks j).state := by
    intro j
    rw [(hfields j).2, if_neg fun hrunning => hst hrunning.2]
  refine ⟨fun j hj => ?_, h.of_yield hl hQ' hc' (hcur.trans hi.symm) (hfields i).1⟩
  rw [hstates]
  exact hnone j ⟨hj.1, hstates j ▸ hj.2⟩

/-- Later yields only ever take tasks off the queue. -/
theorem Turn.yieldAll (h : Turn s L p) (hnone : NoneRunning s) (rsps : List Nat) :
    ∃ L', Turn (run taskYield s rsps) L' p ∧ L' p = (L p).drop rsps.length := by
  induction rsps generalizing s L with
  | nil => exact ⟨L, h, rfl⟩
  | cons rsp rsps ih =>
    rw [run_cons]
    rcases hl : L p with _ | ⟨i, l⟩
    · -- nobody left to switch to
      rw [h.yield_alone rsp hl]
      obtain ⟨L', hturn, hL'⟩ := ih h hnone
      exact ⟨L', hturn, by rw [hL', hl, List.drop_nil, List.drop_nil]⟩
    · obtain ⟨hnone', hturn'⟩ := h.yield_later rsp hnone hl
      obtain ⟨L', hturn, hL'⟩ := ih hturn' hnone'
      rw [Function.update_self] at hL'
      exact ⟨L', hturn, by rw [hL', List.length_cons, List.drop_succ_cons]⟩

end Turns

-- ---------------------------------------------------------------------------
-- The creations and the start
-- ---------------------------------------------------------------------------

section Start

variable {s : State} {as : Arrivals} {priority : Nat}

/-- While there is room, a creation returns the next id. -/
theorem ArrivalInv.create_id (h : ArrivalInv s as) (priority : Nat) {entry : Nat}
    (hentry : entry ≠ 0) (hroom : as.length < TASK_MAX - 1) :
    (Sched.taskCreatePriority s entry priority).1 = as.length + 1 := by
  rcases taskCreatePriority_cases s entry priority with ⟨hnull | hfull, -⟩ | ⟨slot, -, -, heq⟩
  · exact absurd hnull hentry
  · exact absurd hroom (h.full_iff.mp hfull)
  · rw [heq, h.count]

/-- The tasks created arrive in the order of their creation. -/
theorem ArrivalInv.createAll (h : ArrivalInv s as) (priority : Nat) {entries : List Nat}
    (hentries : ∀ e ∈ entries, e ≠ 0) (hroom : as.length + entries.length ≤ TASK_MAX - 1) :
    (createAll s priority entries).1.length = entries.length ∧
      ArrivalInv (createAll s priority entries).2
        (as ++ (createAll s priority entries).1.map fun id => (id, clampPriority priority)) := by
  induction entries generalizing s as with
  | nil => exact ⟨rfl, by simpa [Sched.createAll] using h⟩
  | cons entry entries ih =>
    rw [List.length_cons] at hroom
    have hentry := hentries entry (List.mem_cons_self ..)
    have hlt : as.length < TASK_MAX - 1 := by omega
    have hnext := h.taskCreatePriority priority hentry
    rw [arrive, if_pos hlt, ← h.create_id priority hentry hlt] at hnext
    have hroom' : (as ++ [((Sched.taskCreatePriority s entry priority).1,
        clampPriority priority)]).length + entries.length ≤ TASK_MAX - 1 := by
      rw [List.length_append, List.length_singleton]
      omega
    obtain ⟨hlen, hinv⟩ := ih hnext (fun e he => hentries e (List.mem_cons_of_mem _ he)) hroom'
    rw [List.append_assoc] at hinv
    exact ⟨congrArg (· + 1) hlen, hinv⟩

/-- After `sched_start` the first task created is current, and the others are
queued behind it. -/
theorem started_turn {ids : List Nat} {c : Nat}
    (h : ArrivalInv s ((c :: ids).map fun id => (id, clampPriority priority))) :
    ∃ L, Turn (schedStart s) L (clampPriority priority) ∧ AgreeInv (schedStart s) L ∧
      (schedStart s).currentTask = c ∧ L (clampPriority priority) = ids ∧ c ∉ ids := by
  set p := clampPriority priority with hpdef
  have hp : p ≤ TASK_PRIORITY_MAX := clampPriority_le priority
  have hown : entered ((c :: ids).map fun id => (id, p)) p = c :: ids := by
    unfold entered
    rw [List.filter_eq_self.mpr (by simp), List.map_map]
    exact List.map_id _
  have hrest : ∀ q, q ≠ p → entered ((c :: ids).map fun id => (id, p)) q = [] := by
    intro q hq
    have hnone : ((c :: ids).map fun id => (id, p)).filter (fun a => a.2 = q) = [] := by
      refine List.filter_eq_nil_iff.mpr fun a ha => ?_
      obtain ⟨id, -, rfl⟩ := List.mem_map.mp ha
      simpa using Ne.symm hq
    rw [entered, hnone, List.map_nil]
  have hQ := h.agree.queues
  have hc := h.agree.closed
  obtain ⟨hcr, hprio⟩ := hQ.members p hp c (by rw [hown]; exact List.mem_cons_self ..)
  have hhead : s.readyQueueHead p = c := by
    have hlinked := hQ.links.linked hp (hc p hp)
    rw [hown] at hlinked
    exact (seg_cons_iff.mp hlinked).1
  have hhighest : highestPrio s = some p := by
    refine highestPrio_of_highest hp (hhead ▸ hcr.1.ne_zero) fun q hq hpq => ?_
    rw [(hQ.links.queue q hq).head_eq_nil_iff]
    exact hrest q (by omega)
  obtain ⟨l, hl, hQ', hc'⟩ := hQ.start hc hhighest
  rw [hown] at hl
  obtain ⟨-, rfl⟩ := List.cons.inj hl
  obtain ⟨L', hagree⟩ := h.agree.schedStart h.idle
  have hstart := schedStart_eq hhighest
  have hcur : (schedStart s).currentTask = c := by
    rw [hstart, ← hhead]
    simp
  refine ⟨_, ⟨hQ', hc', ?_, ?_, ?_⟩, hagree.of_queues hQ', hcur, Function.update_self .., ?_⟩
  · rw [hstart]
    simp
  · rw [hcur]
    exact hcr.1.ne_zero
  · rw [hcur, hstart, hhead]
    simp [hprio]
  · have hnodup := (hQ.links.queue p hp).nodup
    rw [hown] at hnodup
    exact (List.nodup_cons.mp hnodup).1

end Start

-- ---------------------------------------------------------------------------
-- Round robin
-- ---------------------------------------------------------------------------

/-- **Round robin.** After `n` creations of one priority, from 1 to 63, and the
start, `k` yields leave the tasks in rotation exactly when `n` is 1 or `k` is at
most 1. -/
theorem inRotation_iff (tasksAddr priority : Nat) (entries rsps : List Nat)
    (hne : entries ≠ []) (hlen : entries.length ≤ 63) (hentries : ∀ e ∈ entries, e ≠ 0) :
    InRotation (takeTurns tasksAddr priority entries rsps) (clampPriority priority)
        (createAll (initial tasksAddr) priority entries).1 rsps.length ↔
      entries.length = 1 ∨ rsps.length ≤ 1 := by
  obtain ⟨hcount, hinv⟩ := (arrivalInv_initial tasksAddr).createAll priority
    hentries (by simpa [TASK_MAX] using hlen)
  rw [List.nil_append] at hinv
  unfold takeTurns
  set s := (createAll (initial tasksAddr) priority entries).2
  rcases hids : (createAll (initial tasksAddr) priority entries).1 with _ | ⟨c, ids⟩
  · rw [hids] at hcount
    exact absurd (List.length_eq_zero_iff.mp hcount.symm) hne
  rw [hids] at hinv hcount
  obtain ⟨L, hturn, hagree, hcur, hL, hout⟩ := started_turn hinv
  rw [← hcount]
  rcases ids with _ | ⟨i, l⟩
  · -- one task: no yield does anything
    rw [hturn.yieldAll_alone hL, hturn.rotation_iff, hcur, hL, List.rotate_singleton]
    simp
  rcases rsps with _ | ⟨rsp, rsps⟩
  · -- before the first yield
    rw [run_nil, hturn.rotation_iff, hcur, hL]
    simp
  obtain ⟨hcur', hnone, hturn'⟩ := hturn.yield_first rsp hagree hL (by rw [hcur, hL]; exact hout)
  rcases rsps with _ | ⟨rsp', rsps⟩
  · -- the first yield
    rw [run_cons, run_nil, hturn'.rotation_iff, hcur', Function.update_self, hcur]
    simp
  · -- from the second one on a task is missing
    obtain ⟨L', hlast, hL'⟩ := hturn'.yieldAll hnone (rsp' :: rsps)
    rw [Function.update_self] at hL'
    rw [run_cons, hlast.rotation_iff, hL']
    refine iff_of_false (fun hrot => ?_) (by simp)
    have hshort := congrArg List.length hrot
    simp only [List.length_cons, List.length_drop, List.length_append, List.length_rotate,
      List.length_nil] at hshort
    omega

/-- Three tasks, one yield: in rotation. -/
theorem one_yield_in_rotation :
    InRotation (takeTurns 0 1 [1, 1, 1] [0]) 1 (createAll (initial 0) 1 [1, 1, 1]).1 1 :=
  (inRotation_iff 0 1 [1, 1, 1] [0] (by decide) (by decide) (by decide)).mpr (.inr (by decide))

/-- Two tasks, two yields: task 1 is current again, and task 2 is on no queue. -/
theorem second_yield_loses_task :
    let s := takeTurns 0 1 [1, 1] [0, 0]
    (createAll (initial 0) 1 [1, 1]).1 = [1, 2] ∧ schedCurrent s = 1 ∧
      s.readyQueueHead 1 = 0 ∧ ¬ InRotation s 1 [1, 2] 2 := by
  intro s
  have hcur : s.currentTask = 1 := by decide
  have hhead : s.readyQueueHead 1 = 0 := by decide
  refine ⟨by decide, by decide, hhead, ?_⟩
  rintro ⟨l, hl, hrot⟩
  have hnil : l = [] := hl.linked.head_eq_nil_iff.mp hhead
  have hlen := congrArg List.length hrot
  rw [hnil] at hlen
  exact absurd hlen (by decide)

end AegisKernel.Sched
