import AegisKernel.Sched.Agreement

/-!
# Scheduler — queues and first choice before the start

Until `sched_start` every created task is on a ready queue and no slot keeps a
stale link, so `task_create_priority` and `task_set_priority` do what they are
for: each queue lists its tasks in the order in which they entered it.

* `Arrivals` — the abstract model: the created tasks with their priorities, in
  the order of their last entry into a queue; `arrive` is the effect of a call
  and `entered as p` the tasks of priority `p`.
* `ArrivalInv` — the queues of the state are those of the arrivals.
* `queues_before_start` — the chains along every run before the start, and what
  `sched_start` then does to them.
-/

namespace AegisKernel.Sched

open Library

-- ---------------------------------------------------------------------------
-- Order of entry
-- ---------------------------------------------------------------------------

/-- Tasks by id with their priority; the last to enter its queue comes last. -/
abbrev Arrivals := List (Nat × Nat)

/-- A new task gets the next id, while there is room for one. A task whose
priority changes leaves its queue and enters another. -/
def arrive (as : Arrivals) : Op → Arrivals
  | .taskCreatePriority _ priority =>
    if as.length < TASK_MAX - 1 then as ++ [(as.length + 1, clampPriority priority)] else as
  | .taskSetPriority id priority =>
    -- setting the same priority does not move a task
    if (id, clampPriority priority) ∈ as then as
    else as.filter (fun a => a.1 ≠ id) ++ [(id, clampPriority priority)]
  | _ => as

/-- The tasks of priority `p`, first to enter first. -/
def entered (as : Arrivals) (p : Nat) : List Nat := (as.filter fun a => a.2 = p).map Prod.fst

section Entered

variable {as : Arrivals} {i p q : Nat}

theorem mem_entered : i ∈ entered as p ↔ (i, p) ∈ as := by
  simp [entered]

theorem entered_concat_self : entered (as ++ [(i, p)]) p = entered as p ++ [i] := by
  simp [entered]

theorem entered_concat_of_ne (h : q ≠ p) : entered (as ++ [(i, p)]) q = entered as q := by
  simp [entered, Ne.symm h]

theorem entered_nodup (h : (as.map Prod.fst).Nodup) : (entered as p).Nodup :=
  h.sublist (List.filter_sublist.map _)

/-- Without task `i`, its own queue loses it and the others stay. -/
theorem entered_filter (h : (as.map Prod.fst).Nodup) :
    entered (as.filter fun a => a.1 ≠ i) q = (entered as q).erase i := by
  rw [(entered_nodup h).erase_eq_filter]
  unfold entered
  rw [List.filter_filter, List.filter_map, List.filter_filter]
  congr 1
  refine List.filter_congr fun a _ => ?_
  rw [Bool.eq_iff_iff]
  simp [and_comm]

theorem length_filter_fst (h : (as.map Prod.fst).Nodup) (hi : (i, p) ∈ as) :
    (as.filter fun a => a.1 ≠ i).length + 1 = as.length := by
  have hmap : (as.filter fun a => a.1 ≠ i).map Prod.fst = (as.map Prod.fst).erase i := by
    rw [h.erase_eq_filter, List.filter_map]
    congr 1
    refine List.filter_congr fun a _ => ?_
    rw [Bool.eq_iff_iff]
    simp
  have hmem : i ∈ as.map Prod.fst := List.mem_map_of_mem (f := Prod.fst) hi
  have hlen := congrArg List.length hmap
  rw [List.length_map, List.length_erase_of_mem hmem, List.length_map] at hlen
  have hpos := List.length_pos_of_mem hi
  omega

/-- A task has one priority. -/
theorem priority_unique (h : (as.map Prod.fst).Nodup) (hp : (i, p) ∈ as) (hq : (i, q) ∈ as) :
    p = q := by
  have heq := List.inj_on_of_nodup_map h hp hq rfl
  exact (Prod.mk.inj heq).2

end Entered

-- ---------------------------------------------------------------------------
-- The invariant
-- ---------------------------------------------------------------------------

/-- The ready queues hold the arrivals, and the scheduler has not started. -/
structure ArrivalInv (s : State) (as : Arrivals) : Prop where
  agree : AgreeInv s (entered as)
  idle : s.schedulerRunning = false
  count : as.length + 1 = s.taskCounter
  prio_le : ∀ a ∈ as, a.2 ≤ TASK_PRIORITY_MAX
  distinct : (as.map Prod.fst).Nodup

section Invariant

variable {s : State} {L L' : Nat → List Nat} {as : Arrivals} {i p : Nat}

/-- The links determine the lists. -/
theorem AgreeInv.of_queues (h : AgreeInv s L) (hQ : Queues s L') : AgreeInv s L' := by
  have hsame : ∀ p ≤ TASK_PRIORITY_MAX, L p = L' p := fun p hp =>
    (h.queues.links.linked hp (h.closed p hp)).unique (hQ.links.linked hp (h.closed p hp))
  refine { h with queues := hQ, ready := fun i hi hic => ?_ }
  obtain ⟨hst, hmem⟩ := h.ready i hi hic
  refine ⟨hst, ?_⟩
  rw [← hsame _ (hQ.slots.prio_le i hi.1)]
  exact hmem

theorem arrivalInv_initial (tasksAddr : Nat) : ArrivalInv (initial tasksAddr) [] where
  agree := agreeInv_initial tasksAddr
  idle := rfl
  count := rfl
  prio_le := by simp
  distinct := by simp

/-- Every created task has arrived. -/
theorem ArrivalInv.arrived (h : ArrivalInv s as) (hi : Created s i) :
    (i, (s.tasks i).priority) ∈ as := by
  have hnc : i ≠ s.currentTask := by
    rw [h.agree.idle h.idle]
    exact hi.1.ne_zero
  exact mem_entered.mp (h.agree.ready i hi hnc).2

/-- Only created tasks have. -/
theorem ArrivalInv.created (h : ArrivalInv s as) (hi : (i, p) ∈ as) :
    Created s i ∧ (s.tasks i).priority = p :=
  h.agree.queues.members p (h.prio_le _ hi) i (mem_entered.mpr hi)

/-- A created task is found by its id in its own slot: the slots before it are
created too and have other ids. -/
theorem Slots.find_id (hS : Slots s) (hi : Created s i) :
    firstSlot (fun j => (s.tasks j).id == i) = some i := by
  obtain ⟨j, hj⟩ := firstSlot_isSome (q := fun j => (s.tasks j).id == i) hi.1
    (by simp [hS.id_eq i hi])
  obtain ⟨hjsl, hjid⟩ := firstSlot_eq_some hj
  have hjid : (s.tasks j).id = i := by simpa using hjid
  have hle : j ≤ i := by
    by_contra hlt
    have hno := firstSlot_min hj hi.1 (by omega)
    simp [hS.id_eq i hi] at hno
  have hlt := (hS.created_iff i hi.1).mp hi.2
  have hjcr : Created s j := ⟨hjsl, (hS.created_iff j hjsl).mpr (by omega)⟩
  rw [hj, ← hS.id_eq j hjcr, hjid]

end Invariant

-- ---------------------------------------------------------------------------
-- One call at a time
-- ---------------------------------------------------------------------------

section Calls

variable {s : State} {as : Arrivals} {entry priority i : Nat}

/-- The table is full exactly when 63 tasks have arrived. -/
theorem ArrivalInv.full_iff (h : ArrivalInv s as) :
    firstSlot (fun i => (s.tasks i).state == .empty) = none ↔ ¬ as.length < TASK_MAX - 1 := by
  have hS := h.agree.queues.slots
  have hcount := h.count
  constructor
  · intro hnone hlt
    have hsl : Slot s.taskCounter := ⟨hS.counter_pos, by omega⟩
    have hempty : (s.tasks s.taskCounter).state = .empty := by
      by_contra hne
      exact absurd ((hS.created_iff _ hsl).mp hne) (lt_irrefl _)
    obtain ⟨j, hj⟩ := firstSlot_isSome (q := fun i => (s.tasks i).state == .empty) hsl
      (by simp [hempty])
    rw [hnone] at hj
    cases hj
  · intro hfull
    by_contra hne
    obtain ⟨slot, hslot⟩ := Option.ne_none_iff_exists'.mp hne
    have hlt := (firstSlot_eq_some hslot).1.2
    rw [hS.first_empty hslot] at hlt
    omega

theorem ArrivalInv.taskCreatePriority (h : ArrivalInv s as) (priority : Nat)
    (hentry : entry ≠ 0) :
    ArrivalInv (taskCreatePriority s entry priority).2
      (arrive as (.taskCreatePriority entry priority)) := by
  rcases hslot : firstSlot (fun i => (s.tasks i).state == .empty) with _ | slot
  · -- no room: nothing happens
    have heq : (Sched.taskCreatePriority s entry priority).2 = s := by
      simp [Sched.taskCreatePriority, hslot]
    rw [heq, arrive, if_neg (h.full_iff.mp hslot)]
    exact h
  have hroom : as.length < TASK_MAX - 1 := by
    by_contra hfull
    rw [h.full_iff.mpr hfull] at hslot
    cases hslot
  have hnew : slot = as.length + 1 := by
    rw [h.count]
    exact h.agree.queues.slots.first_empty hslot
  have hempty := (firstSlot_empty hslot).2
  have hp := clampPriority_le priority
  obtain ⟨hno, hQ', -⟩ := h.agree.queues.create h.agree.closed priority hentry hslot
  obtain ⟨L', hagree⟩ := h.agree.taskCreatePriority entry priority
  have hlists : Function.update (entered as) (clampPriority priority)
      (requeued (entered as (clampPriority priority)) slot) =
      entered (as ++ [(slot, clampPriority priority)]) := by
    funext q
    by_cases hq : q = clampPriority priority
    · subst hq
      rw [Function.update_self, requeued_of_not_mem hno, entered_concat_self]
    · rw [Function.update_of_ne hq, entered_concat_of_ne hq]
  rw [hlists] at hQ'
  rw [arrive, if_pos hroom, ← hnew]
  refine ⟨hagree.of_queues hQ', ?_, ?_, ?_, ?_⟩
  · have hrun : (step s (.taskCreatePriority entry priority)).schedulerRunning =
        s.schedulerRunning := step_running (by simp)
    exact hrun.trans h.idle
  · rw [taskCreatePriority_eq hentry hslot, enqueue_counter, setTask_counter, ← h.count,
      List.length_append, List.length_singleton]
  · intro a ha
    rcases List.mem_append.mp ha with ha | ha
    · exact h.prio_le a ha
    · rw [List.mem_singleton.mp ha]
      exact hp
  · rw [List.map_append, List.map_singleton]
    refine List.nodup_append.mpr ⟨h.distinct, List.nodup_singleton _, fun a ha b hb hab => ?_⟩
    -- the slot was empty, so its id is a new one
    rw [hab, List.mem_singleton.mp hb] at ha
    obtain ⟨⟨k, q⟩, hmem, hk⟩ := List.mem_map.mp ha
    obtain rfl : k = slot := hk
    exact (h.created hmem).1.2 hempty

/-- Before the start every created task may be moved: the scan for its
predecessor cannot stop at a slot that is on no queue. -/
theorem ArrivalInv.movable (h : ArrivalInv s as) (hi : Created s i)
    (hne : (s.tasks i).priority ≠ clampPriority priority) : Movable s i := by
  by_contra hbad
  have hfind := h.agree.queues.slots.find_id hi
  rcases h.agree.queues.setPriority_stray h.agree.closed hfind hne hbad with
    ⟨hempty, -⟩ | ⟨-, ⟨j, hj, hjq⟩, -⟩
  · exact hi.2 hempty
  · refine hjq (h.agree.scan_queued hi.1.ne_zero hj ?_)
    rw [h.agree.idle h.idle]
    exact (firstSlot_eq_some hj).1.ne_zero

/-- A change of priority takes the task off its queue and appends it to the
new one. -/
theorem Queues.setPriority_lists {L : Nat → List Nat} (hQ : Queues s L) (hc : Closed s)
    (hi : Created s i) (hmem : i ∈ L (s.tasks i).priority)
    (hne : (s.tasks i).priority ≠ clampPriority priority) (hgood : Movable s i) :
    Queues (taskSetPriority s i priority)
      (Function.update (Function.update L (s.tasks i).priority ((L (s.tasks i).priority).erase i))
        (clampPriority priority) (L (clampPriority priority) ++ [i])) := by
  have hp := hQ.slots.prio_le i hi.1
  have hp' := clampPriority_le priority
  have hqd : Queued s i := (hQ.links.queued_iff hc).mpr ⟨_, hp, hmem⟩
  have hscan := hgood.2 hqd
  simp only [hQ.links.queued_iff hc] at hscan
  obtain ⟨hL₁, hc₁⟩ := hQ.links.unlink_queued hc hp hmem hscan
  set L₁ := Function.update L (s.tasks i).priority ((L (s.tasks i).priority).erase i) with hL₁def
  have hsub : ∀ q j, j ∈ L₁ q → j ∈ L q := by
    intro q j hj
    by_cases hq : q = (s.tasks i).priority
    · subst hq
      rw [hL₁def, Function.update_self] at hj
      exact List.mem_of_mem_erase hj
    · rwa [hL₁def, Function.update_of_ne hq] at hj
  have hgone : ∀ q ≤ TASK_PRIORITY_MAX, i ∉ L₁ q := by
    intro q hq hiq
    obtain rfl := hQ.members.only i q hq (hsub q i hiq)
    rw [hL₁def, Function.update_self] at hiq
    exact (hQ.links.queue _ hq).nodup.not_mem_erase hiq
  have hcr₁ := (Created.of_sameTasks (sameTasks_unlink s (s.tasks i).priority i)).mpr hi
  obtain ⟨hQ₂, -⟩ := (hQ.unlink hL₁ fun q _ j hj => hsub q j hj).move hc₁ hp' hcr₁ hgone
  rw [requeued_of_not_mem (hgone _ hp')] at hQ₂
  have hnew : L₁ (clampPriority priority) = L (clampPriority priority) :=
    Function.update_of_ne hne.symm _ _
  rw [hQ.taskSetPriority_eq (hQ.slots.find_id hi) hne, ← hnew]
  exact hQ₂

theorem ArrivalInv.taskSetPriority (h : ArrivalInv s as) (hi : Created s i) :
    ArrivalInv (taskSetPriority s i priority) (arrive as (.taskSetPriority i priority)) := by
  have harrived := h.arrived hi
  have hfind := h.agree.queues.slots.find_id hi
  by_cases hsame : (s.tasks i).priority = clampPriority priority
  · have heq : Sched.taskSetPriority s i priority = s := by
      simp [Sched.taskSetPriority, hfind, hsame]
    rw [heq, arrive, if_pos (hsame ▸ harrived)]
    exact h
  have hother : (i, clampPriority priority) ∉ as := fun hmem =>
    hsame (priority_unique h.distinct harrived hmem)
  have hp' := clampPriority_le priority
  have hgood := h.movable hi hsame
  have hQ' := h.agree.queues.setPriority_lists h.agree.closed hi (mem_entered.mpr harrived)
    hsame hgood
  obtain ⟨L', hagree⟩ := h.agree.taskSetPriority hfind hsame hgood
  -- queue by queue: the old one, the new one, and those without the task
  have hlists : Function.update (Function.update (entered as) (s.tasks i).priority
      ((entered as (s.tasks i).priority).erase i)) (clampPriority priority)
      (entered as (clampPriority priority) ++ [i]) =
      entered (as.filter (fun a => a.1 ≠ i) ++ [(i, clampPriority priority)]) := by
    have hkept : ∀ q, q ≠ (s.tasks i).priority → (entered as q).erase i = entered as q := by
      intro q hq
      refine List.erase_of_not_mem fun hmem => hq ?_
      exact priority_unique h.distinct (mem_entered.mp hmem) harrived
    funext q
    by_cases hq : q = clampPriority priority
    · subst hq
      rw [Function.update_self, entered_concat_self, entered_filter h.distinct,
        hkept _ (Ne.symm hsame)]
    · rw [Function.update_of_ne hq, entered_concat_of_ne hq, entered_filter h.distinct]
      by_cases hq' : q = (s.tasks i).priority
      · subst hq'
        rw [Function.update_self]
      · rw [Function.update_of_ne hq', hkept q hq']
  rw [hlists] at hQ'
  rw [arrive, if_neg hother]
  refine ⟨hagree.of_queues hQ', ?_, ?_, ?_, ?_⟩
  · have hrun : (step s (.taskSetPriority i priority)).schedulerRunning =
        s.schedulerRunning := step_running (by simp)
    exact hrun.trans h.idle
  · rw [List.length_append, List.length_singleton, length_filter_fst h.distinct harrived, h.count,
      h.agree.queues.taskSetPriority_eq hfind hsame, enqueue_counter, setTask_counter,
      unlink_counter]
  · intro a ha
    rcases List.mem_append.mp ha with ha | ha
    · exact h.prio_le a (List.mem_of_mem_filter ha)
    · rw [List.mem_singleton.mp ha]
      exact hp'
  · rw [List.map_append, List.map_singleton]
    refine List.nodup_append.mpr ⟨h.distinct.sublist (List.filter_sublist.map _),
      List.nodup_singleton _, fun a ha b hb hab => ?_⟩
    rw [hab, List.mem_singleton.mp hb] at ha
    obtain ⟨k, hmem, hk⟩ := List.mem_map.mp ha
    simpa [hk] using (List.mem_filter.mp hmem).2

end Calls

-- ---------------------------------------------------------------------------
-- Whole runs, and the start
-- ---------------------------------------------------------------------------

/-- The chain of queue `p` visits exactly `l` and ends at the tail. -/
structure Chain (s : State) (p : Nat) (l : List Nat) : Prop where
  linked : Linked 0 s.next (s.readyQueueHead p) l
  nodup : l.Nodup
  tail : s.readyQueueTail p = l.getLastD 0
  ends : s.readyQueueTail p ≠ 0 → s.next (s.readyQueueTail p) = 0

/-- The calls considered: a task to create has an entry, and the task whose
priority is set has been created. -/
def BeforeStart (s : State) : Op → Prop
  | .taskCreatePriority entry _ => entry ≠ 0
  | .taskSetPriority id _ => ∃ i, Created s i ∧ (s.tasks i).id = id
  | _ => False

/-- What `sched_start` does when `p` is the highest non-empty queue. -/
structure StartsFirst (L : Nat → List Nat) (s' : State) (p : Nat) : Prop where
  current : (L p).head? = some s'.currentTask
  started : s'.schedulerRunning = true
  running : (s'.tasks s'.currentTask).state = .running
  own : Chain s' p (L p).tail
  others : ∀ q ≤ TASK_PRIORITY_MAX, q ≠ p → Chain s' q (L q)

section Start

variable {s : State} {L : Nat → List Nat} {p : Nat}

theorem Queues.chain (hQ : Queues s L) (hc : Closed s) (hp : p ≤ TASK_PRIORITY_MAX) :
    Chain s p (L p) where
  linked := hQ.links.linked hp (hc p hp)
  nodup := (hQ.links.queue p hp).nodup
  tail := (hQ.links.queue p hp).getLastD.symm
  ends := hc p hp

/-- The choice of `sched_start`. -/
theorem highestPrio_of_highest (hp : p ≤ TASK_PRIORITY_MAX) (hne : s.readyQueueHead p ≠ 0)
    (hhigh : ∀ q ≤ TASK_PRIORITY_MAX, p < q → s.readyQueueHead q = 0) :
    highestPrio s = some p := by
  have hlist : (List.range (TASK_PRIORITY_MAX + 1)).reverse = [2, 1, 0] := rfl
  have hcases : p = 0 ∨ p = 1 ∨ p = 2 := by
    unfold TASK_PRIORITY_MAX at hp
    omega
  unfold highestPrio
  rw [hlist]
  rcases hcases with rfl | rfl | rfl
  · have h1 := hhigh 1 (by decide) (by decide)
    have h2 := hhigh 2 (by decide) (by decide)
    simp [h1, h2, hne]
  · have h2 := hhigh 2 (by decide) (by decide)
    simp [h2, hne]
  · simp [hne]

theorem Queues.startsFirst (hQ : Queues s L) (hc : Closed s) (hp : p ≤ TASK_PRIORITY_MAX)
    (hne : L p ≠ []) (hhigh : ∀ q ≤ TASK_PRIORITY_MAX, p < q → L q = []) :
    StartsFirst L (schedStart s) p := by
  have hhead : ∀ q ≤ TASK_PRIORITY_MAX, s.readyQueueHead q = 0 ↔ L q = [] := fun q hq =>
    (hQ.links.queue q hq).head_eq_nil_iff
  have hprio : highestPrio s = some p :=
    highestPrio_of_highest hp (fun h0 => hne ((hhead p hp).mp h0)) fun q hq hpq =>
      (hhead q hq).mpr (hhigh q hq hpq)
  obtain ⟨l, hl, hQ', hc'⟩ := hQ.start hc hprio
  have hcur : (schedStart s).currentTask = s.readyQueueHead p := by
    rw [schedStart_eq hprio]
    simp
  refine ⟨?_, ?_, ?_, ?_, fun q hq hqp => ?_⟩
  · rw [hl, hcur]
    rfl
  · rw [schedStart_eq hprio]
    simp
  · rw [hcur, schedStart_eq hprio]
    simp
  · have hchain := hQ'.chain hc' hp
    rw [Function.update_self] at hchain
    rw [hl]
    exact hchain
  · have hchain := hQ'.chain hc' hq
    rwa [Function.update_of_ne hqp] at hchain

end Start

/-- Along a run before the start the queues are those of the arrivals. -/
theorem arrivalInv_run {s : State} {as : Arrivals} (h : ArrivalInv s as) {ops : List Op}
    (hops : Meets step BeforeStart s ops) :
    ArrivalInv (run step s ops) (run arrive as ops) := by
  induction ops generalizing s as with
  | nil => exact h
  | cons op ops ih =>
    obtain ⟨hop, hops⟩ := hops
    have hnext : ArrivalInv (step s op) (arrive as op) := by
      cases op with
      | taskCreatePriority entry priority => exact h.taskCreatePriority priority hop
      | taskSetPriority id priority =>
        obtain ⟨i, hi, hid⟩ := hop
        obtain rfl : id = i := hid.symm.trans (h.agree.queues.slots.id_eq i hi)
        exact h.taskSetPriority hi
      | schedStart => exact hop.elim
      | taskYield rsp => exact hop.elim
      | taskSleep ms rsp => exact hop.elim
      | taskWake id => exact hop.elim
      | schedTick => exact hop.elim
    exact ih hnext hops

/-- **Queues and first choice before the start.** After any calls before the
start, each queue is a chain that lists the created tasks of its priority in the
order of their last entry. `sched_start` makes the first task of the highest
non-empty queue current and RUNNING, takes it off its queue, and leaves the other
chains alone. -/
theorem queues_before_start (tasksAddr : Nat) (ops : List Op)
    (hops : Meets step BeforeStart (initial tasksAddr) ops) :
    let s := run step (initial tasksAddr) ops
    ∃ L : Nat → List Nat,
      (∀ p ≤ TASK_PRIORITY_MAX, Chain s p (L p) ∧
        (∀ i, i ∈ L p ↔ Created s i ∧ (s.tasks i).priority = p) ∧
        (L p).map (fun i => (s.tasks i).id) = entered (run arrive [] ops) p) ∧
      ∀ p ≤ TASK_PRIORITY_MAX, L p ≠ [] →
        (∀ q ≤ TASK_PRIORITY_MAX, p < q → L q = []) → StartsFirst L (schedStart s) p := by
  intro s
  have hinv := arrivalInv_run (arrivalInv_initial tasksAddr) hops
  have hQ := hinv.agree.queues
  have hc := hinv.agree.closed
  refine ⟨entered (run arrive [] ops), fun p hp => ⟨hQ.chain hc hp, fun i => ?_, ?_⟩,
    fun p hp hne hhigh => hQ.startsFirst hc hp hne hhigh⟩
  · constructor
    · exact hQ.members p hp i
    · rintro ⟨hi, rfl⟩
      exact mem_entered.mpr (hinv.arrived hi)
  · -- slot and id of a created task are the same number
    have hids : ∀ i ∈ entered (run arrive [] ops) p, (s.tasks i).id = id i := fun i hi =>
      hQ.slots.id_eq i (hQ.members p hp i hi).1
    rw [List.map_congr_left hids, List.map_id]

/-- A task whose priority is raised queues up behind the task created with it. -/
theorem raised_task_queues_last :
    let s := run step (initial 0)
      [.taskCreatePriority 1 1, .taskCreatePriority 1 9, .taskSetPriority 1 2]
    ∃ l, Chain s 2 l ∧ l.map (fun i => (s.tasks i).id) = [2, 1] := by
  obtain ⟨L, hL, -⟩ := queues_before_start 0
    [.taskCreatePriority 1 1, .taskCreatePriority 1 9, .taskSetPriority 1 2]
    ⟨Nat.one_ne_zero, Nat.one_ne_zero, ⟨1, ⟨⟨by decide, by decide⟩, by decide⟩, by decide⟩, trivial⟩
  obtain ⟨hchain, -, hids⟩ := hL 2 (by decide)
  exact ⟨L 2, hchain, hids⟩

end AegisKernel.Sched
