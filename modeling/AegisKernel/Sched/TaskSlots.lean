import AegisKernel.Sched.Bounds
import AegisKernel.Sched.Sane

/-!
# Scheduler — ids are slots

`task_id_t` is used for ids and for slots alike. They are the same: slots are filled one
after the other and never emptied, and slot `i` gets id `i`. The calls are taken apart
into their pieces (`Edit`), and so are the facts about them:

* `Grows s s'` — created slots stay created and keep their entry function.
* `Tails s` — the tails are 0 or created slots, and the links of empty slots are 0.
* `TaskSlots s k` — the table with `k` tasks; `task_slots` is the result about runs.
-/

namespace AegisKernel.Sched

open Library

/-- Whether a call is a `task_create_priority` that returns an id: 1 if so. -/
def creates (s : State) : Op → Nat
  | .taskCreatePriority entry priority =>
    if (taskCreatePriority s entry priority).1 = 0 then 0 else 1
  | _ => 0

/-- The number of successful creations along a run. -/
def creations (s : State) : List Op → Nat
  | [] => 0
  | op :: ops => creates s op + creations (step s op) ops

/-- The table and the queues with `k` tasks created. -/
structure TaskSlots (s : State) (k : Nat) : Prop where
  le : k ≤ TASK_MAX - 1
  created : ∀ i < TASK_MAX, (s.tasks i).state ≠ .empty ↔ 1 ≤ i ∧ i ≤ k
  id : ∀ i, 1 ≤ i → i ≤ k → (s.tasks i).id = i
  head : ∀ p, Known s (s.readyQueueHead p)
  tail : ∀ p, Known s (s.readyQueueTail p)
  next : ∀ i, Known s (s.next i)
  current : Known s s.currentTask
  priority : ∀ i < TASK_MAX, (s.tasks i).priority ≤ TASK_PRIORITY_MAX

/-- What no call changes. -/
structure Grows (s s' : State) : Prop where
  created : ∀ i, Created s i → Created s' i
  entry : ∀ i, Created s i → (s'.tasks i).entry = (s.tasks i).entry
  zero : (s'.tasks 0).state = (s.tasks 0).state

/-- What a search for a slot that links to another one can rely on. -/
structure Tails (s : State) : Prop where
  tail : ∀ p, Known s (s.readyQueueTail p)
  unlinked : ∀ i, Slot i → (s.tasks i).state = .empty → s.next i = 0

-- ---------------------------------------------------------------------------
-- What one piece keeps
-- ---------------------------------------------------------------------------

section Pieces

variable {s s' s'' : State} {i : Nat}

theorem Grows.refl (s : State) : Grows s s := ⟨fun _ h => h, fun _ _ => rfl, rfl⟩

theorem Grows.trans (h : Grows s s') (h' : Grows s' s'') : Grows s s'' :=
  ⟨fun i hi => h'.created i (h.created i hi),
    fun i hi => (h'.entry i (h.created i hi)).trans (h.entry i hi), h'.zero.trans h.zero⟩

theorem SameTasks.grows (h : SameTasks s s') : Grows s s' :=
  ⟨fun _ hi => (Created.of_sameTasks h).mpr hi, fun i _ => h.entry i, h.state 0⟩

theorem Grows.known (h : Grows s s') (hi : Known s i) : Known s' i := hi.imp_right (h.created i)

/-- A slot that is empty now was empty before. -/
theorem Grows.empty (h : Grows s s') (hi : Slot i) (hempty : (s'.tasks i).state = .empty) :
    (s.tasks i).state = .empty := by
  by_contra hne
  exact (h.created i ⟨hi, hne⟩).2 hempty

theorem Edit.grows (e : Edit s s') : Grows s s' := by
  cases e with
  | enqueue p i hi => exact (sameTasks_enqueue s p i).grows
  | dispatch p hp => exact (sameTasks_dispatch s p).grows
  | start p hp =>
    have hsame : SameTasks s (Sched.dispatch { s with schedulerRunning := true } p) :=
      sameTasks_dispatch { s with schedulerRunning := true } p
    exact hsame.grows
  | unlink p i hi => exact (sameTasks_unlink s p i).grows
  | setTask i f hi hf =>
    refine ⟨fun _ => (Edit.setTask i f hi hf).created,
      fun j _ => setTask_kept Task.entry hf.entry j, ?_⟩
    simp [hi.1.ne_zero.symm]

/-- Tails and links after a piece of which neither is new. -/
theorem Tails.of_grows (h : Tails s) (hg : Grows s s')
    (htail : ∀ p, Known s' (s'.readyQueueTail p))
    (hnext : ∀ i, Slot i → (s'.tasks i).state = .empty → s'.next i = s.next i) : Tails s' :=
  ⟨htail, fun i hi he => (hnext i hi he).trans (h.unlinked i hi (hg.empty hi he))⟩

theorem Tails.created (h : Tails s) (hi : Slot i) (hnext : s.next i ≠ 0) : Created s i :=
  ⟨hi, fun hempty => hnext (h.unlinked i hi hempty)⟩

/-- The search of the removal finds a created slot, as it links to `i`. -/
theorem Tails.unlink (h : Tails s) {p : Nat} (hi : i ≠ 0) :
    (∀ q, Known s ((unlink s p i).readyQueueTail q)) ∧
      ∀ j, Slot j → (s.tasks j).state = .empty → (unlink s p i).next j = s.next j := by
  unfold Sched.unlink
  dsimp only
  split_ifs
  · exact ⟨known_update h.tail (.inl rfl) p, fun _ _ _ => rfl⟩
  · exact ⟨h.tail, fun _ _ _ => rfl⟩
  · rcases hfind : firstSlot fun j => (s.tasks j).next == i with _ | k
    · exact ⟨h.tail, fun _ _ _ => rfl⟩
    · obtain ⟨hk, hlink⟩ := firstSlot_eq_some hfind
      have hlink : s.next k = i := by simpa [State.next] using hlink
      have hcreated := h.created hk (hlink ▸ hi)
      have hnext : ∀ j, Slot j → (s.tasks j).state = .empty →
          (s.setNext k (s.next i)).next j = s.next j := by
        intro j _ hempty
        rw [setNext_next]
        refine Function.update_of_ne ?_ _ _
        rintro rfl
        exact hcreated.2 hempty
      dsimp only
      split
      · exact ⟨known_update h.tail (.inr hcreated) p, hnext⟩
      · exact ⟨h.tail, hnext⟩

theorem Tails.dispatch (h : Tails s) (p : Nat) : Tails (Sched.dispatch s p) := by
  have hg := (sameTasks_dispatch s p).grows
  refine h.of_grows hg (fun q => ?_) fun j _ _ => by rw [dispatch_next]
  rw [dispatch_tail]
  split
  · exact known_update (fun q => hg.known (h.tail q)) (.inl rfl) p q
  · exact hg.known (h.tail q)

theorem Tails.edit (h : Tails s) (he : Edit s s') : Tails s' := by
  have hg := he.grows
  cases he with
  | enqueue p i hi =>
    refine h.of_grows hg (fun q => ?_) fun j hj hempty => ?_
    · rw [enqueue_tail]
      exact known_update (fun q => hg.known (h.tail q)) (.inr (hg.created i hi)) p q
    · -- the slot linked to the new one is the tail, which is created
      rw [enqueue_next]
      split
      · rfl
      · refine Function.update_of_ne ?_ _ _
        rintro rfl
        exact ((h.tail p).resolve_left hj.ne_zero).2 (hg.empty hj hempty)
  | dispatch p hp => exact h.dispatch p
  | start p hp =>
    have hrunning : Tails { s with schedulerRunning := true } := ⟨h.tail, h.unlinked⟩
    exact hrunning.dispatch p
  | unlink p i hi =>
    obtain ⟨htail, hnext⟩ := h.unlink (p := p) hi
    exact h.of_grows hg (fun q => hg.known (htail q)) fun j hj he => hnext j hj (hg.empty hj he)
  | setTask i f hi hf =>
    refine h.of_grows hg (fun q => hg.known (h.tail q)) fun j hj hempty => ?_
    rw [setTask_next]
    refine Function.update_of_ne ?_ _ _
    rintro rfl
    exact hi.2 (hg.empty hj hempty)

theorem Edits.grows (e : Edits s s') : Grows s s' := by
  induction e with
  | refl => exact Grows.refl s
  | tail _ e ih => exact ih.trans e.grows

theorem Tails.edits (h : Tails s) (e : Edits s s') : Tails s' := by
  induction e with
  | refl => exact h
  | tail _ e ih => exact ih.edit e

end Pieces

-- ---------------------------------------------------------------------------
-- Creating a task
-- ---------------------------------------------------------------------------

/-- The invariant of runs without `task_set_priority(0, …)`. -/
structure TaskTable (s : State) : Prop where
  sane : Sane s
  tails : Tails s
  zero : (s.tasks 0).state = .empty
  counter : s.taskCounter ≤ TASK_MAX

section Creating

variable {s : State} {entry priority : Nat}

/-- The call fails without changing anything, or it fills the slot that the counter
names. -/
theorem TaskTable.create_cases (h : TaskTable s) (entry priority : Nat) :
    ((entry = 0 ∨ s.taskCounter = TASK_MAX) ∧ taskCreatePriority s entry priority = (0, s)) ∨
      (entry ≠ 0 ∧ s.taskCounter < TASK_MAX ∧ (s.tasks s.taskCounter).state = .empty ∧
        taskCreatePriority s entry priority = (s.taskCounter,
          enqueue (State.setTask { s with taskCounter := s.taskCounter + 1 } s.taskCounter
            (fresh s s.taskCounter entry (clampPriority priority))) (clampPriority priority)
            s.taskCounter)) := by
  rcases taskCreatePriority_cases s entry priority with ⟨hnull | hnone, heq⟩ |
    ⟨slot, hentry, hslot, heq⟩
  · exact .inl ⟨.inl hnull, heq⟩
  · refine .inl ⟨.inr ?_, heq⟩
    -- an empty slot would have been found
    by_contra hne
    have hslot : Slot s.taskCounter :=
      ⟨h.sane.slots.counter_pos, Nat.lt_of_le_of_ne h.counter hne⟩
    have hempty : (s.tasks s.taskCounter).state = .empty := by
      by_contra hcreated
      exact Nat.lt_irrefl _ ((h.sane.slots.created_iff _ hslot).mp hcreated)
    obtain ⟨j, hj⟩ := firstSlot_isSome (q := fun i => (s.tasks i).state == .empty) hslot
      (by simpa using hempty)
    exact absurd (hnone.symm.trans hj) (by simp)
  · obtain rfl := h.sane.slots.first_empty hslot
    obtain ⟨hsl, hempty⟩ := firstSlot_empty hslot
    exact .inr ⟨hentry, hsl.2, hempty, heq⟩

theorem TaskTable.create_eq_zero_iff (h : TaskTable s) (entry priority : Nat) :
    (taskCreatePriority s entry priority).1 = 0 ↔ entry = 0 ∨ s.taskCounter = TASK_MAX := by
  have hpos := h.sane.slots.counter_pos
  rcases h.create_cases entry priority with ⟨hfail, heq⟩ | ⟨hentry, hlt, -, heq⟩
  · rw [heq]
    exact ⟨fun _ => hfail, fun _ => rfl⟩
  · rw [heq]
    constructor
    · intro hzero
      dsimp only at hzero
      omega
    · rintro (hzero | hfull)
      · exact absurd hzero hentry
      · omega

theorem TaskTable.create_failed (h : TaskTable s)
    (hzero : (taskCreatePriority s entry priority).1 = 0) :
    (taskCreatePriority s entry priority).2 = s := by
  rcases h.create_cases entry priority with ⟨-, heq⟩ | ⟨hentry, hlt, -, -⟩
  · exact congrArg Prod.snd heq
  · rcases (h.create_eq_zero_iff entry priority).mp hzero with hnull | hfull
    · exact absurd hnull hentry
    · omega

theorem TaskTable.create_done (h : TaskTable s)
    (hid : (taskCreatePriority s entry priority).1 ≠ 0) :
    (taskCreatePriority s entry priority).1 = s.taskCounter ∧
      ((taskCreatePriority s entry priority).2.tasks s.taskCounter).entry = entry := by
  rcases h.create_cases entry priority with ⟨-, heq⟩ | ⟨-, -, -, heq⟩
  · exact absurd (congrArg Prod.fst heq) hid
  · rw [heq]
    refine ⟨rfl, ?_⟩
    rw [(sameTasks_enqueue _ _ _).entry]
    simp [fresh]

/-- The slot was empty, so every task is where it was. -/
theorem grows_fresh {slot : Nat} (hslot : Slot slot) (hempty : (s.tasks slot).state = .empty)
    (f : Task → Task) :
    Grows s (State.setTask { s with taskCounter := s.taskCounter + 1 } slot f) := by
  have hne : ∀ j, Created s j → j ≠ slot := fun j hj heq => hj.2 (heq ▸ hempty)
  refine ⟨fun j hj => ⟨hj.1, ?_⟩, fun j hj => ?_, ?_⟩
  · simpa [hne j hj] using hj.2
  · simp [hne j hj]
  · simp [hslot.ne_zero.symm]

theorem TaskTable.create (h : TaskTable s) (entry priority : Nat) :
    let s' := (taskCreatePriority s entry priority).2
    TaskTable s' ∧ Grows s s' ∧
      s'.taskCounter = s.taskCounter + creates s (.taskCreatePriority entry priority) := by
  intro s'
  have hsane : Sane s' := h.sane.taskCreatePriority entry priority
  have hiff := h.create_eq_zero_iff entry priority
  rcases h.create_cases entry priority with ⟨hfail, heq⟩ | ⟨hentry, hlt, hempty, heq⟩
  · have hs' : s' = s := congrArg Prod.snd heq
    rw [creates, if_pos (hiff.mpr hfail), hs']
    exact ⟨h, Grows.refl s, rfl⟩
  · have hslot : Slot s.taskCounter := ⟨h.sane.slots.counter_pos, hlt⟩
    set s₁ : State := State.setTask { s with taskCounter := s.taskCounter + 1 } s.taskCounter
      (fresh s s.taskCounter entry (clampPriority priority)) with hs₁
    have hs' : s' = enqueue s₁ (clampPriority priority) s.taskCounter := congrArg Prod.snd heq
    have hgrows₁ : Grows s s₁ := grows_fresh hslot hempty _
    have hnew : Created s₁ s.taskCounter := ⟨hslot, by simp [hs₁, fresh]⟩
    have htails₁ : Tails s₁ := by
      refine h.tails.of_grows hgrows₁ (fun p => hgrows₁.known (h.tails.tail p)) fun j _ he => ?_
      rw [hs₁, setTask_next]
      refine Function.update_of_ne ?_ _ _
      rintro rfl
      exact hnew.2 he
    have hedit := Edit.enqueue (clampPriority priority) s.taskCounter hnew
    have hgrows := hgrows₁.trans hedit.grows
    have hcounter : s'.taskCounter = s.taskCounter + 1 := by
      rw [hs', hedit.counter]
      rfl
    have hresult : ¬ (taskCreatePriority s entry priority).1 = 0 := by
      rw [hiff]
      rintro (hzero | hfull)
      · exact hentry hzero
      · omega
    rw [creates, if_neg hresult]
    refine ⟨⟨hsane, ?_, ?_, by omega⟩, hs' ▸ hgrows, hcounter⟩
    · rw [hs']
      exact htails₁.edit hedit
    · rw [hs', hgrows.zero]
      exact h.zero

/-- One call. -/
theorem TaskTable.step (h : TaskTable s) {op : Op} (hop : NonzeroId op) :
    TaskTable (step s op) ∧ Grows s (step s op) ∧
      (step s op).taskCounter = s.taskCounter + creates s op := by
  by_cases hcreate : ∃ entry priority, op = .taskCreatePriority entry priority
  · obtain ⟨entry, priority, rfl⟩ := hcreate
    exact h.create entry priority
  · have hedits := step_edits h.sane hop fun entry priority heq => hcreate ⟨entry, priority, heq⟩
    have hnone : creates s op = 0 := by
      cases op with
      | taskCreatePriority entry priority => exact absurd ⟨entry, priority, rfl⟩ hcreate
      | _ => rfl
    have hcounter := hedits.counter
    refine ⟨⟨h.sane.step hop, h.tails.edits hedits, ?_, ?_⟩, hedits.grows, ?_⟩
    · rw [hedits.grows.zero]
      exact h.zero
    · rw [hcounter]
      exact h.counter
    · rw [hcounter, hnone]
      rfl

end Creating

-- ---------------------------------------------------------------------------
-- Whole runs
-- ---------------------------------------------------------------------------

theorem taskTable_initial (tasksAddr : Nat) : TaskTable (initial tasksAddr) := by
  refine ⟨sane_initial tasksAddr, ⟨fun p => .inl (initial_tail tasksAddr p),
    fun i _ _ => initial_next tasksAddr i⟩, ?_, zero_lt_taskMax⟩
  rw [initial_task _ zero_lt_taskMax]

theorem TaskTable.run {s : State} (h : TaskTable s) {ops : List Op}
    (hops : ∀ op ∈ ops, NonzeroId op) :
    TaskTable (run Sched.step s ops) ∧ Grows s (run Sched.step s ops) ∧
      (run Sched.step s ops).taskCounter = s.taskCounter + creations s ops := by
  induction ops generalizing s with
  | nil => exact ⟨h, Grows.refl s, rfl⟩
  | cons op ops ih =>
    obtain ⟨h₁, hgrows₁, hcounter₁⟩ := h.step (hops op (List.mem_cons_self ..))
    obtain ⟨h₂, hgrows₂, hcounter₂⟩ := ih h₁ fun op' hop' => hops op' (List.mem_cons_of_mem _ hop')
    refine ⟨h₂, hgrows₁.trans hgrows₂, ?_⟩
    rw [run_cons, hcounter₂, hcounter₁, creations, Nat.add_assoc]

/-- The table as it is numbered by `task_counter`. -/
theorem TaskTable.taskSlots {s : State} {k : Nat} (h : TaskTable s) (hbounded : Bounded s)
    (hk : s.taskCounter = 1 + k) : TaskSlots s k := by
  have hslots := h.sane.slots
  have hcounter := h.counter
  have hcreated : ∀ i < TASK_MAX, (s.tasks i).state ≠ .empty ↔ 1 ≤ i ∧ i ≤ k := by
    intro i hi
    rcases slot_or_zero hi with rfl | hslot
    · simp [h.zero]
    · have hpos := hslot.1
      rw [hslots.created_iff i hslot, hk]
      omega
  refine ⟨by omega, hcreated, fun i hpos hle => ?_, h.sane.head, h.tails.tail, h.sane.next,
    hslots.current, hbounded.priority⟩
  have hi : i < TASK_MAX := by omega
  exact hslots.id_eq i ⟨⟨hpos, hi⟩, (hcreated i hi).mpr ⟨hpos, hle⟩⟩

/-- **Task slots and indices.** After any run whose calls do not set the priority of
task 0, with `k` tasks created: the slots `1 … k` hold the tasks `1 … k`, the others are
empty, and all links and pointers are 0 or among them; whatever calls follow, a task
keeps its entry function; the next creation fails exactly without an entry function or
without a slot, and then changes nothing; and the next call, whatever it is, stays inside
the arrays. -/
theorem task_slots (tasksAddr : Nat) (before later : List Op)
    (hbefore : ∀ op ∈ before, NonzeroId op) (hlater : ∀ op ∈ later, NonzeroId op) :
    let s := run step (initial tasksAddr) before
    let k := creations (initial tasksAddr) before
    TaskSlots s k ∧
      (∀ i, 1 ≤ i → i ≤ k → ((run step s later).tasks i).entry = (s.tasks i).entry) ∧
      (∀ entry priority,
        ((taskCreatePriority s entry priority).1 = 0 ↔ entry = 0 ∨ k = TASK_MAX - 1) ∧
        ((taskCreatePriority s entry priority).1 = 0 →
          (taskCreatePriority s entry priority).2 = s) ∧
        ((taskCreatePriority s entry priority).1 ≠ 0 →
          (taskCreatePriority s entry priority).1 = k + 1 ∧
            ((taskCreatePriority s entry priority).2.tasks (k + 1)).entry = entry)) ∧
      (∀ op, Checked.step s op = some (step s op)) ∧
      Checked.schedCurrent s = some (schedCurrent s) := by
  intro s k
  obtain ⟨h, -, hcounter⟩ : TaskTable s ∧ Grows _ s ∧ s.taskCounter = 1 + k :=
    (taskTable_initial tasksAddr).run hbefore
  have hbounded : Bounded s := (Checked.run_eq tasksAddr before).inv
  have hslots := h.taskSlots hbounded hcounter
  refine ⟨hslots, fun i hpos hle => ?_, fun entry priority =>
    ⟨?_, h.create_failed, fun hid => ?_⟩, fun op => (hbounded.step op).eq, hbounded.schedCurrent⟩
  · have hi : i < TASK_MAX := by
      have hle' := hslots.le
      unfold TASK_MAX at *
      omega
    exact (h.run hlater).2.1.entry i ⟨⟨hpos, hi⟩, (hslots.created i hi).mpr ⟨hpos, hle⟩⟩
  · rw [h.create_eq_zero_iff entry priority, hcounter]
    unfold TASK_MAX
    omega
  · have hdone := h.create_done hid
    rwa [hcounter, Nat.add_comm] at hdone

/-- Two tasks, the second of them moved to the highest queue and put to sleep. -/
theorem task_slots_two :
    TaskSlots (run step (initial 0) [.taskCreatePriority 7 1, .taskCreatePriority 8 1,
        .taskSetPriority 2 5, .schedStart, .taskSleep 3 0])
      (creations (initial 0) [.taskCreatePriority 7 1, .taskCreatePriority 8 1,
        .taskSetPriority 2 5, .schedStart, .taskSleep 3 0]) :=
  (task_slots 0 _ [.schedTick, .taskWake 2] (by simp [NonzeroId]) (by simp [NonzeroId])).1

end AegisKernel.Sched
