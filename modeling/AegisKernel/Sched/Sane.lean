import Mathlib.Logic.Relation
import AegisKernel.Sched.Chains

/-!
# Scheduler — a task table that stays sane

The ready queues can be corrupted (`Chains`), but the task table cannot: as long
as `task_set_priority` is not called with id 0, every queue pointer and link is
0 or a created slot, and slot `i` holds task `i` (`Sane`). What a call is made of is
said once, piece by piece, and what every piece keeps, every call keeps.

* `Edit s s'` — a piece of a call other than `task_create_priority`.
* `step_edits` — the call is a row of such pieces, from every sane state.
* `Sane.step` — every call keeps the table sane, from any sane state.
-/

namespace AegisKernel.Sched

open Library

/-- 0 or a created slot. -/
def Known (s : State) (i : Nat) : Prop := i = 0 ∨ Created s i

/-- The table facts that hold along every run without `task_set_priority(0, …)`,
whatever happens to the queues. -/
structure Sane (s : State) : Prop where
  slots : Slots s
  unused : ∀ i, Slot i → (s.tasks i).state = .empty → (s.tasks i).id = 0
  head : ∀ p, Known s (s.readyQueueHead p)
  next : ∀ i, Known s (s.next i)
  busy : s.schedulerRunning = true → s.currentTask ≠ 0

/-- `task_set_priority` is not called with the id of the empty slots. -/
def NonzeroId : Op → Prop
  | .taskSetPriority id _ => id ≠ 0
  | _ => True

/-- The edit of a created task. -/
structure KeepsTask (s : State) (t t' : Task) : Prop where
  id : t'.id = t.id
  entry : t'.entry = t.entry
  state : t'.state ≠ .empty
  priority : t'.priority ≤ TASK_PRIORITY_MAX
  next : Known s t'.next

/-- A piece of a call: the queue code, or the edit of one task. -/
inductive Edit (s : State) : State → Prop
  | enqueue (p i : Nat) (hi : Created s i) : Edit s (enqueue s p i)
  | dispatch (p : Nat) (hp : s.readyQueueHead p ≠ 0) : Edit s (dispatch s p)
  | start (p : Nat) (hp : s.readyQueueHead p ≠ 0) :
      Edit s (dispatch { s with schedulerRunning := true } p)
  | unlink (p i : Nat) (hi : i ≠ 0) : Edit s (unlink s p i)
  | setTask (i : Nat) (f : Task → Task) (hi : Created s i)
      (hf : KeepsTask s (s.tasks i) (f (s.tasks i))) : Edit s (s.setTask i f)

abbrev Edits : State → State → Prop := Relation.ReflTransGen Edit

-- ---------------------------------------------------------------------------
-- What one piece keeps
-- ---------------------------------------------------------------------------

section Primitives

variable {s s' : State} {p i : Nat}

theorem Known.of_sameTasks (hs : SameTasks s s') (h : Known s i) : Known s' i :=
  h.imp_right fun hi => (Created.of_sameTasks hs).mpr hi

/-- One pointer of an array of them replaced. -/
theorem known_update {g : Nat → Nat} (hg : ∀ j, Known s (g j)) {v : Nat} (hv : Known s v)
    (k j : Nat) : Known s (Function.update g k v j) := by
  rw [Function.update_apply]
  split
  · exact hv
  · exact hg j

/-- Changes of links, queue pointers and the current task. -/
theorem Sane.relink (h : Sane s) (hs : SameTasks s s') (hcounter : s'.taskCounter = s.taskCounter)
    (hcur : Known s s'.currentTask) (hhead : ∀ p, Known s (s'.readyQueueHead p))
    (hnext : ∀ i, Known s (s'.next i))
    (hbusy : s'.schedulerRunning = true → s'.currentTask ≠ 0) : Sane s' := by
  refine ⟨h.slots.of_sameTasks hs hcounter hcur, fun i hi hempty => ?_,
    fun p => (hhead p).of_sameTasks hs, fun i => (hnext i).of_sameTasks hs, hbusy⟩
  rw [hs.state] at hempty
  rw [hs.id]
  exact h.unused i hi hempty

theorem Sane.enqueue (h : Sane s) (hi : Created s i) : Sane (enqueue s p i) := by
  refine h.relink (sameTasks_enqueue s p i) (enqueue_counter ..) ?_ (fun q => ?_) (fun j => ?_) ?_
  · rw [enqueue_current]
    exact h.slots.current
  · rw [enqueue_head]
    refine known_update h.head ?_ p q
    split
    · exact .inr hi
    · exact h.head p
  · rw [enqueue_next]
    split
    · exact h.next j
    · exact known_update h.next (.inr hi) _ j
  · rw [enqueue_running, enqueue_current]
    exact h.busy

theorem Sane.dispatch (h : Sane s) (hp : s.readyQueueHead p ≠ 0) : Sane (dispatch s p) := by
  refine h.relink (sameTasks_dispatch s p) (dispatch_counter ..) ?_ (fun q => ?_) (fun j => ?_) ?_
  · rw [dispatch_current]
    exact h.head p
  · rw [dispatch_head]
    exact known_update h.head (h.next _) p q
  · rw [dispatch_next]
    exact h.next j
  · intro _
    rw [dispatch_current]
    exact hp

theorem Sane.unlink (h : Sane s) (p i : Nat) : Sane (unlink s p i) := by
  -- the head or a link becomes the link of `i`
  have hpointers : (∀ q, Known s ((Sched.unlink s p i).readyQueueHead q)) ∧
      ∀ j, Known s ((Sched.unlink s p i).next j) := by
    unfold Sched.unlink
    dsimp only
    split_ifs
    · exact ⟨known_update h.head (h.next i) p, h.next⟩
    · exact ⟨known_update h.head (h.next i) p, h.next⟩
    · split
      · exact ⟨h.head, h.next⟩
      · rename_i k _
        have hnext : ∀ j, Known s ((s.setNext k (s.next i)).next j) := by
          rw [setNext_next]
          exact known_update h.next (h.next i) k
        split
        · exact ⟨h.head, hnext⟩
        · exact ⟨h.head, hnext⟩
  refine h.relink (sameTasks_unlink s p i) (unlink_counter ..) ?_ hpointers.1 hpointers.2 ?_
  · rw [unlink_current]
    exact h.slots.current
  · rw [unlink_running, unlink_current]
    exact h.busy

/-- One task edited, without emptying or filling its slot or changing its id. -/
theorem Sane.setTask (h : Sane s) {f : Task → Task} (hid : (f (s.tasks i)).id = (s.tasks i).id)
    (hstate : (f (s.tasks i)).state = .empty ↔ (s.tasks i).state = .empty)
    (hprio : Slot i → (f (s.tasks i)).priority ≤ TASK_PRIORITY_MAX)
    (hnext : Known s (f (s.tasks i)).next) : Sane (s.setTask i f) := by
  have hempty : ∀ j, ((s.setTask i f).tasks j).state = .empty ↔ (s.tasks j).state = .empty :=
    fun j => iff_of_eq (setTask_kept (fun t => t.state = .empty) (propext hstate) j)
  have hknown : ∀ {j}, Known s j → Known (s.setTask i f) j := fun hj =>
    hj.imp_right fun hc => ⟨hc.1, fun he => hc.2 ((hempty _).mp he)⟩
  refine ⟨h.slots.edit (SameTasks.refl _) rfl rfl hid hstate hprio, fun j hj he => ?_,
    fun p => hknown (h.head p), fun j => hknown ?_, h.busy⟩
  · rw [setTask_kept Task.id hid j]
    exact h.unused j hj ((hempty j).mp he)
  · rw [setTask_next]
    exact known_update h.next hnext i j

end Primitives

section Pieces

variable {s s' : State} {i : Nat}

/-- Created slots stay created. -/
theorem Edit.created (e : Edit s s') (hi : Created s i) : Created s' i := by
  cases e with
  | enqueue p j hj => exact (Created.of_sameTasks (sameTasks_enqueue s p j)).mpr hi
  | dispatch p hp => exact (Created.of_sameTasks (sameTasks_dispatch s p)).mpr hi
  | start p hp => simpa [Created] using hi
  | unlink p j hj => exact (Created.of_sameTasks (sameTasks_unlink s p j)).mpr hi
  | setTask j f hj hf =>
    refine ⟨hi.1, ?_⟩
    by_cases hij : i = j
    · subst hij
      simpa using hf.state
    · simpa [hij] using hi.2

theorem Edit.counter (e : Edit s s') : s'.taskCounter = s.taskCounter := by
  cases e with
  | enqueue p i hi => exact enqueue_counter s p i
  | dispatch p hp => exact dispatch_counter s p
  | start p hp => exact dispatch_counter _ p
  | unlink p i hi => exact unlink_counter s p i
  | setTask i f hi hf => rfl

theorem Sane.edit (h : Sane s) (e : Edit s s') : Sane s' := by
  cases e with
  | enqueue p i hi => exact h.enqueue hi
  | dispatch p hp => exact h.dispatch hp
  | start p hp =>
    refine h.relink (sameTasks_dispatch { s with schedulerRunning := true } p)
      (dispatch_counter ..) ?_ (fun q => ?_) (fun j => ?_) fun _ => ?_
    · rw [dispatch_current]
      exact h.head p
    · rw [dispatch_head]
      exact known_update h.head (h.next _) p q
    · rw [dispatch_next]
      exact h.next j
    · rw [dispatch_current]
      exact hp
  | unlink p i hi => exact h.unlink p i
  | setTask i f hi hf =>
    exact h.setTask hf.id (by simp [hf.state, hi.2]) (fun _ => hf.priority) hf.next

theorem Sane.edits (h : Sane s) (e : Edits s s') : Sane s' := by
  induction e with
  | refl => exact h
  | tail _ e ih => exact ih.edit e

theorem Edits.counter (e : Edits s s') : s'.taskCounter = s.taskCounter := by
  induction e with
  | refl => rfl
  | tail _ e ih => exact e.counter.trans ih

/-- An edit that changes neither priority nor link. -/
theorem Sane.keepsTask (h : Sane s) (hi : Created s i) {t : Task} (hid : t.id = (s.tasks i).id)
    (hentry : t.entry = (s.tasks i).entry) (hstate : t.state ≠ .empty)
    (hprio : t.priority = (s.tasks i).priority) (hnext : t.next = s.next i) :
    KeepsTask s (s.tasks i) t :=
  ⟨hid, hentry, hstate, hprio ▸ h.slots.prio_le i hi.1, hnext ▸ h.next i⟩

end Pieces

-- ---------------------------------------------------------------------------
-- The calls
-- ---------------------------------------------------------------------------

section Calls

variable {s : State}

theorem sane_initial (tasksAddr : Nat) : Sane (initial tasksAddr) := by
  refine ⟨slots_initial tasksAddr, fun i hi _ => ?_, fun p => .inl (initial_head tasksAddr p),
    fun i => .inl (initial_next tasksAddr i), ?_⟩
  · rw [initial_task _ hi.2]
  · simp [initial, schedInit]

/-- A nonzero id finds a created slot, the one it names. -/
theorem Sane.find_id (h : Sane s) {id i : Nat} (hid : id ≠ 0)
    (hfind : firstSlot (fun i => (s.tasks i).id == id) = some i) : Created s i := by
  obtain ⟨hi, heq⟩ := firstSlot_eq_some hfind
  have heq : (s.tasks i).id = id := by simpa using heq
  refine ⟨hi, fun hempty => hid ?_⟩
  rw [← heq]
  exact h.unused i hi hempty

theorem Sane.taskCreatePriority (h : Sane s) (entry priority : Nat) :
    Sane (taskCreatePriority s entry priority).2 := by
  rcases taskCreatePriority_cases s entry priority with ⟨-, heq⟩ | ⟨slot, -, hslot, heq⟩
  · rw [heq]
    exact h
  obtain ⟨hsl, hempty⟩ := firstSlot_empty hslot
  rw [heq]
  set s₁ : State := State.setTask { s with taskCounter := s.taskCounter + 1 } slot
    (fresh s slot entry (clampPriority priority)) with hs₁
  have hnew : Created s₁ slot := ⟨hsl, by simp [hs₁, fresh]⟩
  -- what was known stays known: the slot taken was EMPTY
  have hknown : ∀ {j}, Known s j → Known s₁ j := by
    intro j hj
    refine hj.imp_right fun hc => ?_
    have hne : j ≠ slot := fun heq => hc.2 (heq ▸ hempty)
    simpa [Created, hs₁, hne] using hc
  have hsane : Sane s₁ := by
    refine ⟨h.slots.create hsl (h.slots.first_empty hslot) hempty (SameTasks.refl _) rfl rfl rfl
      (by simp [fresh]) (clampPriority_le priority), fun i hi he => ?_, fun p => hknown (h.head p),
      fun i => ?_, h.busy⟩
    · have hne : i ≠ slot := fun heq => hnew.2 (heq ▸ he)
      simp only [hs₁, setTask_tasks, Function.update_of_ne hne] at he ⊢
      exact h.unused i hi he
    · rw [hs₁, setTask_next]
      exact known_update (fun j => hknown (h.next j)) (.inl rfl) slot i
  exact hsane.enqueue hnew

theorem taskSetPriority_edits (h : Sane s) {id : Nat} (hid : id ≠ 0) (priority : Nat) :
    Edits s (taskSetPriority s id priority) := by
  unfold taskSetPriority
  dsimp only
  rcases hfind : firstSlot fun i => (s.tasks i).id == id with _ | i
  · exact .refl
  · have hi := h.find_id hid hfind
    dsimp only
    split
    · exact .refl
    · -- the task leaves its old queue, gets its priority, and joins the new one
      have e₁ := Edit.unlink (s := s) (s.tasks i).priority i hi.1.ne_zero
      have h₁ := h.edit e₁
      have hi₁ := e₁.created hi
      have e₂ := Edit.setTask i (fun t => { t with priority := clampPriority priority }) hi₁
        ⟨rfl, rfl, hi₁.2, clampPriority_le priority, h₁.next i⟩
      have hi₂ := e₂.created hi₁
      have e₃ := Edit.enqueue (clampPriority priority) i hi₂
      have h₃ := (h₁.edit e₂).edit e₃
      have hi₃ := e₃.created hi₂
      have e₄ := Edit.setTask i (fun t => { t with next := 0 }) hi₃
        ⟨rfl, rfl, hi₃.2, h₃.slots.prio_le i hi₃.1, .inl rfl⟩
      exact .head e₁ (.head e₂ (.head e₃ (.single e₄)))

theorem schedStart_edits (h : Sane s) : Edits s (schedStart s) := by
  rcases hfind : highestPrio s with _ | p
  · rw [schedStart, hfind]
  · have hne := (highestPrio_eq_some hfind).2
    have e₁ := Edit.start (s := s) p hne
    have hcur := e₁.created ((h.head p).resolve_left hne)
    rw [schedStart_eq hfind]
    refine .head e₁ (.single (.setTask _ _ hcur ?_))
    exact (h.edit e₁).keepsTask hcur rfl rfl (by simp) rfl rfl

theorem taskYield_edits (h : Sane s) (rsp : Nat) : Edits s (taskYield s rsp) := by
  by_cases hsw : s.schedulerRunning = true ∧ s.currentTask ≠ 0 ∧
      s.readyQueueHead (s.tasks s.currentTask).priority ≠ 0
  · obtain ⟨hrun, hc0, hhead⟩ := hsw
    have hold := h.slots.current_created hc0
    have e₁ := Edit.dispatch (s := s) (s.tasks s.currentTask).priority hhead
    have h₁ := h.edit e₁
    have hold₁ := e₁.created hold
    by_cases hst : (s.tasks s.currentTask).state = .running
    · rw [taskYield_eq_of_running hrun hc0 hhead rsp hst]
      have e₂ := Edit.setTask s.currentTask readied hold₁
        ⟨rfl, rfl, by simp [readied], h₁.slots.prio_le _ hold₁.1, .inl rfl⟩
      have hold₂ := e₂.created hold₁
      have e₃ := Edit.enqueue (s.tasks s.currentTask).priority s.currentTask hold₂
      have h₃ := (h₁.edit e₂).edit e₃
      have hold₃ := e₃.created hold₂
      refine .head e₁ (.head e₂ (.head e₃ (.single (.setTask _ _ hold₃ ?_))))
      exact h₃.keepsTask hold₃ rfl rfl hold₃.2 rfl rfl
    · rw [taskYield_eq_of_not_running hrun hc0 hhead rsp hst]
      refine .head e₁ (.single (.setTask _ _ hold₁ ?_))
      exact h₁.keepsTask hold₁ rfl rfl hold₁.2 rfl rfl
  · rw [taskYield_eq_self hsw]

theorem taskSleep_edits (h : Sane s) (ms rsp : Nat) : Edits s (taskSleep s ms rsp) := by
  by_cases hsw : s.schedulerRunning = true ∧ s.currentTask ≠ 0
  · obtain ⟨hrun, hc0⟩ := hsw
    have hold := h.slots.current_created hc0
    have e₁ := Edit.setTask s.currentTask (asleep ms) hold
      (h.keepsTask hold rfl rfl (by simp [asleep]) rfl rfl)
    have hold₁ := e₁.created hold
    by_cases hhead : s.readyQueueHead (s.tasks s.currentTask).priority = 0
    · rw [taskSleep_eq_of_empty hrun hc0 hhead]
      exact .single e₁
    · rw [taskSleep_eq_of_switch hrun hc0 hhead]
      have e₂ := Edit.dispatch (s := s.setTask s.currentTask (asleep ms))
        (s.tasks s.currentTask).priority hhead
      have hold₂ := e₂.created hold₁
      refine .head e₁ (.head e₂ (.single (.setTask _ _ hold₂ ?_)))
      exact ((h.edit e₁).edit e₂).keepsTask hold₂ rfl rfl hold₂.2 rfl rfl
  · rw [taskSleep_eq_self hsw]

theorem taskWake_edits (h : Sane s) (id : Nat) : Edits s (taskWake s id) := by
  unfold taskWake
  rcases hfind : firstSlot fun i => (s.tasks i).id == id && (s.tasks i).state == .blocked with _ | i
  · exact .refl
  · obtain ⟨hslot, hmatch⟩ := firstSlot_eq_some hfind
    have hblocked : (s.tasks i).state = .blocked := by
      rw [Bool.and_eq_true] at hmatch
      simpa using hmatch.2
    have e₁ := Edit.setTask i woken ⟨hslot, by simp [hblocked]⟩
      ⟨rfl, rfl, by simp [woken], h.slots.prio_le i hslot, .inl rfl⟩
    exact .head e₁ (.single (.enqueue _ i (e₁.created ⟨hslot, by simp [hblocked]⟩)))

theorem tickSlot_edits (h : Sane s) {i : Nat} (hi : Slot i) : Edits s (tickSlot s i) := by
  unfold tickSlot
  split
  · rename_i hblocked
    split
    · exact taskWake_edits h _
    · have hcreated : Created s i := ⟨hi, by simp [hblocked.1]⟩
      exact .single (.setTask i _ hcreated (h.keepsTask hcreated rfl rfl hcreated.2 rfl rfl))
  · exact .refl

theorem tickSlots_edits (h : Sane s) {is : List Nat} (his : ∀ i ∈ is, Slot i) :
    Edits s (is.foldl tickSlot s) := by
  induction is generalizing s with
  | nil => exact .refl
  | cons i is ih =>
    have hfirst := tickSlot_edits h (his i (List.mem_cons_self ..))
    exact hfirst.trans (ih (h.edits hfirst) fun j hj => his j (List.mem_cons_of_mem _ hj))

/-- Every call but the one that makes a task. -/
theorem step_edits (h : Sane s) {op : Op} (hop : NonzeroId op)
    (hcreate : ∀ entry priority, op ≠ .taskCreatePriority entry priority) :
    Edits s (step s op) := by
  cases op with
  | taskCreatePriority entry priority => exact absurd rfl (hcreate entry priority)
  | taskSetPriority id priority => exact taskSetPriority_edits h hop priority
  | schedStart => exact schedStart_edits h
  | taskYield rsp => exact taskYield_edits h rsp
  | taskSleep ms rsp => exact taskSleep_edits h ms rsp
  | taskWake id => exact taskWake_edits h id
  | schedTick => exact tickSlots_edits h fun i hi => mem_slots.mp hi

/-- Every call keeps the table sane. -/
theorem Sane.step (h : Sane s) {op : Op} (hop : NonzeroId op) : Sane (step s op) := by
  by_cases hcreate : ∃ entry priority, op = .taskCreatePriority entry priority
  · obtain ⟨entry, priority, rfl⟩ := hcreate
    exact h.taskCreatePriority entry priority
  · exact h.edits (step_edits h hop fun entry priority heq => hcreate ⟨entry, priority, heq⟩)

end Calls

theorem sane_run (tasksAddr : Nat) {ops : List Op} (hops : ∀ op ∈ ops, NonzeroId op) :
    Sane (run step (initial tasksAddr) ops) :=
  run_of_meets (fun _ _ h hop => h.step hop) (sane_initial tasksAddr)
    (meets_of_forall fun op hop _ => hops op hop)

end AegisKernel.Sched
