import AegisKernel.Library.Runs
import AegisKernel.Proc.Definitions

/-!
# Process server — who is in which slot

No request ever clears a `pid`. The slots are therefore filled one after the
other, and slot `i` holds pid `i + 1` for good: `Filled s n` says that the first
`n` slots are taken and that `next_pid` is `n + 1`. A request fills slot `n`,
marks one slot TERMINATED, or changes nothing (`step_cases`).

The result about whole runs is `process_identity`. `PROC_KILL` of pid 0 finds
the first free slot, and marks that one TERMINATED; the next `PROC_SPAWN` takes
it all the same.
-/

namespace AegisKernel.Proc

open Library

/-- The first `n` slots are taken, in the order of their pids. -/
structure Filled (s : State) (n : Nat) : Prop where
  pos : 1 ≤ n
  le : n ≤ MAX_PROCESSES
  next : s.nextPid.toNat = n + 1
  pid : ∀ i < MAX_PROCESSES, (s.processTable i).pid.toNat = if i < n then i + 1 else 0

/-- The table after `proc_spawn` into slot `i`. -/
def spawned (s : State) (i : Nat) (name : Bytes) : State :=
  setProcess { s with nextPid := s.nextPid + 1#64 } i fun p =>
    { p with pid := s.nextPid, name := (strncpy p.name name 31).set 31 0, state := .ready,
             parentPid := 0#64, exitCode := 0 }

/-- The table after `proc_kill` of slot `i`. -/
def killed (s : State) (i : Nat) : State :=
  setProcess s i fun p => { p with state := .terminated, exitCode := -1 }

theorem filled_start : Filled start 1 := by
  refine ⟨le_refl _, by decide, rfl, fun i _ => ?_⟩
  by_cases hi : i = 0
  · subst hi
    rfl
  · have hlt : ¬ i < 1 := by omega
    simp [start, setProcess, emptyTable, hi, hlt]

section OneRequest

variable {s : State} {n : Nat}

theorem findPid_eq_some {pid : Word} {i : Nat} (h : findPid s pid = some i) :
    i < MAX_PROCESSES ∧ (s.processTable i).pid = pid := by
  have hmem := List.mem_of_find?_eq_some h
  exact ⟨List.mem_range.mp hmem, by simpa using List.find?_some h⟩

theorem findPid_eq_none {pid : Word} (h : findPid s pid = none) :
    ∀ i < MAX_PROCESSES, (s.processTable i).pid ≠ pid := by
  intro i hi
  simpa using List.find?_eq_none.mp h i (List.mem_range.mpr hi)

theorem Filled.free_iff (h : Filled s n) {i : Nat} (hi : i < MAX_PROCESSES) :
    (s.processTable i).pid = 0#64 ↔ n ≤ i := by
  rw [← BitVec.toNat_inj, h.pid i hi]
  split
  · simpa using by omega
  · simpa using by omega

/-- `proc_spawn` finds slot `n`, as long as there is one. -/
theorem Filled.findPid_zero (h : Filled s n) :
    findPid s 0#64 = if n < MAX_PROCESSES then some n else none := by
  unfold findPid
  split
  · rename_i hlt
    rw [List.find?_range_eq_some]
    refine ⟨?_, List.mem_range.mpr hlt, fun j hj => ?_⟩
    · simpa using (h.free_iff hlt).mpr (le_refl n)
    · have htaken : ¬ (s.processTable j).pid = 0#64 := by
        rw [h.free_iff (by omega)]
        omega
      simpa using htaken
  · rename_i hge
    rw [List.find?_range_eq_none]
    intro i hi
    have htaken : ¬ (s.processTable i).pid = 0#64 := by
      rw [h.free_iff hi]
      omega
    simpa using htaken

/-- Everything a request can do: fill slot `n`, mark the slot it names
TERMINATED, or nothing. -/
theorem step_cases (h : Filled s n) (m : Msg) :
    (m.type = PROC_SPAWN ∧ n < MAX_PROCESSES ∧ ∃ name, step s m = spawned s n name) ∨
      (m.type = PROC_KILL ∧ ∃ i < MAX_PROCESSES, (s.processTable i).pid = m.arg0 ∧
        step s m = killed s i) ∨
      ((m.type = PROC_SPAWN → n = MAX_PROCESSES) ∧
        (m.type = PROC_KILL → ∀ i < MAX_PROCESSES, (s.processTable i).pid ≠ m.arg0) ∧
        step s m = s) := by
  have hne : PROC_KILL ≠ PROC_SPAWN := by decide
  unfold step handle
  by_cases hspawn : m.type = PROC_SPAWN
  · rw [if_pos hspawn]
    unfold procSpawn
    rw [h.findPid_zero]
    by_cases hlt : n < MAX_PROCESSES
    · rw [if_pos hlt]
      exact .inl ⟨hspawn, hlt, _, rfl⟩
    · rw [if_neg hlt]
      have hn := h.le
      exact .inr (.inr ⟨fun _ => by omega, fun hk => absurd (hk.symm.trans hspawn) hne, rfl⟩)
  · rw [if_neg hspawn]
    by_cases hkill : m.type = PROC_KILL
    · rw [if_pos hkill]
      unfold procKill
      rcases hfind : findPid s m.arg0 with _ | i
      · exact .inr (.inr ⟨fun hs => absurd hs hspawn, fun _ => findPid_eq_none hfind, rfl⟩)
      · obtain ⟨hi, hpid⟩ := findPid_eq_some hfind
        exact .inr (.inl ⟨hkill, i, hi, hpid, rfl⟩)
    · -- the other requests only print
      rw [if_neg hkill]
      refine .inr (.inr ⟨fun hs => absurd hs hspawn, fun hk => absurd hk hkill, ?_⟩)
      split_ifs
      · rfl
      · unfold procGetInfo
        split <;> rfl
      · rfl

theorem Filled.spawned (h : Filled s n) (hlt : n < MAX_PROCESSES) (name : Bytes) :
    Filled (spawned s n name) (n + 1) := by
  have hnext := h.next
  refine ⟨by omega, hlt, ?_, fun i hi => ?_⟩
  · -- at most 64 pids are ever given out, so the counter does not wrap
    show (s.nextPid + 1#64).toNat = n + 1 + 1
    unfold MAX_PROCESSES at hlt
    rw [BitVec.toNat_add, hnext]
    simp only [BitVec.toNat_ofNat]
    omega
  · by_cases hin : i = n
    · subst hin
      rw [if_pos (by omega)]
      simpa [Proc.spawned, setProcess] using hnext
    · have hpid : ((Proc.spawned s n name).processTable i).pid = (s.processTable i).pid := by
        simp [Proc.spawned, setProcess, hin]
      rw [hpid, h.pid i hi]
      split <;> split <;> omega

theorem killed_pid (i j : Nat) :
    ((killed s i).processTable j).pid = (s.processTable j).pid := by
  by_cases hj : j = i
  · subst hj
    simp [killed, setProcess]
  · simp [killed, setProcess, hj]

theorem Filled.killed (h : Filled s n) (i : Nat) : Filled (killed s i) n := by
  refine ⟨h.pos, h.le, h.next, fun j hj => ?_⟩
  rw [killed_pid]
  exact h.pid j hj

/-- How many slots are taken after a request. -/
theorem Filled.step (h : Filled s n) (m : Msg) :
    Filled (step s m) (if m.type = PROC_SPAWN ∧ n < MAX_PROCESSES then n + 1 else n) := by
  rcases step_cases h m with ⟨hs, hlt, name, heq⟩ | ⟨hk, i, -, -, heq⟩ | ⟨hs, -, heq⟩
  · rw [if_pos ⟨hs, hlt⟩, heq]
    exact h.spawned hlt name
  · have hno : ¬ (m.type = PROC_SPAWN ∧ n < MAX_PROCESSES) := by
      rw [hk]
      exact fun hs => absurd hs.1 (by decide)
    rw [if_neg hno, heq]
    exact h.killed i
  · have hno : ¬ (m.type = PROC_SPAWN ∧ n < MAX_PROCESSES) := fun hb =>
      absurd (hs hb.1) (Nat.ne_of_lt hb.2)
    rw [if_neg hno, heq]
    exact h

end OneRequest

/-! ## Identity along a run -/

/-- The same process, except that it may have terminated. -/
structure SameProcess (p p' : ProcessInfo) : Prop where
  pid : p'.pid = p.pid
  name : p'.name = p.name
  parentPid : p'.parentPid = p.parentPid
  state : p'.state = p.state ∨ p'.state = .terminated

/-- The pids that appear in the table with one request. -/
def newPids (s s' : State) : List Word :=
  ((List.range MAX_PROCESSES).filter fun i =>
    (s'.processTable i).pid != (s.processTable i).pid).map fun i => (s'.processTable i).pid

/-- The pids assigned along a run. -/
def assignedPids (s : State) : List Msg → List Word
  | [] => []
  | m :: ms => newPids s (step s m) ++ assignedPids (step s m) ms

section Identity

variable {s : State} {n : Nat}

theorem SameProcess.refl (p : ProcessInfo) : SameProcess p p := ⟨rfl, rfl, rfl, .inl rfl⟩

theorem SameProcess.trans {p p' p'' : ProcessInfo} (h : SameProcess p p')
    (h' : SameProcess p' p'') : SameProcess p p'' := by
  refine ⟨h'.pid.trans h.pid, h'.name.trans h.name, h'.parentPid.trans h.parentPid, ?_⟩
  rcases h'.state with hst | hst
  · rw [hst]
    exact h.state
  · exact .inr hst

/-- A request changes at most one slot, and leaves the taken ones to the same
processes. -/
theorem Filled.step_slots (h : Filled s n) (m : Msg) :
    (∃ i, ∀ j, j ≠ i → (Proc.step s m).processTable j = s.processTable j) ∧
      ∀ i < n, SameProcess (s.processTable i) ((Proc.step s m).processTable i) := by
  rcases step_cases h m with ⟨-, -, name, heq⟩ | ⟨-, k, -, -, heq⟩ | ⟨-, -, heq⟩
  · have hother : ∀ j, j ≠ n → (Proc.step s m).processTable j = s.processTable j := by
      intro j hj
      rw [heq]
      simp [Proc.spawned, setProcess, hj]
    refine ⟨⟨n, hother⟩, fun i hi => ?_⟩
    rw [hother i (by omega)]
    exact SameProcess.refl _
  · refine ⟨⟨k, fun j hj => ?_⟩, fun i _ => ?_⟩
    · rw [heq]
      simp [Proc.killed, setProcess, hj]
    · rw [heq]
      by_cases hik : i = k
      · subst hik
        refine ⟨killed_pid i i, ?_, ?_, .inr ?_⟩ <;> simp [Proc.killed, setProcess]
      · simp only [Proc.killed, setProcess, Function.update_of_ne hik]
        exact SameProcess.refl _
  · rw [heq]
    exact ⟨⟨0, fun _ _ => rfl⟩, fun i _ => SameProcess.refl _⟩

/-- A `PROC_SPAWN` that succeeds gives out `next_pid`; nothing else gives out a
pid. -/
theorem Filled.newPids_step (h : Filled s n) (m : Msg) :
    newPids s (Proc.step s m) =
      if m.type = PROC_SPAWN ∧ n < MAX_PROCESSES then [s.nextPid] else [] := by
  have hsame : ∀ s' : State, (∀ i, (s'.processTable i).pid = (s.processTable i).pid) →
      newPids s s' = [] := by
    intro s' hpid
    simp [newPids, hpid]
  rcases step_cases h m with ⟨hs, hlt, name, heq⟩ | ⟨hk, i, -, -, heq⟩ | ⟨hs, -, heq⟩
  · rw [if_pos ⟨hs, hlt⟩, heq]
    have hfilter : (List.range MAX_PROCESSES).filter (fun i =>
        ((Proc.spawned s n name).processTable i).pid != (s.processTable i).pid) = [n] := by
      have hslot : ∀ i ∈ List.range MAX_PROCESSES,
          (((Proc.spawned s n name).processTable i).pid != (s.processTable i).pid) = (i == n) := by
        intro i hi
        by_cases hin : i = n
        · subst hin
          have hfree := (h.free_iff hlt).mpr (le_refl i)
          have hnext : s.nextPid ≠ 0#64 := by
            intro h0
            have := h.next
            rw [h0] at this
            simp at this
          simpa [Proc.spawned, setProcess, hfree] using hnext
        · simp [Proc.spawned, setProcess, hin]
      rw [List.filter_congr hslot, List.filter_beq,
        List.count_eq_one_of_mem List.nodup_range (List.mem_range.mpr hlt)]
      rfl
    unfold newPids
    rw [hfilter]
    simp [Proc.spawned, setProcess]
  · have hno : ¬ (m.type = PROC_SPAWN ∧ n < MAX_PROCESSES) := by
      rw [hk]
      exact fun hs => absurd hs.1 (by decide)
    rw [if_neg hno, heq]
    exact hsame _ fun j => killed_pid i j
  · have hno : ¬ (m.type = PROC_SPAWN ∧ n < MAX_PROCESSES) := fun hb =>
      absurd (hs hb.1) (Nat.ne_of_lt hb.2)
    rw [if_neg hno, heq]
    exact hsame s fun _ => rfl

theorem Filled.run (h : Filled s n) (ms : List Msg) :
    ∃ k, n ≤ k ∧ Filled (run Proc.step s ms) k ∧
      ∀ i < n, SameProcess (s.processTable i) ((run Proc.step s ms).processTable i) := by
  induction ms generalizing s n with
  | nil => exact ⟨n, le_refl n, h, fun i _ => SameProcess.refl _⟩
  | cons m ms ih =>
    obtain ⟨k, hk, hfilled, hsame⟩ := ih (h.step m)
    have hle : n ≤ if m.type = PROC_SPAWN ∧ n < MAX_PROCESSES then n + 1 else n := by
      split <;> omega
    refine ⟨k, by omega, hfilled, fun i hi => ?_⟩
    exact ((h.step_slots m).2 i hi).trans (hsame i (by omega))

/-- The pids given out along a run count on from `next_pid`. -/
theorem Filled.assignedPids_eq (h : Filled s n) (ms : List Msg) :
    ∃ k, (assignedPids s ms).map BitVec.toNat = List.range' (n + 1) k := by
  induction ms generalizing s n with
  | nil => exact ⟨0, rfl⟩
  | cons m ms ih =>
    have hnew := h.newPids_step m
    obtain ⟨k, hk⟩ := ih (h.step m)
    unfold assignedPids
    rw [hnew, List.map_append, hk]
    by_cases hs : m.type = PROC_SPAWN ∧ n < MAX_PROCESSES
    · rw [if_pos hs, if_pos hs]
      refine ⟨k + 1, ?_⟩
      rw [List.map_singleton, h.next, List.range'_succ]
      rfl
    · rw [if_neg hs, if_neg hs]
      exact ⟨k, rfl⟩

end Identity

/-- **Process identity.** Take any point of a run of the process server, any
continuation of the run, and any next request. The non-zero pids in the table
are distinct and below `next_pid`; a slot with a pid keeps its pid, name and
parent, and its state changes to TERMINATED at most; along the run no pid is
assigned twice; and the next request changes at most one slot. -/
theorem process_identity (ms later : List Msg) (m : Msg) :
    let s := run step start ms
    let s' := run step s later
    (∀ i < MAX_PROCESSES, ∀ j < MAX_PROCESSES, (s.processTable i).pid ≠ 0#64 →
      (s.processTable i).pid = (s.processTable j).pid → i = j) ∧
    (∀ i < MAX_PROCESSES, (s.processTable i).pid < s.nextPid) ∧
    (∀ i < MAX_PROCESSES, (s.processTable i).pid ≠ 0#64 →
      SameProcess (s.processTable i) (s'.processTable i)) ∧
    (1#64 :: assignedPids start ms).Nodup ∧
    ∃ i, ∀ j, j ≠ i → (step s m).processTable j = s.processTable j := by
  intro s s'
  obtain ⟨n, -, hfilled, -⟩ := filled_start.run ms
  obtain ⟨-, -, -, hsame⟩ := hfilled.run later
  have htaken : ∀ i < MAX_PROCESSES, (s.processTable i).pid ≠ 0#64 → i < n := by
    intro i hi hpid
    by_contra hge
    exact hpid ((hfilled.free_iff hi).mpr (by omega))
  refine ⟨fun i hi j hj hpid heq => ?_, fun i hi => ?_, fun i hi hpid => hsame i (htaken i hi hpid),
    ?_, (hfilled.step_slots m).1⟩
  · have hin := htaken i hi hpid
    have hnat := congrArg BitVec.toNat heq
    rw [hfilled.pid i hi, hfilled.pid j hj, if_pos hin] at hnat
    split at hnat <;> omega
  · rw [BitVec.lt_def, hfilled.pid i hi, hfilled.next]
    split <;> omega
  · -- the pids count on from 2, behind that of init
    obtain ⟨k, hk⟩ := filled_start.assignedPids_eq ms
    refine List.Nodup.of_map BitVec.toNat ?_
    rw [List.map_cons, hk]
    refine List.nodup_cons.mpr ⟨fun hmem => ?_, List.nodup_range'⟩
    rw [List.mem_range'_1] at hmem
    simp at hmem

end AegisKernel.Proc
