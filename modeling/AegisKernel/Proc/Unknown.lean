import AegisKernel.Proc.Exhaustion

/-!
# Process server — requests about a process that does not exist

`proc_kill` and `proc_get_info` compare the pid they are given with that of every
slot, the free ones included. Their pid is 0, and no process has it.

* `NotFound s pid` — the two handlers report that there is no process `pid`, and the
  table stays as it is. They do so when no slot holds `pid` (`notFound_iff`).
* `run_pid` — a pid in the table was there before, or has been assigned.
* `unknown_not_found_iff` — a pid that no process has is reported, unless it is 0 and
  a slot is free. That slot is marked TERMINATED, and reported as killed.
-/

namespace AegisKernel.Proc

open Library

/-- What `proc_kill` and `proc_get_info` print when the scan finds nothing. -/
def notFound (pid : Word) : List Printed :=
  [.text "[proc] Process PID ", .dec pid, .text " not found\n"]

/-- Killing `pid` changes nothing, and neither request finds a process. -/
structure NotFound (s : State) (pid : Word) : Prop where
  table : (procKill s pid).2.processTable = s.processTable
  kill : (procKill s pid).1 = notFound pid
  info : (procGetInfo s pid).1 = notFound pid

theorem notFound_iff {s : State} {pid : Word} : NotFound s pid ↔ findPid s pid = none := by
  constructor
  · intro h
    have hkill := h.kill
    unfold procKill at hkill
    rcases hfind : findPid s pid with _ | i
    · rfl
    · -- the text of a slot that was found is another one
      rw [hfind] at hkill
      simp [notFound] at hkill
  · intro hfind
    refine ⟨?_, ?_, ?_⟩
    · rw [procKill, hfind]
    · rw [procKill, hfind, notFound]
    · rw [procGetInfo, hfind, notFound]

/-- A pid that is in the table after a run was there before it, or has been assigned
along the run. -/
theorem run_pid {s : State} {i : Nat} (hi : i < MAX_PROCESSES) (ms : List Msg) :
    ((run step s ms).processTable i).pid = (s.processTable i).pid ∨
      ((run step s ms).processTable i).pid ∈ assignedPids s ms := by
  induction ms generalizing s with
  | nil => exact .inl rfl
  | cons m ms ih =>
    rcases ih (s := step s m) with hsame | hassigned
    · by_cases hchange : ((step s m).processTable i).pid = (s.processTable i).pid
      · exact .inl (hsame.trans hchange)
      · -- the first request has assigned it
        refine .inr (List.mem_append_left _ (List.mem_map.mpr ⟨i, ?_, hsame.symm⟩))
        exact List.mem_filter.mpr ⟨List.mem_range.mpr hi, bne_iff_ne.mpr hchange⟩
    · exact .inr (List.mem_append_right _ hassigned)

/-- A free slot holds 0, and a taken one the pid of init or of a spawned process. -/
theorem run_start_pid {i : Nat} (hi : i < MAX_PROCESSES) (ms : List Msg) :
    ((run step start ms).processTable i).pid ∈ 0#64 :: 1#64 :: assignedPids start ms := by
  rcases run_pid (s := start) hi ms with hstart | hassigned
  · rw [hstart]
    by_cases h0 : i = 0
    · subst h0
      exact List.mem_cons_of_mem _ (List.mem_cons_self ..)
    · rw [(filled_start.free_iff hi).mpr (by omega)]
      exact List.mem_cons_self ..
  · exact List.mem_cons_of_mem _ (List.mem_cons_of_mem _ hassigned)

/-- **Unknown processes.** After every run, a pid that neither init nor a spawned process
has is not found by `proc_kill` and `proc_get_info`, which change nothing, exactly when
it is not 0 or the 63 spawns have left no slot free. -/
theorem unknown_not_found_iff (ms : List Msg) (pid : Word)
    (hunknown : pid ∉ 1#64 :: assignedPids start ms) :
    NotFound (run step start ms) pid ↔ pid ≠ 0#64 ∨ MAX_PROCESSES - 1 ≤ spawnCount ms := by
  rw [notFound_iff]
  by_cases h0 : pid = 0#64
  · subst h0
    have hfull : takenCount ms < MAX_PROCESSES ↔ ¬ MAX_PROCESSES - 1 ≤ spawnCount ms := by
      unfold takenCount MAX_PROCESSES
      omega
    rw [(run_taken ms).1.findPid_zero]
    simp [hfull]
  · refine ⟨fun _ => .inl h0, fun _ => ?_⟩
    rw [findPid, List.find?_range_eq_none]
    intro i hi
    have hne : ((run step start ms).processTable i).pid ≠ pid := by
      rintro rfl
      rcases List.mem_cons.mp (run_start_pid hi ms) with hzero | hknown
      · exact h0 hzero
      · exact hunknown hknown
    simpa using hne

/-- Two processes are spawned, and the first of them is killed. -/
def spawnAndKill : List Msg :=
  [⟨PROC_SPAWN, 0#64, [97, 0, 98, 0]⟩, ⟨PROC_SPAWN, 0#64, [99, 0, 100, 0]⟩, ⟨PROC_KILL, 2#64, []⟩]

/-- Process 7 is not there. -/
theorem unknown_not_found_iff_seven : NotFound (run step start spawnAndKill) 7#64 :=
  (unknown_not_found_iff spawnAndKill 7#64 (by decide)).mpr (.inl (by decide))

/-- Killing process 0 marks slot 1 of the table of the start TERMINATED. -/
theorem kill_zero_marks_free_slot :
    ¬ ∀ (ms : List Msg) (pid : Word), pid ∉ 1#64 :: assignedPids start ms →
      NotFound (run step start ms) pid := by
  intro h
  have hstate := congrArg ProcessInfo.state (congrFun (h [] 0#64 (by decide)).table 1)
  exact absurd hstate (by decide)

end AegisKernel.Proc
