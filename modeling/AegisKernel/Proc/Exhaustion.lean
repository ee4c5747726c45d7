import Mathlib.Data.List.Induction
import AegisKernel.Proc.Slots

/-!
# Process server — when the table runs out of slots

`proc_kill` leaves the `pid` of the process it terminates, and `proc_spawn`
takes a slot for free only if its `pid` is 0. A terminated process keeps its
slot for ever, so a table of 64 slots serves 63 spawns and no more, however many
processes are still alive.

* `Available s` — as long as a process less than `MAX_PROCESSES` is alive, the
  next `PROC_SPAWN` assigns a pid.
* `run_taken` — how many slots are taken after a run, and whether one of them is
  TERMINATED, read off the requests.
* `available_throughout_iff` — a run keeps `Available` exactly when it has fewer
  than 63 spawns or never kills a process.
-/

namespace AegisKernel.Proc

open Library

/-- The number of processes that are not TERMINATED. -/
def aliveCount (s : State) : Nat :=
  ((List.range MAX_PROCESSES).filter fun i =>
    (s.processTable i).pid != 0#64 && (s.processTable i).state != .terminated).length

/-- The request puts a pid into a free slot. -/
def Assigns (s : State) (m : Msg) : Prop :=
  ∃ i < MAX_PROCESSES, (s.processTable i).pid = 0#64 ∧ ((step s m).processTable i).pid ≠ 0#64

/-- With fewer than `MAX_PROCESSES` processes alive, every `PROC_SPAWN`
succeeds. -/
def Available (s : State) : Prop :=
  aliveCount s < MAX_PROCESSES → ∀ m, m.type = PROC_SPAWN → Assigns s m

/-- The number of `PROC_SPAWN` requests. -/
def spawnCount (ms : List Msg) : Nat := ms.countP fun m => m.type = PROC_SPAWN

/-- The pids in the table after these requests are `1 … takenCount ms`. -/
def takenCount (ms : List Msg) : Nat := 1 + min (MAX_PROCESSES - 1) (spawnCount ms)

/-- The request kills one of the first `n` processes. -/
def Kills (n : Nat) (m : Msg) : Prop :=
  m.type = PROC_KILL ∧ m.arg0 ≠ 0#64 ∧ m.arg0.toNat ≤ n

/-- Some request kills a process that has been spawned by then, or init. -/
def KillsProcess (ms : List Msg) : Prop :=
  ∃ earlier m later, ms = earlier ++ m :: later ∧ Kills (takenCount earlier) m

-- ---------------------------------------------------------------------------
-- The requests of a run
-- ---------------------------------------------------------------------------

theorem spawnCount_concat (ms : List Msg) (m : Msg) :
    spawnCount (ms ++ [m]) = spawnCount ms + if m.type = PROC_SPAWN then 1 else 0 := by
  simp [spawnCount, List.countP_append, List.countP_cons]

theorem killsProcess_concat (ms : List Msg) (m : Msg) :
    KillsProcess (ms ++ [m]) ↔ KillsProcess ms ∨ Kills (takenCount ms) m := by
  constructor
  · rintro ⟨earlier, m', later, hsplit, hkill⟩
    rcases List.eq_nil_or_concat later with rfl | ⟨later', last, rfl⟩
    · -- the last request itself
      obtain ⟨rfl, hm⟩ := List.append_inj' hsplit rfl
      obtain rfl := List.singleton_inj.mp hm
      exact .inr hkill
    · -- one before it
      have hsplit' : ms ++ [m] = (earlier ++ m' :: later') ++ [last] := by simpa using hsplit
      exact .inl ⟨earlier, m', later', (List.append_inj' hsplit' rfl).1, hkill⟩
  · rintro (⟨earlier, m', later, rfl, hkill⟩ | hkill)
    · exact ⟨earlier, m', later ++ [m], by simp, hkill⟩
    · exact ⟨ms, m, [], rfl, hkill⟩

section OneRequest

variable {s : State} {n : Nat}

/-- A pid in use belongs to a taken slot. -/
theorem Filled.exists_pid (h : Filled s n) {pid : Word} (h0 : pid ≠ 0#64) (hpid : pid.toNat ≤ n) :
    ∃ i < n, (s.processTable i).pid = pid := by
  have hle := h.le
  have hpos : pid.toNat ≠ 0 := fun hz => h0 (BitVec.eq_of_toNat_eq (by simpa using hz))
  refine ⟨pid.toNat - 1, by omega, BitVec.eq_of_toNat_eq ?_⟩
  rw [h.pid _ (by omega), if_pos (by omega)]
  omega

/-- The new process is READY, and the others are as they were. -/
theorem spawned_terminated (s : State) (n : Nat) (name : Bytes) :
    (∃ i < n + 1, ((Proc.spawned s n name).processTable i).state = .terminated) ↔
      ∃ i < n, (s.processTable i).state = .terminated := by
  constructor
  · rintro ⟨i, hi, hst⟩
    have hin : i ≠ n := by
      rintro rfl
      simp [Proc.spawned, setProcess] at hst
    refine ⟨i, by omega, ?_⟩
    simpa [Proc.spawned, setProcess, hin] using hst
  · rintro ⟨i, hi, hst⟩
    have hin : i ≠ n := by omega
    refine ⟨i, by omega, ?_⟩
    simpa [Proc.spawned, setProcess, hin] using hst

/-- The process of slot `k` is TERMINATED now, if slot `k` is taken. -/
theorem Filled.killed_terminated (h : Filled s n) {k : Nat} (hk : k < MAX_PROCESSES) :
    (∃ i < n, ((Proc.killed s k).processTable i).state = .terminated) ↔
      (∃ i < n, (s.processTable i).state = .terminated) ∨ (s.processTable k).pid ≠ 0#64 := by
  have hself : ((Proc.killed s k).processTable k).state = .terminated := by
    simp [Proc.killed, setProcess]
  have hother : ∀ i, i ≠ k → (Proc.killed s k).processTable i = s.processTable i := by
    intro i hik
    simp [Proc.killed, setProcess, hik]
  have hfree := h.free_iff hk
  constructor
  · rintro ⟨i, hi, hst⟩
    by_cases hik : i = k
    · exact .inr fun h0 => by
        have hge := hfree.mp h0
        omega
    · rw [hother i hik] at hst
      exact .inl ⟨i, hi, hst⟩
  · rintro (⟨i, hi, hst⟩ | h0)
    · by_cases hik : i = k
      · exact ⟨i, hi, hik ▸ hself⟩
      · exact ⟨i, hi, by rw [hother i hik]; exact hst⟩
    · exact ⟨k, Nat.lt_of_not_le fun hge => h0 (hfree.mpr hge), hself⟩

/-- A slot is TERMINATED after a request if it was before, or the request kills
its process. -/
theorem Filled.terminated_step (h : Filled s n) (m : Msg) :
    (∃ i < if m.type = PROC_SPAWN ∧ n < MAX_PROCESSES then n + 1 else n,
        ((Proc.step s m).processTable i).state = .terminated) ↔
      (∃ i < n, (s.processTable i).state = .terminated) ∨ Kills n m := by
  have hle := h.le
  have hne : PROC_SPAWN ≠ PROC_KILL := by decide
  rcases step_cases h m with ⟨hs, hlt, name, heq⟩ | ⟨hk, k, hkm, hpid, heq⟩ | ⟨hs, hk, heq⟩
  · have hno : ¬ Kills n m := fun hb => hne (hs.symm.trans hb.1)
    rw [if_pos ⟨hs, hlt⟩, heq, or_iff_left hno]
    exact spawned_terminated s n name
  · have hno : ¬ (m.type = PROC_SPAWN ∧ n < MAX_PROCESSES) := fun hb => hne (hb.1.symm.trans hk)
    rw [if_neg hno, heq, h.killed_terminated hkm, hpid]
    -- a pid found in the table is one of `1 … n`, unless it is 0
    refine or_congr_right ⟨fun h0 => ⟨hk, h0, ?_⟩, fun hkill => hkill.2.1⟩
    have htaken : k < n := by
      by_contra hge
      exact h0 (hpid ▸ (h.free_iff hkm).mpr (by omega))
    have hnat := h.pid k hkm
    rw [if_pos htaken, hpid] at hnat
    omega
  · -- nothing happened, so the request names no process
    have hno : ¬ Kills n m := by
      rintro ⟨hkill, h0, hpid⟩
      obtain ⟨i, hi, hi'⟩ := h.exists_pid h0 hpid
      exact hk hkill i (by omega) hi'
    have hfull : ¬ (m.type = PROC_SPAWN ∧ n < MAX_PROCESSES) := fun hb =>
      absurd (hs hb.1) (Nat.ne_of_lt hb.2)
    rw [if_neg hfull, heq, or_iff_left hno]

/-- A `PROC_SPAWN` succeeds exactly while a slot is left. -/
theorem Filled.assigns_iff (h : Filled s n) {m : Msg} (hm : m.type = PROC_SPAWN) :
    Assigns s m ↔ n < MAX_PROCESSES := by
  constructor
  · rintro ⟨i, hi, hfree, -⟩
    have := (h.free_iff hi).mp hfree
    omega
  · intro hlt
    have hstep := h.step m
    rw [if_pos ⟨hm, hlt⟩] at hstep
    refine ⟨n, hlt, (h.free_iff hlt).mpr (le_refl n), fun h0 => ?_⟩
    have := (hstep.free_iff hlt).mp h0
    omega

theorem Filled.available_iff (h : Filled s n) :
    Available s ↔ n < MAX_PROCESSES ∨ ¬ ∃ i < n, (s.processTable i).state = .terminated := by
  rcases Nat.lt_or_ge n MAX_PROCESSES with hlt | hge
  · exact ⟨fun _ => .inl hlt, fun _ _ m hm => (h.assigns_iff hm).mpr hlt⟩
  · have hn : n = MAX_PROCESSES := Nat.le_antisymm h.le hge
    -- all slots are taken: fewer alive means one is TERMINATED
    have halive : aliveCount s < MAX_PROCESSES ↔
        ∃ i < n, (s.processTable i).state = .terminated := by
      unfold aliveCount
      nth_rewrite 2 [← @List.length_range MAX_PROCESSES]
      rw [List.length_filter_lt_length_iff_exists]
      constructor
      · rintro ⟨i, hi, hdead⟩
        have hi := List.mem_range.mp hi
        have htaken : (s.processTable i).pid ≠ 0#64 := by
          rw [ne_eq, h.free_iff hi]
          omega
        exact ⟨i, by omega, by simpa [htaken] using hdead⟩
      · rintro ⟨i, hi, hst⟩
        exact ⟨i, List.mem_range.mpr (by omega), by simp [hst]⟩
    have hnone : ∀ m, m.type = PROC_SPAWN → ¬ Assigns s m := by
      intro m hm hassign
      have := (h.assigns_iff hm).mp hassign
      omega
    unfold Available
    rw [halive]
    constructor
    · intro hav
      refine .inr fun hdead => ?_
      exact hnone ⟨PROC_SPAWN, 0#64, []⟩ rfl (hav hdead _ rfl)
    · rintro (hlt | hno) hdead
      · omega
      · exact absurd hdead hno

end OneRequest

-- ---------------------------------------------------------------------------
-- Whole runs
-- ---------------------------------------------------------------------------

/-- After a run, `takenCount` slots are taken, and one of them is TERMINATED
exactly when the run kills a process. -/
theorem run_taken (ms : List Msg) :
    Filled (run step start ms) (takenCount ms) ∧
      ((∃ i < takenCount ms, ((run step start ms).processTable i).state = .terminated) ↔
        KillsProcess ms) := by
  -- by induction on the requests, the last one peeled off
  induction ms using List.reverseRecOn with
  | nil =>
    refine ⟨filled_start, ⟨?_, ?_⟩⟩
    · rintro ⟨i, hi, hst⟩
      have h0 : i = 0 := by
        unfold takenCount spawnCount at hi
        simp at hi
        exact hi
      subst h0
      simp [start, setProcess] at hst
    · rintro ⟨earlier, m, later, hsplit, -⟩
      simp at hsplit
  | append_singleton ms m ih =>
    obtain ⟨hfilled, hdead⟩ := ih
    have hcount : takenCount (ms ++ [m]) =
        if m.type = PROC_SPAWN ∧ takenCount ms < MAX_PROCESSES then takenCount ms + 1
        else takenCount ms := by
      unfold takenCount MAX_PROCESSES
      rw [spawnCount_concat]
      by_cases hs : m.type = PROC_SPAWN
      · simp only [hs, if_true, true_and]
        split <;> omega
      · simp [hs]
    have hrun : run step start (ms ++ [m]) = step (run step start ms) m := run_append ..
    rw [hrun, hcount, killsProcess_concat, ← hdead]
    exact ⟨hfilled.step m, hfilled.terminated_step m⟩

/-- **Slots along a run.** In every state of a run a `PROC_SPAWN` succeeds
whenever fewer than `MAX_PROCESSES` processes are not TERMINATED, if and only if
the run spawns fewer than 63 times or kills no process. -/
theorem available_throughout_iff (ms : List Msg) :
    Throughout step Available start ms ↔
      spawnCount ms < MAX_PROCESSES - 1 ∨ ¬ KillsProcess ms := by
  have hstate : ∀ ms, Available (run step start ms) ↔
      spawnCount ms < MAX_PROCESSES - 1 ∨ ¬ KillsProcess ms := by
    intro ms
    obtain ⟨hfilled, hdead⟩ := run_taken ms
    rw [hfilled.available_iff, hdead]
    have hroom : takenCount ms < MAX_PROCESSES ↔ spawnCount ms < MAX_PROCESSES - 1 := by
      unfold takenCount MAX_PROCESSES
      omega
    rw [hroom]
  rw [throughout_iff_initial]
  constructor
  · intro h
    exact (hstate ms).mp (h ms (List.prefix_refl ms))
  · -- an initial part spawns no more often, and kills no more
    intro h pre hpre
    rw [hstate]
    obtain ⟨rest, rfl⟩ := hpre
    refine h.imp (fun hlt => ?_) fun hno hkill => hno ?_
    · unfold spawnCount at hlt ⊢
      rw [List.countP_append] at hlt
      omega
    · obtain ⟨earlier, m, later, rfl, hm⟩ := hkill
      exact ⟨earlier, m, later ++ rest, by simp, hm⟩

/-- A spawn of an empty name. -/
def spawnRequest : Msg := ⟨PROC_SPAWN, 0#64, []⟩

/-- A kill of process 2. -/
def killRequest : Msg := ⟨PROC_KILL, 2#64, []⟩

/-- 63 spawns fill the table; after one of the processes is killed, 63 are
alive, and the next spawn still finds no slot. -/
theorem killed_process_keeps_slot :
    ¬ Throughout step Available start (List.replicate 63 spawnRequest ++ [killRequest]) := by
  intro h
  have hend := throughout_iff_initial.mp h _ (List.prefix_refl _)
  obtain ⟨hfilled, hdead⟩ := run_taken (List.replicate 63 spawnRequest ++ [killRequest])
  have hcount : takenCount (List.replicate 63 spawnRequest) = 64 := by decide
  have hcount' : takenCount (List.replicate 63 spawnRequest ++ [killRequest]) = 64 := by decide
  rcases hfilled.available_iff.mp hend with hlt | hno
  · rw [hcount'] at hlt
    exact absurd hlt (by decide)
  · refine hno (hdead.mpr ((killsProcess_concat _ _).mpr (.inr ?_)))
    rw [hcount]
    exact ⟨rfl, by decide, by decide⟩

end AegisKernel.Proc
