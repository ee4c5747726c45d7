import AegisKernel.Vfs.Definitions

/-!
# Process server — executable model of `servers/proc/proc.c`

The state is the array `process_table`, of which the code uses the indices
`0 … MAX_PROCESSES - 1`, and the counter `next_pid`. A handler returns what it
prints on the console, one `Printed` for each `proc_write` and
`proc_write_dec`, with the new state.

* `entry_point` and `stack_ptr` of `process_info_t` are left out: nothing reads
  or writes them. `name` is the list of its 32 bytes.
* The two strings of a `PROC_SPAWN` lie one behind the other in `msg.data`. A
  message gives the memory from there on; reading past the end of the list
  reads a NUL.
* The main loop around `handle` replies to every message it receives with that
  message; receiving and sending are left out.
-/

namespace AegisKernel.Proc

open Library

abbrev Word := BitVec 64

def MAX_PROCESSES : Nat := 64

/-- `sizeof(process_table[i].name)` -/
def NAME_SIZE : Nat := 32

def PROC_SPAWN : Word := 1#64
def PROC_KILL : Word := 2#64
def PROC_LIST : Word := 3#64
def PROC_GET_INFO : Word := 4#64

/-- The values of the field `state`. -/
inductive ProcState
  | empty
  | ready
  | running
  | blocked
  | terminated
deriving DecidableEq, Repr

/-- `process_info_t` -/
structure ProcessInfo where
  pid : Word
  name : Bytes
  state : ProcState
  parentPid : Word
  exitCode : Int
deriving DecidableEq

/-- The static variables of `proc.c`. -/
structure State where
  processTable : Nat → ProcessInfo
  nextPid : Word

/-- `aegis_msg_t` of `proc.c`, as the main loop reads it. -/
structure Msg where
  type : Word
  arg0 : Word
  data : Bytes

/-- What a handler prints. -/
inductive Printed
  | text (s : String)
  | dec (v : Word)
  | str (s : Bytes)
deriving DecidableEq

/-- `strncpy`; `proc.c` repeats the definition of `vfs.c`. -/
abbrev strncpy := Vfs.strncpy

/-- `strlen` -/
def strlen (s : Bytes) : Nat := (Vfs.cstring s).length

def setProcess (s : State) (i : Nat) (f : ProcessInfo → ProcessInfo) : State :=
  { s with processTable := Function.update s.processTable i (f (s.processTable i)) }

/-- `for (int i = 0; i < MAX_PROCESSES; i++) if (process_table[i].pid == pid)` -/
def findPid (s : State) (pid : Word) : Option Nat :=
  (List.range MAX_PROCESSES).find? fun i => (s.processTable i).pid == pid

/-! ## The handlers -/

/-- The `switch` of `proc_list` for the state column. -/
def stateColumn : ProcState → String
  | .ready => "READY  "
  | .running => "RUNNING"
  | .blocked => "BLOCKED"
  | .terminated => "TERM   "
  | .empty => "UNKNOWN"

/-- The loop of `proc_list` over one slot. -/
def listProcess (p : ProcessInfo) : List Printed :=
  if p.pid ≠ 0#64 then
    [.dec p.pid, .text "  ", .dec p.parentPid, .text "  ", .text (stateColumn p.state), .text "  ",
      .str (Vfs.cstring p.name), .text "\n"]
  else []

/-- `proc_list` -/
def procList (s : State) : List Printed × State :=
  let rows := (List.range MAX_PROCESSES).flatMap fun i => listProcess (s.processTable i)
  let count := ((List.range MAX_PROCESSES).filter fun i => (s.processTable i).pid != 0#64).length
  ([.text "\n=== Process List ===\n", .text "PID  PPID  STATE      NAME\n",
      .text "---  ----  -----      ----\n"] ++ rows ++
    (if count = 0 then [.text "(no processes)\n"] else []) ++
    [.text "====================\n"], s)

/-- `proc_spawn`; a slot is free when its `pid` is 0. -/
def procSpawn (s : State) (_path name : Bytes) : List Printed × State :=
  match findPid s 0#64 with
  | none => ([.text "[proc] No free process slots\n"], s)
  | some i =>
    let s₁ := { s with nextPid := s.nextPid + 1#64 }
    ([.text "[proc] Spawned process ", .str (Vfs.cstring name), .text " with PID ",
        .dec s.nextPid, .text "\n"],
      setProcess s₁ i fun p =>
        { p with
          pid := s.nextPid
          name := (strncpy p.name name 31).set 31 0
          state := .ready
          parentPid := 0#64
          exitCode := 0 })

/-- `proc_kill`; the slot keeps its `pid`. -/
def procKill (s : State) (pid : Word) : List Printed × State :=
  match findPid s pid with
  | none => ([.text "[proc] Process PID ", .dec pid, .text " not found\n"], s)
  | some i =>
    ([.text "[proc] Killed process PID ", .dec pid, .text "\n"],
      setProcess s i fun p => { p with state := .terminated, exitCode := -1 })

/-- The `switch` of `proc_get_info`. -/
def stateName : ProcState → String
  | .ready => "READY"
  | .running => "RUNNING"
  | .blocked => "BLOCKED"
  | .terminated => "TERMINATED"
  | .empty => "UNKNOWN"

/-- `proc_get_info`; the exit code is printed as an unsigned number. -/
def procGetInfo (s : State) (pid : Word) : List Printed × State :=
  match findPid s pid with
  | none => ([.text "[proc] Process PID ", .dec pid, .text " not found\n"], s)
  | some i =>
    let p := s.processTable i
    ([.text "\n=== Process Info ===\n",
      .text "PID: ", .dec p.pid, .text "\n",
      .text "PPID: ", .dec p.parentPid, .text "\n",
      .text "Name: ", .str (Vfs.cstring p.name), .text "\n",
      .text "State: ", .text (stateName p.state), .text "\n",
      .text "Exit Code: ", .dec (BitVec.ofInt 64 p.exitCode), .text "\n",
      .text "====================\n"], s)

/-- The `switch` of the main loop. -/
def handle (s : State) (m : Msg) : List Printed × State :=
  if m.type = PROC_SPAWN then procSpawn s m.data (m.data.drop (strlen m.data + 1))
  else if m.type = PROC_KILL then procKill s m.arg0
  else if m.type = PROC_LIST then procList s
  else if m.type = PROC_GET_INFO then procGetInfo s m.arg0
  else ([], s)

/-! ## The server as a state machine -/

def step (s : State) (m : Msg) : State := (handle s m).2

/-- The zero-initialised `process_table`. -/
def emptyTable : Nat → ProcessInfo := fun _ => ⟨0#64, List.replicate NAME_SIZE 0, .empty, 0#64, 0⟩

/-- The state in which `_start` enters the main loop: init has been entered in
the table. -/
def start : State :=
  setProcess ⟨emptyTable, 2#64⟩ 0 fun p =>
    { p with
      pid := 1#64
      name := strncpy p.name (Vfs.ascii ['i', 'n', 'i', 't']) 31
      state := .running
      parentPid := 0#64 }

end AegisKernel.Proc
