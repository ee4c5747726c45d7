import AegisKernel.Library.CStrings
import AegisKernel.Ipc.Definitions
import AegisKernel.Ramdisk.Definitions

/-!
# Shell — executable model of `servers/shell/shell.c`

The state is the array `cmd_buffer`, as the list of its bytes, and what has been
written so far. A pointer into the array is an index. Reading or writing outside
of the array has no result: it is the `none` of every function below. Loops that
move a pointer on are `scan`s of the array, and `console_write` reads its
argument as `stringAt` does.

* `argv` is a static array of 16 pointers; `shell_parse_cmd` returns the pointers
  it stores there, up to the NULL.
* A `char` is signed. It is kept as a byte, and read as signed where the code
  compares it with `<` or `>=`.
* The loop of `shell_main` is a fold over what `ipc_recv` gives each time: a
  message, or nothing when it fails.
-/

namespace AegisKernel.Shell

open Library

def SHELL_MAX_CMD_LEN : Nat := 256
def SHELL_MAX_ARGS : Nat := 16
def SHELL_PROMPT : String := "aegis> "

/-- What the shell gives to `console_write`, `console_write_dec` and `outw`. -/
inductive Output
  | text (s : String)
  | str (s : Bytes)
  | dec (v : BitVec 64)
  | outw (value port : Nat)
deriving DecidableEq

/-- `strlen` -/
def strlen (buf : Bytes) : Option Nat := scan (· == 0) buf 0

/-- `memset(buf, 0, n)` -/
def memsetZero (buf : Bytes) (n : Nat) : Option Bytes :=
  if n ≤ buf.length then some (List.replicate n 0 ++ buf.drop n) else none

/-! ## Commands -/

/-- `*p == ' ' || *p == '\t'` -/
def isBlank (c : UInt8) : Bool := c == 32 || c == 9

/-- The loop of `shell_parse_cmd` from `p` on, with room for `n` more arguments. -/
def parseLoop (buf : Bytes) (p : Nat) : Nat → Option (List Nat × Bytes)
  | 0 => do
    -- `*p` is read before `argc` is compared
    let _ ← buf[p]?
    return ([], buf)
  | n + 1 => do
    let c ← buf[p]?
    if c = 0 then return ([], buf)
    let word ← scan (fun c => !isBlank c) buf p
    let c ← buf[word]?
    if c = 0 then return ([], buf)
    let stop ← scan (fun c => c == 0 || isBlank c) buf word
    let c ← buf[stop]?
    if c = 0 then
      let (argv, buf') ← parseLoop buf stop n
      return (word :: argv, buf')
    else
      let buf₁ ← poke buf stop 0
      let (argv, buf') ← parseLoop buf₁ (stop + 1) n
      return (word :: argv, buf')

/-- `shell_parse_cmd` -/
def shellParseCmd (cmd : Bytes) (maxArgs : Nat) : Option (List Nat × Bytes) :=
  parseLoop cmd 0 (maxArgs - 1)

/-- `"help"` -/
def HELP : Bytes := [104, 101, 108, 112]

/-- `"echo"` -/
def ECHO : Bytes := [101, 99, 104, 111]

/-- `"clear"` -/
def CLEAR : Bytes := [99, 108, 101, 97, 114]

/-- `"reboot"` -/
def REBOOT : Bytes := [114, 101, 98, 111, 111, 116]

def helpText : List Output :=
  [.text "Available commands:\n",
    .text "  help       - Show this help\n",
    .text "  echo       - Print arguments\n",
    .text "  clear      - Clear screen (not implemented)\n",
    .text "  reboot     - Reboot system\n"]

/-- The arguments with a blank between any two, and a newline. -/
def echoText (args : List Bytes) : List Output :=
  (args.map Output.str).intersperse (.text " ") ++ [.text "\n"]

def clearText : List Output := [.text "\n\n\n\n\n\n\n\n\n\n\n\n\n\n\n\n\n\n\n\n"]

def rebootText : List Output := [.text "Rebooting...\n", .outw 0x8900 0x604]

def unknownText (name : Bytes) : List Output :=
  [.text "Unknown command: ", .str name, .text "\n"]

/-- `strcmp(argv[i], name) == 0`; the ramdisk reader has the same `strcmp`. -/
def isWord (buf : Bytes) (p : Nat) (name : Bytes) : Option Bool :=
  (Ramdisk.strcmp buf p name).map (· == 0)

/-- `shell_exec_builtin` -/
def shellExecBuiltin (buf : Bytes) : List Nat → Option (List Output)
  | [] => some []
  | p :: ps => do
    if ← isWord buf p HELP then return helpText
    if ← isWord buf p ECHO then
      let args ← ps.mapM (stringAt buf)
      return echoText args
    if ← isWord buf p CLEAR then return clearText
    if ← isWord buf p REBOOT then return rebootText
    let name ← stringAt buf p
    return unknownText name

/-! ## The main loop -/

structure State where
  cmdBuffer : Bytes
  written : List Output
deriving DecidableEq

def State.write (s : State) (out : List Output) : State := { s with written := s.written ++ out }

/-- `(char)msg.arg0` -/
def charOf (arg0 : BitVec 64) : UInt8 := UInt8.ofNat arg0.toNat

/-- `c == '\n' || c == '\r'` -/
def isEnter (c : UInt8) : Bool := c == 10 || c == 13

/-- `c == '\b' || c == 127` -/
def isErase (c : UInt8) : Bool := c == 8 || c == 127

/-- `c >= 32 && c < 127`, where bytes from 128 on are negative. -/
def isPrintable (c : UInt8) : Bool := 32 ≤ c.toInt8.toInt && c.toInt8.toInt < 127

/-- The branch of `shell_main` for `'\n'` and `'\r'`. -/
def enter (s : State) : Option State := do
  let s₁ := s.write [.text "\n"]
  let len ← strlen s₁.cmdBuffer
  let buf ← poke s₁.cmdBuffer len 0
  let len ← strlen buf
  let (out, buf₁) ←
    if len > 0 then do
      let (argv, buf') ← shellParseCmd buf SHELL_MAX_ARGS
      let out ← shellExecBuiltin buf' argv
      pure (out, buf')
    else pure ([], buf)
  let buf₂ ← memsetZero buf₁ SHELL_MAX_CMD_LEN
  return ({ s₁ with cmdBuffer := buf₂ }.write out).write [.text SHELL_PROMPT]

/-- The branch for `'\b'` and 127. -/
def erase (s : State) : Option State := do
  let len ← strlen s.cmdBuffer
  if len > 0 then
    let buf ← poke s.cmdBuffer (len - 1) 0
    return { s with cmdBuffer := buf }.write [.text "\x08 \x08"]
  else return s

/-- The branch for printable characters. -/
def insert (s : State) (c : UInt8) : Option State := do
  let len ← strlen s.cmdBuffer
  if len < SHELL_MAX_CMD_LEN - 1 then
    let buf ← poke s.cmdBuffer len c
    let buf₁ ← poke buf (len + 1) 0
    return { s with cmdBuffer := buf₁ }.write [.str [c]]
  else return s

/-- One iteration of the loop of `shell_main`. -/
def iterate (s : State) : Option Ipc.Message → Option State
  | none => some s
  | some msg =>
    if msg.type = 4#64 then
      let c := charOf msg.arg0
      if isEnter c then enter s
      else if isErase c then erase s
      else if isPrintable c then insert s c
      else some s
    else some s

/-- `shell_main` before its loop: nothing more happens when there is no endpoint. -/
def shellStart (result : Int) (ep : BitVec 64) : State × Bool :=
  let s : State := ⟨List.replicate SHELL_MAX_CMD_LEN 0, []⟩
  if result ≠ 0 then (s.write [.text "[shell] Failed to create endpoint\n"], false)
  else
    (s.write [.text "[shell] Shell server started on endpoint ", .dec ep, .text "\n",
      .text SHELL_PROMPT], true)

/-- `shell_main`, up to the end of `received`. -/
def shellMain (result : Int) (ep : BitVec 64) (received : List (Option Ipc.Message)) :
    Option State :=
  let (s, running) := shellStart result ep
  if running then received.foldlM iterate s else some s

end AegisKernel.Shell
