import Mathlib.Logic.Function.Basic
import AegisKernel.Library.Bytes

/-!
# VFS server — executable model of `servers/vfs/vfs.c`

The state is the array `file_table`; indices `0 … MAX_FILES - 1` are the ones
the code uses. A handler takes the table and a message and returns the reply it
sends with `ipc_reply` and the new table. A `memcpy` that would reach outside
the `data` array of the file, the message or the reply is a memory fault, and
the handler returns `none`.

* `data` arrays are total functions, of which the first `MAX_FILE_SIZE` (files)
  or 512 (messages, replies) values exist. `name` is the list of its 64 bytes.
* The path of a request is the C string at the start of `msg->data`, given
  without its NUL; reading past the end of a list reads a NUL.
* The main loop around the handlers is `handle`; receiving and sending are left
  out.
-/

namespace AegisKernel.Vfs

open Library

abbrev Word := BitVec 64

def MAX_FILES : Nat := 64
def MAX_FILE_SIZE : Word := 4096#64

/-- `sizeof(file_table[i].name)` -/
def NAME_SIZE : Nat := 64

/-- `sizeof(msg->data)` -/
def MSG_DATA_SIZE : Nat := 512

def VFS_READ : Word := 100#64
def VFS_WRITE : Word := 101#64
def VFS_CREATE : Word := 102#64
def VFS_DELETE : Word := 103#64
def VFS_TRUNCATE : Word := 104#64
def VFS_OPEN : Word := 105#64
def VFS_CLOSE : Word := 106#64
def VFS_SEEK : Word := 107#64
def VFS_STAT : Word := 108#64
def VFS_READDIR : Word := 109#64
def VFS_REPLY : Word := 200#64

/-- `file_entry_t` -/
structure FileEntry where
  name : Bytes
  data : Nat → UInt8
  size : Word
  flags : BitVec 32
  used : Bool

/-- `file_table` -/
abbrev Table := Nat → FileEntry

/-- `aegis_msg_t` of `vfs.c`, as the handlers read it. -/
structure Msg where
  type : Word
  arg0 : Word
  arg1 : Word
  data : Nat → UInt8

/-- `aegis_msg_t` of `vfs.c`, as the handlers fill it in. -/
structure Reply where
  type : Word
  arg0 : Word
  arg1 : Word
  arg2 : Word
  data : Nat → UInt8

/-! ## Strings and memory -/

/-- The C string at the start of a byte array, without its NUL. -/
def cstring (bs : Bytes) : Bytes := bs.takeWhile (· ≠ 0)

/-- `(const char *)msg->data` -/
def Msg.path (m : Msg) : Bytes := cstring ((List.range MSG_DATA_SIZE).map m.data)

/-- `strcmp` -/
def strcmp : Bytes → Bytes → Int
  | [], s2 => 0 - (s2.headD 0).toNat
  | c :: s1, s2 =>
    if c ≠ 0 ∧ c = s2.headD 0 then strcmp s1 s2.tail
    else (c.toNat : Int) - (s2.headD 0).toNat

/-- The bytes `strncpy` writes. The first loop does not count the NUL it copies,
so a source shorter than `n` gives `n + 1` bytes. -/
def strncpyBytes : Bytes → Nat → Bytes
  | _, 0 => []
  | [], n + 1 => 0 :: List.replicate (n + 1) 0
  | c :: src, n + 1 =>
    if c = 0 then 0 :: List.replicate (n + 1) 0 else c :: strncpyBytes src n

/-- `strncpy` -/
def strncpy (dest src : Bytes) (n : Nat) : Bytes :=
  strncpyBytes src n ++ dest.drop (strncpyBytes src n).length

/-- The destination array after `memcpy(dest + at, src, n)`. -/
def copyInto (dest : Nat → UInt8) (start n : Nat) (src : Nat → UInt8) : Nat → UInt8 := fun i =>
  if start ≤ i ∧ i < start + n then src (i - start) else dest i

/-- The array after `memset(dest + at, 0, n)`. -/
def clearFrom (dest : Nat → UInt8) (start n : Nat) : Nat → UInt8 := fun i =>
  if start ≤ i ∧ i < start + n then 0 else dest i

/-! ## The file table -/

/-- `file_find`; -1 is `none`. -/
def fileFind (t : Table) (name : Bytes) : Option Nat :=
  (List.range MAX_FILES).find? fun i => (t i).used && strcmp (t i).name name == 0

/-- `file_find_free`; -1 is `none`. -/
def fileFindFree (t : Table) : Option Nat :=
  (List.range MAX_FILES).find? fun i => !(t i).used

/-- `aegis_msg_t reply = {0}; reply.type = VFS_REPLY;` with the first two
arguments. -/
def reply (arg0 arg1 : Word) : Reply := ⟨VFS_REPLY, arg0, arg1, 0#64, fun _ => 0⟩

/-- The reply of a request that failed. -/
def failure : Reply := reply (-1#64) (-1#64)

def setEntry (t : Table) (i : Nat) (f : FileEntry → FileEntry) : Table :=
  Function.update t i (f (t i))

/-! ## The handlers -/

/-- `handle_read` -/
def handleRead (t : Table) (m : Msg) : Option (Reply × Table) :=
  match fileFind t m.path with
  | none => some (failure, t)
  | some idx =>
    let offset := m.arg0
    -- both the sum and, for an offset beyond the end, the difference can wrap
    let size := if offset + m.arg1 > (t idx).size then (t idx).size - offset else m.arg1
    if size.toNat ≤ MSG_DATA_SIZE ∧ offset.toNat + size.toNat ≤ MAX_FILE_SIZE.toNat then
      some ({ reply size 0#64 with
        data := copyInto (fun _ => 0) 0 size.toNat fun i => (t idx).data (offset.toNat + i) }, t)
    else none

/-- `handle_write` -/
def handleWrite (t : Table) (m : Msg) : Option (Reply × Table) :=
  match fileFind t m.path with
  | none => some (failure, t)
  | some idx =>
    let offset := m.arg0
    let size := if offset + m.arg1 > MAX_FILE_SIZE then MAX_FILE_SIZE - offset else m.arg1
    if size.toNat ≤ MSG_DATA_SIZE ∧ offset.toNat + size.toNat ≤ MAX_FILE_SIZE.toNat then
      some (reply size 0#64, setEntry t idx fun f =>
        { f with
          -- from the start of `msg->data`, where the path is
          data := copyInto f.data offset.toNat size.toNat m.data
          size := if offset + size > f.size then offset + size else f.size })
    else none

/-- `handle_create` -/
def handleCreate (t : Table) (m : Msg) : Reply × Table :=
  match fileFind t m.path with
  | some _ => (failure, t)
  | none =>
    match fileFindFree t with
    | none => (failure, t)
    | some idx =>
      (reply 0#64 0#64, setEntry t idx fun f =>
        { f with
          -- `data` keeps what the slot held before
          name := (strncpy f.name m.path 63).set 63 0
          size := 0#64
          flags := m.arg0.setWidth 32
          used := true })

/-- `handle_delete` -/
def handleDelete (t : Table) (m : Msg) : Reply × Table :=
  match fileFind t m.path with
  | none => (failure, t)
  | some idx => (reply 0#64 0#64, setEntry t idx fun f => { f with used := false, size := 0#64 })

/-- `handle_truncate` -/
def handleTruncate (t : Table) (m : Msg) : Reply × Table :=
  match fileFind t m.path with
  | none => (failure, t)
  | some idx =>
    let newSize := if m.arg0 > MAX_FILE_SIZE then MAX_FILE_SIZE else m.arg0
    (reply 0#64 0#64, setEntry t idx fun f =>
      { f with
        data :=
          if newSize < f.size then clearFrom f.data newSize.toNat (f.size - newSize).toNat
          else f.data
        size := newSize })

/-- `handle_stat` -/
def handleStat (t : Table) (m : Msg) : Reply × Table :=
  match fileFind t m.path with
  | none => (failure, t)
  | some idx =>
    ({ reply 0#64 (t idx).size with
      arg2 := (t idx).flags.setWidth 64
      data := fun i => (t idx).name.getD i 0 }, t)

/-- The loop of `handle_readdir` over the remaining slots: the bytes written. -/
def readdirLoop (t : Table) : List Nat → Bytes → Bytes
  | [], out => out
  | i :: is, out =>
    if (t i).used then
      let name := cstring (t i).name
      -- no room for the name, a newline and the final NUL
      if out.length + name.length + 2 ≥ 512 then out
      else readdirLoop t is (out ++ name ++ [10])
    else readdirLoop t is out

/-- `handle_readdir` -/
def handleReaddir (t : Table) (_ : Msg) : Reply × Table :=
  let out := readdirLoop t (List.range MAX_FILES) []
  ({ reply (BitVec.ofNat 64 out.length) 0#64 with data := fun i => out.getD i 0 }, t)

/-- `handle_open` -/
def handleOpen (t : Table) (m : Msg) : Reply × Table :=
  match fileFind t m.path with
  | none => (failure, t)
  | some idx => (reply (BitVec.ofNat 64 idx) 0#64, t)

/-- `handle_close` -/
def handleClose (t : Table) (_ : Msg) : Reply × Table := (reply 0#64 0#64, t)

/-- `handle_seek`, and the default case of the main loop. -/
def handleSeek (t : Table) (_ : Msg) : Reply × Table := (failure, t)

/-- The `switch` of the main loop. -/
def handle (t : Table) (m : Msg) : Option (Reply × Table) :=
  if m.type = VFS_READ then handleRead t m
  else if m.type = VFS_WRITE then handleWrite t m
  else if m.type = VFS_CREATE then some (handleCreate t m)
  else if m.type = VFS_DELETE then some (handleDelete t m)
  else if m.type = VFS_TRUNCATE then some (handleTruncate t m)
  else if m.type = VFS_STAT then some (handleStat t m)
  else if m.type = VFS_READDIR then some (handleReaddir t m)
  else if m.type = VFS_OPEN then some (handleOpen t m)
  else if m.type = VFS_CLOSE then some (handleClose t m)
  else some (handleSeek t m)

/-- The table after a request; a server that has faulted stays where it was. -/
def step (t : Table) (m : Msg) : Table :=
  match handle t m with
  | some (_, t') => t'
  | none => t

/-! ## `vfs_init_ramfs` -/

/-- The bytes of a string of ASCII characters. -/
def ascii (cs : List Char) : Bytes := cs.map fun c => UInt8.ofNat c.toNat

/-- One block of `vfs_init_ramfs`. -/
def addDefault (t : Table) (name content : Bytes) : Table :=
  match fileFindFree t with
  | none => t
  | some idx => setEntry t idx fun f =>
    { name := strncpy f.name name 63
      data := copyInto f.data 0 content.length fun i => content.getD i 0
      size := BitVec.ofNat 64 content.length
      flags := 0#32
      used := true }

/-- The zero-initialised `file_table`. -/
def emptyTable : Table := fun _ => ⟨List.replicate NAME_SIZE 0, fun _ => 0, 0#64, 0#32, false⟩

def helloName : Bytes := ascii ['/', 'h', 'e', 'l', 'l', 'o', '.', 't', 'x', 't']
def readmeName : Bytes := ascii ['/', 'r', 'e', 'a', 'd', 'm', 'e', '.', 'm', 'd']
def versionName : Bytes := ascii ['/', 'v', 'e', 'r', 's', 'i', 'o', 'n']

def helloText : Bytes :=
  ascii ['H', 'e', 'l', 'l', 'o', ' ', 'f', 'r', 'o', 'm', ' ', 'A', 'e', 'g', 'i', 's', ' ',
    'R', 'A', 'M', ' ', 'f', 'i', 'l', 'e', 's', 'y', 's', 't', 'e', 'm', '!'] ++ [10]

def readmeText : Bytes :=
  ascii ['#', ' ', 'A', 'e', 'g', 'i', 's', ' ', 'O', 'S'] ++ [10, 10] ++
    ascii ['A', ' ', 'm', 'i', 'c', 'r', 'o', 'k', 'e', 'r', 'n', 'e', 'l', '-', 'b', 'a', 's',
      'e', 'd', ' ', 'o', 'p', 'e', 'r', 'a', 't', 'i', 'n', 'g', ' ', 's', 'y', 's', 't', 'e',
      'm', '.'] ++ [10]

def versionText : Bytes :=
  ascii ['A', 'e', 'g', 'i', 's', ' ', 'O', 'S', ' ', '0', '.', '1', '.', '0'] ++ [10]

/-- `vfs_init_ramfs` on the zero-initialised table. -/
def vfsInitRamfs : Table :=
  addDefault (addDefault (addDefault emptyTable helloName helloText) readmeName readmeText)
    versionName versionText

end AegisKernel.Vfs
