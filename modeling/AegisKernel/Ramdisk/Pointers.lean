import AegisKernel.Library.Spans
import AegisKernel.Ramdisk.Definitions

/-!
# Ramdisk — `kernel/src/ramdisk.c` over memory

The functions as they work on pointers: an image is at an address, and nothing
keeps a read inside of it. Addresses are 64-bit words, NULL is 0, and the static
variables are two pointers. The image and the variables of the caller do not
overlap.

`strcmp` gives the addresses it reads along with its result, and
`ramdisk_find_file` the entries it compares. A name is given without its NUL.
-/

namespace AegisKernel.Ramdisk.Pointers

open Library

/-- A 64-bit address. -/
abbrev Address := BitVec 64

abbrev Memory := Address → UInt8

/-- The static variables `ramdisk_header` and `ramdisk_entries`. -/
structure State where
  header : Address
  entries : Address
deriving DecidableEq

/-- The variables as the boot image has them. -/
def boot : State := ⟨0#64, 0#64⟩

/-- A field of a record. -/
def field (m : Memory) (record : Address) (offset size : Nat) : Nat :=
  fetch m (record + BitVec.ofNat 64 offset) size

/-- `header->magic` -/
def magic (m : Memory) (header : Address) : Nat := field m header 0 4

/-- `header->file_count` -/
def fileCount (m : Memory) (header : Address) : Nat := field m header 4 4

/-- `header->total_size` -/
def totalSize (m : Memory) (header : Address) : Nat := field m header 8 8

/-- `entry->offset` -/
def offset (m : Memory) (entry : Address) : Nat := field m entry 64 8

/-- `entry->size` -/
def size (m : Memory) (entry : Address) : Nat := field m entry 72 8

/-- `ramdisk_init` -/
def ramdiskInit (m : Memory) (s : State) (data : Address) : State :=
  let s₁ := { s with header := data }
  -- the pointer is set before the magic is looked at
  if magic m data ≠ RAMDISK_MAGIC then s₁
  else { s₁ with entries := data + BitVec.ofNat 64 headerSize }

/-- `strcmp` of the string at `s1` with a name, and the addresses read. -/
def strcmp (m : Memory) (s1 : Address) : Bytes → Int × List Address
  | [] => ((m s1).toNat, [s1])
  | b :: bs =>
    if m s1 ≠ 0 ∧ m s1 = b then
      let (c, reads) := strcmp m (s1 + 1#64) bs
      (c, s1 :: reads)
    else ((m s1).toNat - b.toNat, [s1])

/-- What a look-up does: the pointer it returns, the value it stores to `*size`, if
any, and the entries compared, each with the addresses the comparison read. -/
structure Lookup where
  pointer : Address
  size : Option Nat
  compared : List (Address × List Address)
deriving DecidableEq

/-- The loop of `ramdisk_find_file`, from entry `i` on with `n` entries to go. -/
def findLoop (m : Memory) (s : State) (name : Bytes) : Nat → Nat → Lookup
  | _, 0 => ⟨0#64, none, []⟩
  | i, n + 1 =>
    let entry := s.entries + BitVec.ofNat 64 (entrySize * i)
    let (c, reads) := strcmp m entry name
    if c = 0 then
      ⟨s.header + BitVec.ofNat 64 (offset m entry), some (size m entry), [(entry, reads)]⟩
    else
      let rest := findLoop m s name (i + 1) n
      { rest with compared := (entry, reads) :: rest.compared }

/-- `ramdisk_find_file` -/
def ramdiskFindFile (m : Memory) (s : State) (name : Bytes) : Lookup :=
  if s.header = 0#64 ∨ s.entries = 0#64 then ⟨0#64, none, []⟩
  else findLoop m s name 0 (fileCount m s.header)

/-- `ramdisk_load_file`: the return value, and `*data` and `*size` if they are
stored. -/
def ramdiskLoadFile (m : Memory) (s : State) (name : Bytes) : Int × Option Address × Option Nat :=
  let found := ramdiskFindFile m s name
  if found.pointer = 0#64 then (-1, none, found.size)
  else (0, some found.pointer, found.size)

end AegisKernel.Ramdisk.Pointers
