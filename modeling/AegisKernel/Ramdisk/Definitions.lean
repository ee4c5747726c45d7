import AegisKernel.Library.Bytes
import AegisKernel.Library.Words

/-!
# Ramdisk — executable models of `scripts/mkramdisk.py` and `kernel/src/ramdisk.c`

The builder works on the list of files `os.walk` yields; a file is the bytes of
its base name and its content. Python integers are unbounded, and
`struct.pack` raises when a value does not fit its field: `none`.

`build_ramdisk` writes the entries in a loop that still uses `rel_path` and
`fpath` of the loop before it. Both name the last file, so every entry is given
the size of the last file, and the offsets advance by it.

The kernel side reads an image in memory. A read outside the image is a memory
fault: `none`. A returned pointer is given as its offset from the start of the
image.
-/

namespace AegisKernel.Ramdisk

open Library

def RAMDISK_MAGIC : Nat := 0x444B4D52

/-! ## The Python builder -/

structure File where
  name : Bytes
  content : Bytes
deriving DecidableEq, Repr

/-- `os.path.getsize` -/
def File.size (f : File) : Nat := f.content.length

/-- `struct.pack('<I', v)` -/
def packI (v : Nat) : Option Bytes := if v < 2 ^ 32 then some (le 4 v) else none

/-- `struct.pack('<Q', v)` -/
def packQ (v : Nat) : Option Bytes := if v < 2 ^ 64 then some (le 8 v) else none

/-- `4 + 4 + 8` -/
def headerSize : Nat := 16

/-- `64 + 8 + 8 + 4` -/
def entrySize : Nat := 84

/-- The first 63 bytes of a name in a zeroed field of 64. -/
def nameField (name : Bytes) : Bytes :=
  name.take 63 ++ List.replicate (64 - (name.take 63).length) 0

/-- One table entry: name, offset, size and zero flags. -/
def packEntry (name : Bytes) (offset size : Nat) : Option Bytes := do
  let o ← packQ offset
  let n ← packQ size
  let flags ← packI 0
  return nameField name ++ o ++ n ++ flags

/-- Where file data begins. -/
def dataOffset (count : Nat) : Nat := roundUp 8 (headerSize + count * entrySize)

/-- The entry loop; `lastSize` is `os.path.getsize` of the stale `fpath`. -/
def packEntries (lastSize : Nat) : Nat → List File → Option Bytes
  | _, [] => some []
  | offset, f :: fs => do
    -- `fpath` and `rel_path` are left over from the directory walk
    let e ← packEntry f.name offset lastSize
    let es ← packEntries lastSize (offset + lastSize) fs
    return e ++ es

/-- `build_ramdisk`: the bytes it writes; `none` if there are no files or
`struct.pack` raises. -/
def buildRamdisk (files : List File) : Option Bytes :=
  match files.getLast? with
  | none => none
  | some last => do
    let magic ← packI RAMDISK_MAGIC
    let count ← packI files.length
    let total ← packQ (dataOffset files.length + (files.map File.size).sum)
    let entries ← packEntries last.size (dataOffset files.length) files
    -- the data is aligned by the length actually written
    let table := magic ++ count ++ total ++ entries
    let padding := List.replicate (roundUp 8 table.length - table.length) 0
    return table ++ padding ++ files.flatMap File.content

/-! ## The kernel reader -/

/-- The static variables `ramdisk_header` and `ramdisk_entries`, each the image
it points into. -/
structure State where
  header : Option Bytes
  entries : Option Bytes

/-- A little-endian field of an image. -/
def readLe (img : Bytes) (pos n : Nat) : Option Nat := (slice img pos n).map unle

/-- `ramdisk_init` -/
def ramdiskInit (s : State) (img : Bytes) : Option State := do
  let magic ← readLe img 0 4
  -- a wrong magic leaves `ramdisk_entries` as it was
  if magic ≠ RAMDISK_MAGIC then
    return { s with header := some img }
  else
    return { header := some img, entries := some img }

/-- `strcmp` of the string at `pos` of an image with a NUL-terminated name, given
without its NUL. -/
def strcmp (img : Bytes) (pos : Nat) : Bytes → Option Int
  | [] => do
    let c ← img[pos]?
    return (c.toNat : Int)
  | b :: bs => do
    let c ← img[pos]?
    if c ≠ 0 ∧ c = b then strcmp img (pos + 1) bs
    else return (c.toNat : Int) - b.toNat

/-- The loop of `ramdisk_find_file`, from entry `i` on with `n` entries to go. -/
def findLoop (entries : Bytes) (name : Bytes) : Nat → Nat → Option (Option (Nat × Nat))
  | _, 0 => some none
  | i, n + 1 => do
    let pos := headerSize + i * entrySize
    let c ← strcmp entries pos name
    if c = 0 then
      let size ← readLe entries (pos + 72) 8
      let offset ← readLe entries (pos + 64) 8
      return some (offset, size)
    else findLoop entries name (i + 1) n

/-- `ramdisk_find_file`: the offset of the file and its size, or NULL. -/
def ramdiskFindFile (s : State) (name : Bytes) : Option (Option (Nat × Nat)) :=
  match s.header, s.entries with
  | some header, some entries => do
    let count ← readLe header 4 4
    findLoop entries name 0 count
  | _, _ => some none

end AegisKernel.Ramdisk
