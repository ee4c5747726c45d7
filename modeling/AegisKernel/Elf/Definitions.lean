import AegisKernel.Library.Spans
import AegisKernel.Mm.Definitions

/-!
# ELF loader — executable model of `kernel/src/elf.c`

Memory is a byte at every 64-bit address, and pointer arithmetic wraps. The image
is read where it lies and segments are written to the same memory, so a segment
may overwrite the headers still to be read. The variables of the heap and
`*entry_point` are outside of this memory.

Along with its effect, the loader leaves a log of what it does: the bytes it reads
and writes, the requests to `mm_alloc` with their answers, and the program headers
it goes through. Console output is left out.
-/

namespace AegisKernel.Elf

open Library

/-- A 64-bit machine word. -/
abbrev Word := BitVec 64

abbrev Memory := Word → UInt8

def ELF_CLASS_64 : Nat := 2
def ELF_DATA_LSB : Nat := 1
def ELF_TYPE_EXEC : Nat := 2
def ELF_MACHINE_X86_64 : Nat := 0x3E
def ELF_PT_LOAD : Nat := 1

/-- `sizeof(elf64_ehdr_t)` -/
def ehdrSize : Nat := 64

/-- `sizeof(elf64_phdr_t)` -/
def phdrSize : Nat := 56

/-- Something the loader does. -/
inductive Event
  | read (addr : Word)
  | write (addr : Word)
  | phdr (addr : Word)
  | alloc (size : Word) (result : Option Word)
deriving DecidableEq

structure State where
  mem : Memory
  heap : Mm.State
  /-- `*entry_point` -/
  entryPoint : Word
  log : List Event

namespace State

def note (s : State) (es : List Event) : State := { s with log := s.log ++ es }

/-- Read a field of `n` bytes. -/
def load (s : State) (a : Word) (n : Nat) : Nat × State :=
  (fetch s.mem a n, s.note ((span a n).map .read))

/-- Read a `uint64_t`. -/
def loadWord (s : State) (a : Word) : Word × State :=
  let (v, s₁) := s.load a 8
  (BitVec.ofNat 64 v, s₁)

/-- `mm_alloc`, whose result the loader does not look at. -/
def alloc (s : State) (size align : Word) : State :=
  let (result, heap) := Mm.mmAlloc s.heap size align
  { s with heap := heap }.note [.alloc size result]

/-- `memcpy` -/
def memcpy (dst src : Word) : Nat → State → State
  | 0, s => s
  | n + 1, s =>
    let s₁ := { s with mem := Function.update s.mem dst (s.mem src) }.note [.read src, .write dst]
    memcpy (dst + 1#64) (src + 1#64) n s₁

/-- `memset` -/
def memset (dst : Word) (c : UInt8) : Nat → State → State
  | 0, s => s
  | n + 1, s =>
    let s₁ := { s with mem := Function.update s.mem dst c }.note [.write dst]
    memset (dst + 1#64) c n s₁

end State

/-- A field of the ELF header and the value it must have. -/
structure Check where
  offset : Nat
  size : Nat
  value : Nat

/-- The checks at the start of `elf_load`, in order. -/
def headerChecks : List Check :=
  [⟨0, 1, 0x7F⟩, ⟨1, 1, 0x45⟩, ⟨2, 1, 0x4C⟩, ⟨3, 1, 0x46⟩, -- `e_ident`: the magic
    ⟨4, 1, ELF_CLASS_64⟩, ⟨5, 1, ELF_DATA_LSB⟩,
    ⟨18, 2, ELF_MACHINE_X86_64⟩, -- `e_machine`
    ⟨16, 2, ELF_TYPE_EXEC⟩] -- `e_type`

/-- The checks, up to the first one that fails. -/
def checkHeader (elfData : Word) : List Check → State → Bool × State
  | [], s => (true, s)
  | c :: cs, s =>
    let (v, s₁) := s.load (elfData + BitVec.ofNat 64 c.offset) c.size
    if v ≠ c.value then (false, s₁) else checkHeader elfData cs s₁

/-- The body of the loop for a `PT_LOAD` header. -/
def loadSegment (elfData phdr : Word) (s : State) : State :=
  let (vaddr, s₁) := s.loadWord (phdr + 16#64)
  let (memsz, s₂) := s₁.loadWord (phdr + 40#64)
  let (offset, s₃) := s₂.loadWord (phdr + 8#64)
  let dst := vaddr
  let src := elfData + offset
  let s₄ := s₃.alloc memsz 4096#64
  let (filesz, s₅) := s₄.loadWord (phdr + 32#64)
  let s₆ := s₅.memcpy dst src filesz.toNat
  -- the header is read again: the copy may have changed it
  let (memsz', s₇) := s₆.loadWord (phdr + 40#64)
  let (filesz', s₈) := s₇.loadWord (phdr + 32#64)
  if memsz' > filesz' then s₈.memset (dst + filesz') 0 (memsz' - filesz').toNat else s₈

/-- The body of the loop. -/
def phdrStep (elfData phdr : Word) (s : State) : State :=
  let (type, s₁) := (s.note [.phdr phdr]).load phdr 4
  if type ≠ ELF_PT_LOAD then s₁ else loadSegment elfData phdr s₁

/-- `&phdrs[i]` -/
def phdrAddr (phdrs : Word) (i : Nat) : Word := phdrs + BitVec.ofNat 64 (phdrSize * i)

/-- The loop over the program headers when `i` is `65535 - n`. Every round reads
`e_phnum`, and an `i` of 65535 is not below it. -/
def phdrLoop (elfData phdrs : Word) : Nat → State → State
  | 0, s => (s.load (elfData + 56#64) 2).2
  | n + 1, s =>
    let i := 65535 - (n + 1)
    let (phnum, s₁) := s.load (elfData + 56#64) 2
    if i < phnum then phdrLoop elfData phdrs n (phdrStep elfData (phdrAddr phdrs i) s₁) else s₁

/-- `elf_load` -/
def elfLoad (s : State) (elfData : Word) : Int × State :=
  let (ok, s₁) := checkHeader elfData headerChecks s
  if !ok then (-1, s₁)
  else
    let (entry, s₂) := s₁.loadWord (elfData + 24#64)
    let s₃ := { s₂ with entryPoint := entry }
    let (phoff, s₄) := s₃.loadWord (elfData + 32#64)
    let phdrs := elfData + phoff
    (0, phdrLoop elfData phdrs 65535 s₄)

end AegisKernel.Elf
