import Mathlib.Logic.Function.Basic
import AegisKernel.Library.Words

/-!
# Memory management — executable model of `kernel/src/mm.c`

`size_t`, addresses and page-table entries are 64-bit words with wrapping
arithmetic. Memory is a map from addresses to the 64-bit word stored there;
page tables are page-aligned, so the code only uses addresses divisible by 8.
A pointer is an address, NULL is 0, and `heapArea` is the address the linker
gave to `heap_area`.

`mm_alloc` itself is modelled by the index it returns a pointer to. The
constant `~0xFFF` is an `int`, sign-extended to `0xFFFFFFFFFFFFF000`.

Console output and the `cr3` write of `mm_switch_page_table` are left out.
-/

namespace AegisKernel.Mm

/-- A 64-bit machine word. -/
abbrev Word := BitVec 64

def AEGIS_PAGE_SIZE : Word := 4096#64
def KERNEL_HEAP_SIZE : Word := 262144#64

def AEGIS_PTE_PRESENT : Word := 0x1#64
def AEGIS_PTE_WRITABLE : Word := 0x2#64
def AEGIS_PTE_USER : Word := 0x4#64
def AEGIS_PTE_WRITE_THROUGH : Word := 0x8#64
def AEGIS_PTE_CACHE_DISABLE : Word := 0x10#64
def AEGIS_PTE_ACCESSED : Word := 0x20#64
def AEGIS_PTE_DIRTY : Word := 0x40#64
def AEGIS_PTE_GLOBAL : Word := 0x100#64
def AEGIS_PTE_NX : Word := 0x8000000000000000#64
def AEGIS_PTE_FLAGS_DEFAULT : Word := AEGIS_PTE_PRESENT ||| AEGIS_PTE_WRITABLE

/-- The static variables of `mm.c`, and memory. -/
structure State where
  heapArea : Word
  heapOffset : Word
  nextPhysPage : Word
  kernelPageTable : Word
  currentPageTable : Word
  mem : Word → Word

/-! ## The heap -/

/-- `align_up` -/
def alignUp (value align : Word) : Word := (value + align - 1#64) &&& ~~~(align - 1#64)

/-- `mm_alloc`; `some start` is the pointer `&heap_area[start]`. -/
def mmAlloc (s : State) (size align : Word) : Option Word × State :=
  let start := alignUp s.heapOffset align
  -- the sum is taken modulo 2^64
  if start + size > KERNEL_HEAP_SIZE then (none, s)
  else (some start, { s with heapOffset := start + size })

/-- `mm_phys_alloc` -/
def mmPhysAlloc (s : State) : Word × State :=
  (s.nextPhysPage, { s with nextPhysPage := s.nextPhysPage + AEGIS_PAGE_SIZE })

/-! ## Page tables -/

/-- `pt->entries[index]` -/
def State.entry (s : State) (pt index : Word) : Word := s.mem (pt + 8#64 * index)

def State.setEntry (s : State) (pt index value : Word) : State :=
  { s with mem := Function.update s.mem (pt + 8#64 * index) value }

/-- `page_table_alloc` -/
def pageTableAlloc (s : State) : Word × State :=
  match mmAlloc s AEGIS_PAGE_SIZE AEGIS_PAGE_SIZE with
  | (none, s') => (0#64, s')
  | (some start, s') => (s'.heapArea + start, s')

/-- `mm_page_table_create` -/
def mmPageTableCreate (s : State) : Word × State := pageTableAlloc s

/-- `page_table_get_entry` -/
def pageTableGetEntry (s : State) (pt index : Word) (create : Bool) : Word × State :=
  let entry := s.entry pt index
  -- everything above the low 12 bits is taken for the address
  if entry &&& AEGIS_PTE_PRESENT ≠ 0#64 then (entry &&& ~~~0xFFF#64, s)
  else if !create then (0#64, s)
  else
    let (newPt, s₁) := pageTableAlloc s
    if newPt = 0#64 then (0#64, s₁)
    else
      (newPt, s₁.setEntry pt index
        (newPt ||| AEGIS_PTE_PRESENT ||| AEGIS_PTE_WRITABLE ||| AEGIS_PTE_USER))

def pml4Idx (vaddr : Word) : Word := (vaddr >>> 39) &&& 0x1FF#64
def pdptIdx (vaddr : Word) : Word := (vaddr >>> 30) &&& 0x1FF#64
def pdIdx (vaddr : Word) : Word := (vaddr >>> 21) &&& 0x1FF#64
def ptIdx (vaddr : Word) : Word := (vaddr >>> 12) &&& 0x1FF#64

/-- The three lookups `mm_page_map`, `mm_page_unmap` and `mm_page_walk` begin
with: the last-level table of `vaddr`, or NULL. -/
def lookupTables (s : State) (pt vaddr : Word) (create : Bool) : Word × State :=
  let (pdpt, s₁) := pageTableGetEntry s pt (pml4Idx vaddr) create
  if pdpt = 0#64 then (0#64, s₁)
  else
    let (pd, s₂) := pageTableGetEntry s₁ pdpt (pdptIdx vaddr) create
    if pd = 0#64 then (0#64, s₂)
    else pageTableGetEntry s₂ pd (pdIdx vaddr) create

/-- `mm_page_map`; the entry is stored in `pt`, not in the last-level table. -/
def mmPageMap (s : State) (pt vaddr paddr flags : Word) : Int × State :=
  let (ptPage, s₁) := lookupTables s pt vaddr true
  if ptPage = 0#64 then (-1, s₁)
  else
    let entry := (paddr &&& ~~~0xFFF#64) ||| flags ||| AEGIS_PTE_PRESENT
    -- `pt->entries[pt_idx] = entry`
    (0, s₁.setEntry pt (ptIdx vaddr) entry)

/-- `mm_page_unmap` -/
def mmPageUnmap (s : State) (pt vaddr : Word) : State :=
  let (ptPage, s₁) := lookupTables s pt vaddr false
  if ptPage = 0#64 then s₁ else s₁.setEntry pt (ptIdx vaddr) 0#64

/-- `mm_page_walk` -/
def mmPageWalk (s : State) (pt vaddr : Word) (create : Bool) : Word × State :=
  let (ptPage, s₁) := lookupTables s pt vaddr create
  if ptPage = 0#64 then (0#64, s₁) else (pt + 8#64 * ptIdx vaddr, s₁)

/-- `mm_page_protect` -/
def mmPageProtect (s : State) (pt vaddr flags : Word) : Int × State :=
  let (entry, s₁) := mmPageWalk s pt vaddr false
  if entry = 0#64 ∨ s₁.mem entry &&& AEGIS_PTE_PRESENT = 0#64 then (-1, s₁)
  else
    (0, { s₁ with mem := Function.update s₁.mem entry ((s₁.mem entry &&& ~~~0xFFF#64) ||| flags) })

/-- `mm_init` -/
def mmInit (s : State) : State :=
  let (table, s₁) := pageTableAlloc { s with heapOffset := 0#64 }
  let s₂ := { s₁ with kernelPageTable := table }
  if table = 0#64 then s₂
  else
    -- identity-map the first 4 MiB, whatever `mm_page_map` returns
    let s₃ := (List.range 1024).foldl (fun s i =>
      let addr := BitVec.ofNat 64 i * AEGIS_PAGE_SIZE
      (mmPageMap s table addr addr (AEGIS_PTE_FLAGS_DEFAULT ||| AEGIS_PTE_GLOBAL)).2) s₂
    { s₃ with currentPageTable := table }

/-- The static variables as the boot image has them; `mem` is whatever memory
holds. -/
def boot (heapArea : Word) (mem : Word → Word) : State where
  heapArea := heapArea
  heapOffset := 0#64
  nextPhysPage := 0x100000#64
  kernelPageTable := 0#64
  currentPageTable := 0#64
  mem := mem

/-! ## Virtual memory areas

A `vma_t` is four words: `start`, `end`, `flags` and `next`. -/

/-- The store `*a = v`. -/
def State.setWord (s : State) (a v : Word) : State := { s with mem := Function.update s.mem a v }

/-- `sizeof(vma_t)` -/
def vmaSize : Word := 32#64

/-- `vma->start` -/
def State.vmaStart (s : State) (vma : Word) : Word := s.mem vma

/-- `vma->end` -/
def State.vmaEnd (s : State) (vma : Word) : Word := s.mem (vma + 8#64)

/-- `vma->flags` -/
def State.vmaFlags (s : State) (vma : Word) : Word := s.mem (vma + 16#64)

/-- `&vma->next` -/
def vmaLink (vma : Word) : Word := vma + 24#64

/-- `mm_vma_add`; `list` is the address of the variable that holds the list. -/
def mmVmaAdd (s : State) (list start stop flags : Word) : Int × State :=
  if start ≥ stop ∨ start % AEGIS_PAGE_SIZE ≠ 0#64 ∨ stop % AEGIS_PAGE_SIZE ≠ 0#64 then (-1, s)
  else
    match mmAlloc s vmaSize 8#64 with
    | (none, s') => (-1, s')
    | (some block, s') =>
      let newVma := s'.heapArea + block
      let s₁ := s'.setWord newVma start
      let s₂ := s₁.setWord (newVma + 8#64) stop
      let s₃ := s₂.setWord (newVma + 16#64) flags
      let s₄ := s₃.setWord (vmaLink newVma) (s₃.mem list)
      (0, s₄.setWord list newVma)

/-- The loop of `mm_vma_remove`; `curr` is the address of a pointer to a region.
`none`: no end within the given number of rounds. -/
def removeLoop (start : Word) : Nat → Word → State → Option State
  | 0, _, _ => none
  | fuel + 1, curr, s =>
    let vma := s.mem curr
    if vma = 0#64 then some s
    else if s.vmaStart vma = start then
      -- `*curr = (*curr)->next`
      some (s.setWord curr (s.mem (vmaLink vma)))
    else removeLoop start fuel (vmaLink vma) s

/-- `mm_vma_remove` -/
def mmVmaRemove (fuel : Nat) (s : State) (list start : Word) : Option State :=
  removeLoop start fuel list s

/-- `mm_vma_find`; `list` is the list itself, the pointer to its first region. -/
def mmVmaFind : Nat → State → Word → Word → Option Word
  | 0, _, _, _ => none
  | fuel + 1, s, vma, addr =>
    if vma = 0#64 then some 0#64
    else if addr ≥ s.vmaStart vma ∧ addr < s.vmaEnd vma then some vma
    else mmVmaFind fuel s (s.mem (vmaLink vma)) addr

end AegisKernel.Mm
