import AegisKernel.Library.Runs
import AegisKernel.Mm.Heap

/-!
# Memory management — page tables against the hardware walk

`translate` is the walk the processor makes through the four levels. The
component is meant to keep it equal to a finite map from pages to frames
(`Refines`): `mm_page_map` sets an entry of that map and `mm_page_unmap`
removes one.

`mm_page_map` builds the three lower levels for the page, but then stores the
entry in the top-level table: `pt->entries[pt_idx]`, not
`pt_page->entries[pt_idx]`. The last-level table it has just built stays
empty.

* `Ready` — the situation after `mm_page_table_create` on a zeroed heap.
* `translate_after_map` — after the first `mm_page_map` of a page whose
  top-level and last-level indices differ, the page still has no translation.

`paging_refines_without_map` is the result about runs: without `mm_page_map`
the table refines the finite map, and a run of maps with differing indices
refines it only if it maps nothing.
-/

namespace AegisKernel.Mm

open Library

/-! ## The hardware walk and the finite map -/

/-- Bits 51..12 of an entry: the frame. -/
def frameMask : Word := 0x000FFFFFFFFFF000#64

/-- The entry at `index` of a table, if it is present. -/
def presentEntry (mem : Word → Word) (table index : Word) : Option Word :=
  let e := mem (table + 8#64 * index)
  if e &&& AEGIS_PTE_PRESENT ≠ 0#64 then some e else none

/-- The four-level walk: the frame and the other bits of the last-level
entry. -/
def translate (mem : Word → Word) (pt v : Word) : Option (Word × Word) := do
  let e₄ ← presentEntry mem pt (pml4Idx v)
  let e₃ ← presentEntry mem (e₄ &&& frameMask) (pdptIdx v)
  let e₂ ← presentEntry mem (e₃ &&& frameMask) (pdIdx v)
  let e₁ ← presentEntry mem (e₂ &&& frameMask) (ptIdx v)
  return (e₁ &&& frameMask, e₁ &&& ~~~frameMask)

/-- A page-aligned 48-bit virtual address. -/
def PageAddr (v : Word) : Prop := v.toNat % 4096 = 0 ∧ v.toNat < 2 ^ 48

/-- The `AEGIS_PTE_*` bits other than HUGE. -/
def pteFlags : Word :=
  AEGIS_PTE_PRESENT ||| AEGIS_PTE_WRITABLE ||| AEGIS_PTE_USER ||| AEGIS_PTE_WRITE_THROUGH |||
    AEGIS_PTE_CACHE_DISABLE ||| AEGIS_PTE_ACCESSED ||| AEGIS_PTE_DIRTY ||| AEGIS_PTE_GLOBAL |||
    AEGIS_PTE_NX

/-- A call on a page table. -/
inductive PageOp
  | map (vaddr paddr flags : Word)
  | unmap (vaddr : Word)

/-- The arguments considered. -/
def PageOp.Valid : PageOp → Prop
  | .map v p flags =>
      PageAddr v ∧ p.toNat % 4096 = 0 ∧ p.toNat < 2 ^ 52 ∧ flags &&& ~~~pteFlags = 0#64
  | .unmap v => PageAddr v

/-- The state of `mm.c`, whether every `mm_page_map` so far returned 0, and the
finite map the calls so far describe. -/
structure Mapping where
  state : State
  allZero : Bool
  pages : Word → Option (Word × Word)

/-- One call on the table `pt`. -/
def Mapping.step (pt : Word) (m : Mapping) : PageOp → Mapping
  | .map v p flags =>
    let (code, s) := mmPageMap m.state pt v p flags
    { state := s, allZero := m.allZero && code == 0,
      pages := Function.update m.pages v (some (p, flags ||| AEGIS_PTE_PRESENT)) }
  | .unmap v =>
    { m with state := mmPageUnmap m.state pt v, pages := Function.update m.pages v none }

/-- Every map succeeded, and the walk agrees with the finite map. -/
def Refines (pt : Word) (m : Mapping) : Prop :=
  m.allZero = true ∧ ∀ v, PageAddr v → translate m.state.mem pt v = m.pages v

/-- No page mapped yet. -/
def Mapping.fresh (s : State) : Mapping := ⟨s, true, fun _ => none⟩

/-! ## Tables on the heap -/

/-- `heap_area` is page-aligned and inside the 52-bit physical address space,
and its unused part is zero. -/
structure HeapZero (s : State) : Prop where
  aligned : s.heapArea.toNat % 4096 = 0
  pos : 0 < s.heapArea.toNat
  low : s.heapArea.toNat + KERNEL_HEAP_SIZE.toNat ≤ 2 ^ 52
  offset_le : s.heapOffset.toNat ≤ KERNEL_HEAP_SIZE.toNat
  zero : ∀ a : Word, s.heapArea.toNat + s.heapOffset.toNat ≤ a.toNat →
    a.toNat < s.heapArea.toNat + KERNEL_HEAP_SIZE.toNat → s.mem a = 0#64

/-- `t` is a page of the used part of the heap. -/
structure Table (s : State) (t : Word) : Prop where
  aligned : t.toNat % 4096 = 0
  lower : s.heapArea.toNat ≤ t.toNat
  upper : t.toNat + 4096 ≤ s.heapArea.toNat + s.heapOffset.toNat

/-- An index into a page table. -/
def Index (i : Word) : Prop := i.toNat < 512

theorem index_and (x : Word) : Index (x &&& 0x1FF#64) := by
  unfold Index
  rw [toNat_and_mask x 0x1FF#64 9 rfl]
  exact Nat.mod_lt _ (by decide)

section Tables

variable {s : State} {t u i j : Word}

/-- Entries of tables do not wrap around memory. -/
theorem Table.entry_toNat (hs : HeapZero s) (ht : Table s t) (hi : Index i) :
    (t + 8#64 * i).toNat = t.toNat + 8 * i.toNat := by
  have hlow := hs.low
  have hoff := hs.offset_le
  have hup := ht.upper
  unfold Index at hi
  have h8 : (8#64 * i).toNat = 8 * i.toNat := by
    rw [BitVec.toNat_mul]
    exact Nat.mod_eq_of_lt (by
      show 8 * i.toNat < 2 ^ 64
      omega)
  rw [BitVec.toNat_add, h8, Nat.mod_eq_of_lt (by omega)]

/-- Different entries of tables are different words of memory. -/
theorem Table.entry_inj (hs : HeapZero s) (ht : Table s t) (hu : Table s u) (hi : Index i)
    (hj : Index j) (h : t + 8#64 * i = u + 8#64 * j) : t = u ∧ i = j := by
  have hnat := congrArg BitVec.toNat h
  rw [ht.entry_toNat hs hi, hu.entry_toNat hs hj] at hnat
  have hta := ht.aligned
  have hua := hu.aligned
  unfold Index at hi hj
  exact ⟨BitVec.eq_of_toNat_eq (by omega), BitVec.eq_of_toNat_eq (by omega)⟩

theorem Table.setEntry_self (v : Word) : (s.setEntry t i v).entry t i = v := by
  simp [State.setEntry, State.entry]

theorem Table.setEntry_of_ne (hs : HeapZero s) (ht : Table s t) (hu : Table s u) (hi : Index i)
    (hj : Index j) (hne : ¬ (u = t ∧ j = i)) (v : Word) :
    (s.setEntry t i v).entry u j = s.entry u j := by
  have haddr : u + 8#64 * j ≠ t + 8#64 * i := fun h => hne (hu.entry_inj hs ht hj hi h)
  simp [State.setEntry, State.entry, haddr]

/-- Writing to a table does not touch the unused part of the heap. -/
theorem HeapZero.setEntry (hs : HeapZero s) (ht : Table s t) (hi : Index i) (v : Word) :
    HeapZero (s.setEntry t i v) := by
  refine ⟨hs.aligned, hs.pos, hs.low, hs.offset_le, fun a ha ha' => ?_⟩
  have hne : a ≠ t + 8#64 * i := by
    rintro rfl
    rw [ht.entry_toNat hs hi] at ha
    have hup := ht.upper
    unfold Index at hi
    have hsame : (s.setEntry t i v).heapArea.toNat + (s.setEntry t i v).heapOffset.toNat =
        s.heapArea.toNat + s.heapOffset.toNat := rfl
    omega
  rw [show (s.setEntry t i v).mem a = Function.update s.mem (t + 8#64 * i) v a from rfl,
    Function.update_of_ne hne]
  exact hs.zero a ha ha'

theorem Table.setEntry (h : Table s u) (v : Word) : Table (s.setEntry t i v) u :=
  ⟨h.aligned, h.lower, h.upper⟩

/-- `page_table_alloc` fails, or returns a zero page above everything in use. -/
theorem pageTableAlloc_spec (hs : HeapZero s) :
    (pageTableAlloc s).1 = 0#64 ∨
      ∃ (u : Word) (offset : Word),
        pageTableAlloc s = (u, { s with heapOffset := offset }) ∧ u ≠ 0#64 ∧
        s.heapArea.toNat + s.heapOffset.toNat ≤ u.toNat ∧
        u.toNat % 4096 = 0 ∧ u.toNat + 4096 = s.heapArea.toNat + offset.toNat ∧
        offset.toNat ≤ KERNEL_HEAP_SIZE.toNat := by
  have hpage : AEGIS_PAGE_SIZE.toNat = 4096 := rfl
  have hoff := hs.offset_le
  have hlow := hs.low
  have hup : s.heapOffset.toNat ≤ roundUp 4096 s.heapOffset.toNat := le_roundUp (by decide)
  have hbound : roundUp 4096 s.heapOffset.toNat ≤ s.heapOffset.toNat + 4096 - 1 := roundUp_le
  have hdvd : roundUp 4096 s.heapOffset.toNat % 4096 = 0 :=
    Nat.mod_eq_zero_of_dvd (dvd_roundUp 4096 _)
  have halign : PowerOfTwo AEGIS_PAGE_SIZE := ⟨12, rfl⟩
  rcases alloc_cases hoff AEGIS_PAGE_SIZE halign with
    ⟨-, hres⟩ | ⟨hfit, start, hstart, hres, hsum⟩
  · refine .inl ?_
    unfold pageTableAlloc
    rw [hres]
  · rw [hpage] at hfit hsum hstart
    rw [heapSize_toNat] at hoff hlow hfit
    -- neither the offset nor the address wraps
    have hend : (start + AEGIS_PAGE_SIZE).toNat = start.toNat + 4096 := by omega
    have haddr : (s.heapArea + start).toNat = s.heapArea.toNat + start.toNat := by
      rw [BitVec.toNat_add]
      exact Nat.mod_eq_of_lt (by omega)
    have haligned := hs.aligned
    have hpos := hs.pos
    refine .inr ⟨s.heapArea + start, start + AEGIS_PAGE_SIZE, ?_, ?_, ?_, ?_, ?_, ?_⟩
    · unfold pageTableAlloc
      rw [hres]
    · intro h0
      have := congrArg BitVec.toNat h0
      simp only [haddr, BitVec.toNat_ofNat, Nat.zero_mod] at this
      omega
    · omega
    · omega
    · omega
    · rw [heapSize_toNat]
      omega

/-- A page newly taken from the heap: a table of its own, still all zero, next to
the tables there were. -/
structure NewPage (s : State) (u offset : Word) : Prop where
  heap : HeapZero { s with heapOffset := offset }
  table : Table { s with heapOffset := offset } u
  fresh : ∀ w, Table s w → w ≠ u
  keeps : ∀ w, Table s w → Table { s with heapOffset := offset } w
  empty : ∀ j, Index j → s.entry u j = 0#64

theorem pageTableAlloc_newPage (hs : HeapZero s) :
    (pageTableAlloc s).1 = 0#64 ∨ ∃ u offset,
      pageTableAlloc s = (u, { s with heapOffset := offset }) ∧ u ≠ 0#64 ∧
        NewPage s u offset := by
  rcases pageTableAlloc_spec hs with hfail | ⟨u, offset, hres, hu0, hlow, hua, hup, hoff⟩
  · exact .inl hfail
  refine .inr ⟨u, offset, hres, hu0, ?_⟩
  have hheap : HeapZero { s with heapOffset := offset } := by
    refine ⟨hs.aligned, hs.pos, hs.low, hoff, fun a ha ha' => hs.zero a ?_ ha'⟩
    dsimp only at ha
    omega
  have htable : Table { s with heapOffset := offset } u := by
    refine ⟨hua, ?_, ?_⟩
    · show s.heapArea.toNat ≤ u.toNat
      omega
    · show u.toNat + 4096 ≤ s.heapArea.toNat + offset.toNat
      omega
  refine ⟨hheap, htable, fun w hw hwu => ?_, fun w hw => ⟨hw.aligned, hw.lower, ?_⟩,
    fun j hj => ?_⟩
  · have hupper := hw.upper
    rw [hwu] at hupper
    omega
  · have hupper := hw.upper
    show w.toNat + 4096 ≤ s.heapArea.toNat + offset.toNat
    omega
  · -- the page comes from the unused, zero part of the heap
    have haddr := htable.entry_toNat hheap hj
    unfold Index at hj
    refine hs.zero _ ?_ ?_
    · rw [haddr]
      omega
    · rw [haddr]
      omega

end Tables

/-! ## The first map -/

/-- What `page_table_get_entry` with `create` leaves behind when the entry was
empty: a new empty table, linked at that entry; all other entries as before. -/
structure Linked (s s' : State) (t i u : Word) : Prop where
  heap : HeapZero s'
  table : Table s' u
  fresh : ∀ w, Table s w → w ≠ u
  keeps : ∀ w, Table s w → Table s' w
  entry : s'.entry t i = u ||| AEGIS_PTE_PRESENT ||| AEGIS_PTE_WRITABLE ||| AEGIS_PTE_USER
  empty : ∀ j, Index j → s'.entry u j = 0#64
  other : ∀ w j, Table s w → Index j → ¬ (w = t ∧ j = i) → s'.entry w j = s.entry w j

/-- Linking a new page. -/
theorem NewPage.linked {s : State} {t i u offset : Word} (hnew : NewPage s u offset)
    (ht : Table s t) (hi : Index i) :
    Linked s (({ s with heapOffset := offset } : State).setEntry t i
      (u ||| AEGIS_PTE_PRESENT ||| AEGIS_PTE_WRITABLE ||| AEGIS_PTE_USER)) t i u := by
  have ht₁ := hnew.keeps t ht
  refine ⟨hnew.heap.setEntry ht₁ hi _, hnew.table.setEntry _, hnew.fresh,
    fun w hw => (hnew.keeps w hw).setEntry _, Table.setEntry_self _, fun j hj => ?_,
    fun w j hw hj hne => ?_⟩
  · -- the link is not written into the new page itself
    have hne : ¬ (u = t ∧ j = i) := fun h => hnew.fresh t ht h.1.symm
    rw [Table.setEntry_of_ne hnew.heap ht₁ hnew.table hi hj hne]
    exact hnew.empty j hj
  · rw [Table.setEntry_of_ne hnew.heap ht₁ (hnew.keeps w hw) hi hj hne]
    rfl

theorem pageTableGetEntry_linked {s : State} {t i : Word} (hs : HeapZero s) (ht : Table s t)
    (hi : Index i) (h0 : s.entry t i = 0#64)
    (hok : (pageTableGetEntry s t i true).1 ≠ 0#64) :
    Linked s (pageTableGetEntry s t i true).2 t i (pageTableGetEntry s t i true).1 := by
  rcases pageTableAlloc_newPage hs with hfail | ⟨u, offset, hres, hu0, hnew⟩
  · exact absurd (by simp [pageTableGetEntry, h0, hfail]) hok
  · have hget : pageTableGetEntry s t i true =
        (u, ({ s with heapOffset := offset } : State).setEntry t i
          (u ||| AEGIS_PTE_PRESENT ||| AEGIS_PTE_WRITABLE ||| AEGIS_PTE_USER)) := by
      simp [pageTableGetEntry, h0, hres, hu0]
    rw [hget]
    exact hnew.linked ht hi

/-- The frame of an entry that links a table is that table. -/
theorem Table.frame {s : State} {u : Word} (hs : HeapZero s) (hu : Table s u) (flags : Word)
    (hflags : flags &&& frameMask = 0#64) : (u ||| flags) &&& frameMask = u := by
  have hmask : ∀ i, frameMask.getLsbD i = (decide (12 ≤ i) && decide (i - 12 < 40)) := by
    intro i
    have hnat : frameMask.toNat = (2 ^ 40 - 1) * 2 ^ 12 := rfl
    rw [← BitVec.testBit_toNat, hnat, Nat.testBit_mul_two_pow, Nat.testBit_two_pow_sub_one]
  have hkeep : u &&& frameMask = u := by
    refine BitVec.eq_of_getLsbD_eq fun i hi => ?_
    rw [BitVec.getLsbD_and, hmask]
    by_cases hlow : 12 ≤ i
    · by_cases hhigh : i < 52
      · simp [hlow, show i - 12 < 40 by omega]
      · -- bits 52 and up are clear: the heap is below 2^52
        have hbit : u.getLsbD i = false := by
          rw [← BitVec.testBit_toNat]
          refine Nat.testBit_lt_two_pow (Nat.lt_of_lt_of_le ?_
            (Nat.pow_le_pow_right (by decide) (show 52 ≤ i by omega)))
          have := hs.low
          have := hs.offset_le
          have := hu.upper
          omega
        simp [hbit]
    · -- bits 0 to 11 are clear: the table is page-aligned
      have hbit : u.getLsbD i = false := by
        have hdiv : u.toNat = u.toNat / 2 ^ 12 * 2 ^ 12 := by
          have := hu.aligned
          omega
        rw [← BitVec.testBit_toNat, hdiv, Nat.testBit_mul_two_pow]
        simp [hlow]
      simp [hbit]
  rw [BitVec.and_or_distrib_right, hkeep, hflags, BitVec.or_zero]

/-- The entry that links table `u`. -/
def linkEntry (u : Word) : Word := u ||| AEGIS_PTE_PRESENT ||| AEGIS_PTE_WRITABLE ||| AEGIS_PTE_USER

theorem linkEntry_present (t : Word) : linkEntry t &&& AEGIS_PTE_PRESENT ≠ 0#64 := by
  intro h0
  have hbit := congrArg (fun w : Word => w.getLsbD 0) h0
  simp [linkEntry, AEGIS_PTE_PRESENT, AEGIS_PTE_WRITABLE, AEGIS_PTE_USER] at hbit

/-- The walk follows a linked table. -/
theorem presentEntry_link {s : State} {t i u : Word} (h : s.entry t i = linkEntry u) :
    presentEntry s.mem t i = some (linkEntry u) := by
  have hmem : s.mem (t + 8#64 * i) = linkEntry u := h
  unfold presentEntry
  rw [hmem, if_pos (linkEntry_present u)]

theorem linkEntry_frame {s : State} {u : Word} (hs : HeapZero s) (hu : Table s u) :
    linkEntry u &&& frameMask = u := by
  unfold linkEntry
  rw [BitVec.or_assoc, BitVec.or_assoc]
  exact hu.frame hs _ (by decide)

/-- On an empty top-level table the three lookups of `mm_page_map` build a
chain of three new tables, the last of them empty. -/
theorem lookupTables_fresh {s : State} {pt v : Word} (hs : HeapZero s) (hpt : Table s pt)
    (hempty : ∀ j, Index j → s.entry pt j = 0#64)
    (hok : (lookupTables s pt v true).1 ≠ 0#64) :
    ∃ a b c s', lookupTables s pt v true = (c, s') ∧ HeapZero s' ∧
      (Table s' pt ∧ Table s' a ∧ Table s' b ∧ Table s' c) ∧
      (a ≠ pt ∧ b ≠ pt ∧ c ≠ pt) ∧
      s'.entry pt (pml4Idx v) = linkEntry a ∧ s'.entry a (pdptIdx v) = linkEntry b ∧
      s'.entry b (pdIdx v) = linkEntry c ∧ s'.entry c (ptIdx v) = 0#64 := by
  have hi₄ : Index (pml4Idx v) := index_and _
  have hi₃ : Index (pdptIdx v) := index_and _
  have hi₂ : Index (pdIdx v) := index_and _
  have hi₁ : Index (ptIdx v) := index_and _
  -- one table after the other; a NULL anywhere makes the whole lookup NULL
  rcases h₁ : pageTableGetEntry s pt (pml4Idx v) true with ⟨a, s₁⟩
  by_cases ha0 : a = 0#64
  · exact absurd (by simp [lookupTables, h₁, ha0]) hok
  have hl₁ := pageTableGetEntry_linked hs hpt hi₄ (hempty _ hi₄) (by rw [h₁]; exact ha0)
  rw [h₁] at hl₁
  dsimp only at hl₁
  rcases h₂ : pageTableGetEntry s₁ a (pdptIdx v) true with ⟨b, s₂⟩
  by_cases hb0 : b = 0#64
  · exact absurd (by simp [lookupTables, h₁, ha0, h₂, hb0]) hok
  have hl₂ := pageTableGetEntry_linked hl₁.heap hl₁.table hi₃ (hl₁.empty _ hi₃)
    (by rw [h₂]; exact hb0)
  rw [h₂] at hl₂
  dsimp only at hl₂
  rcases h₃ : pageTableGetEntry s₂ b (pdIdx v) true with ⟨c, s₃⟩
  by_cases hc0 : c = 0#64
  · exact absurd (by simp [lookupTables, h₁, ha0, h₂, hb0, h₃, hc0]) hok
  have hl₃ := pageTableGetEntry_linked hl₂.heap hl₂.table hi₂ (hl₂.empty _ hi₂)
    (by rw [h₃]; exact hc0)
  rw [h₃] at hl₃
  dsimp only at hl₃
  -- the four tables are different pages, so each link survives the next one
  have hpt₁ := hl₁.keeps pt hpt
  have hpt₂ := hl₂.keeps pt hpt₁
  have ha₂ := hl₂.keeps a hl₁.table
  have hapt : a ≠ pt := (hl₁.fresh pt hpt).symm
  have hbpt : b ≠ pt := (hl₂.fresh pt hpt₁).symm
  have hba : b ≠ a := (hl₂.fresh a hl₁.table).symm
  refine ⟨a, b, c, s₃, by simp [lookupTables, h₁, ha0, h₂, hb0, h₃], hl₃.heap,
    ⟨hl₃.keeps pt hpt₂, hl₃.keeps a ha₂, hl₃.keeps b hl₂.table, hl₃.table⟩,
    ⟨hapt, hbpt, (hl₃.fresh pt hpt₂).symm⟩, ?_, ?_, ?_, ?_⟩
  · rw [hl₃.other pt _ hpt₂ hi₄ fun h => hbpt h.1.symm,
      hl₂.other pt _ hpt₁ hi₄ fun h => hapt h.1.symm]
    exact hl₁.entry
  · rw [hl₃.other a _ ha₂ hi₃ fun h => hba h.1.symm]
    exact hl₂.entry
  · exact hl₃.entry
  · exact hl₃.empty _ hi₁

/-- After the first `mm_page_map` of a page whose top-level and last-level
indices differ, the walk for that page ends in an empty last-level table. -/
theorem translate_after_map {s : State} {pt v : Word} (hs : HeapZero s) (hpt : Table s pt)
    (hempty : ∀ j, Index j → s.entry pt j = 0#64) (hne : pml4Idx v ≠ ptIdx v)
    (p flags : Word) (hok : (mmPageMap s pt v p flags).1 = 0) :
    translate (mmPageMap s pt v p flags).2.mem pt v = none := by
  have hi₄ : Index (pml4Idx v) := index_and _
  have hi₁ : Index (ptIdx v) := index_and _
  -- a successful map found its three tables
  have hlook : (lookupTables s pt v true).1 ≠ 0#64 := by
    intro h0
    simp [mmPageMap, h0] at hok
  obtain ⟨a, b, c, s', hres, hs', ⟨hpt', ha, hb, hc⟩, ⟨hapt, hbpt, hcpt⟩, he₄, he₃, he₂, he₁⟩ :=
    lookupTables_fresh hs hpt hempty hlook
  rw [hres] at hlook
  have hmap : (mmPageMap s pt v p flags).2 =
      s'.setEntry pt (ptIdx v) ((p &&& ~~~0xFFF#64) ||| flags ||| AEGIS_PTE_PRESENT) := by
    unfold mmPageMap
    rw [hres]
    dsimp only
    rw [if_neg hlook]
  rw [hmap]
  -- the store goes to another entry of the top-level table
  set s'' := s'.setEntry pt (ptIdx v) ((p &&& ~~~0xFFF#64) ||| flags ||| AEGIS_PTE_PRESENT)
    with hs''
  have hkeep : ∀ t i, Table s' t → Index i → ¬ (t = pt ∧ i = ptIdx v) →
      s''.entry t i = s'.entry t i :=
    fun t i ht hi h => Table.setEntry_of_ne hs' hpt' ht hi₁ hi h _
  have h₄ : s''.entry pt (pml4Idx v) = linkEntry a := by
    rw [hkeep pt _ hpt' hi₄ fun h => hne h.2]
    exact he₄
  have h₃ : s''.entry a (pdptIdx v) = linkEntry b := by
    rw [hkeep a (pdptIdx v) ha (index_and _) fun h => hapt h.1]
    exact he₃
  have h₂ : s''.entry b (pdIdx v) = linkEntry c := by
    rw [hkeep b (pdIdx v) hb (index_and _) fun h => hbpt h.1]
    exact he₂
  -- the last-level table is as empty as it was made
  have h₁ : presentEntry s''.mem c (ptIdx v) = none := by
    have hzero : s''.mem (c + 8#64 * ptIdx v) = 0#64 := by
      have := hkeep c _ hc hi₁ fun h => hcpt h.1
      exact this.trans he₁
    unfold presentEntry
    rw [hzero]
    rfl
  unfold translate
  simp only [presentEntry_link h₄, presentEntry_link h₃, presentEntry_link h₂, h₁,
    linkEntry_frame hs' ha, linkEntry_frame hs' hb, linkEntry_frame hs' hc,
    Option.bind_eq_bind, Option.bind_some, Option.bind_none]

/-! ## Whole runs -/

/-- The situation `mm_page_table_create` leaves on a zeroed heap: an empty
top-level table, and zeroed heap behind it. -/
structure Ready (s : State) (pt : Word) : Prop where
  heap : HeapZero s
  table : Table s pt
  empty : ∀ j, Index j → s.entry pt j = 0#64

theorem ready_of_create {s : State} (hs : HeapZero s)
    (hok : (mmPageTableCreate s).1 ≠ 0#64) :
    Ready (mmPageTableCreate s).2 (mmPageTableCreate s).1 := by
  unfold mmPageTableCreate at *
  rcases pageTableAlloc_newPage hs with hfail | ⟨u, offset, hres, -, hnew⟩
  · exact absurd hfail hok
  · rw [hres]
    exact ⟨hnew.heap, hnew.table, hnew.empty⟩

section Runs

variable {s : State} {pt : Word}

/-- On an empty table `mm_page_unmap` finds nothing to remove. -/
theorem mmPageUnmap_ready (h : Ready s pt) (v : Word) : mmPageUnmap s pt v = s := by
  have h0 := h.empty (pml4Idx v) (index_and _)
  have hget : pageTableGetEntry s pt (pml4Idx v) false = (0#64, s) := by
    simp [pageTableGetEntry, h0]
  simp [mmPageUnmap, lookupTables, hget]

theorem translate_ready (h : Ready s pt) (v : Word) : translate s.mem pt v = none := by
  have h0 : s.mem (pt + 8#64 * pml4Idx v) = 0#64 := h.empty (pml4Idx v) (index_and _)
  have hnone : presentEntry s.mem pt (pml4Idx v) = none := by
    unfold presentEntry
    rw [h0]
    rfl
  simp [translate, hnone]

/-- Unmapping on an empty table keeps it an empty mapping. -/
theorem step_unmap_ready (h : Ready s pt) (v : Word) :
    Mapping.step pt (Mapping.fresh s) (.unmap v) = Mapping.fresh s := by
  unfold Mapping.step Mapping.fresh
  dsimp only
  rw [mmPageUnmap_ready h]
  congr 1
  funext w
  simp [Function.update_apply]

theorem refines_ready (h : Ready s pt) : Refines pt (Mapping.fresh s) :=
  ⟨rfl, fun v _ => translate_ready h v⟩

/-- The first map of a page whose indices differ breaks the refinement. -/
theorem step_map_ready (h : Ready s pt) {v : Word} (hv : PageAddr v)
    (hne : pml4Idx v ≠ ptIdx v) (p flags : Word) :
    ¬ Refines pt (Mapping.step pt (Mapping.fresh s) (.map v p flags)) := by
  rintro ⟨hzero, hwalk⟩
  have hok : (mmPageMap s pt v p flags).1 = 0 := by
    simpa [Mapping.step, Mapping.fresh] using hzero
  have hnone := translate_after_map h.heap h.table h.empty hne p flags hok
  have hsome := hwalk v hv
  simp [Mapping.step, Mapping.fresh, hnone] at hsome

end Runs

/-- **Paging along a run.** Start from the table `mm_page_table_create` returns
on a zeroed, page-aligned heap. A run of valid calls without `mm_page_map`
refines the finite map throughout; and a run whose maps all have different
top-level and last-level indices refines it only if it maps nothing. -/
theorem paging_refines_without_map (s : State) (hs : HeapZero s)
    (hok : (mmPageTableCreate s).1 ≠ 0#64) (ops : List PageOp) (hops : ∀ op ∈ ops, op.Valid) :
    let pt := (mmPageTableCreate s).1
    let start := Mapping.fresh (mmPageTableCreate s).2
    ((∀ v p flags, .map v p flags ∉ ops) → Throughout (Mapping.step pt) (Refines pt) start ops) ∧
    ((∀ v p flags, .map v p flags ∈ ops → pml4Idx v ≠ ptIdx v) →
      Throughout (Mapping.step pt) (Refines pt) start ops → ∀ v p flags, .map v p flags ∉ ops) := by
  intro pt start
  have hready := ready_of_create hs hok
  have hstart := refines_ready hready
  constructor
  -- without a map the table stays empty, step by step
  · intro hno
    induction ops with
    | nil => exact hstart
    | cons op ops ih =>
      cases op with
      | map v p flags => exact absurd (List.mem_cons_self ..) (hno v p flags)
      | unmap v =>
        refine ⟨hstart, ?_⟩
        rw [step_unmap_ready hready v]
        refine ih (fun op hop => hops op (List.mem_cons_of_mem _ hop)) fun v p flags hmem => ?_
        exact hno v p flags (List.mem_cons_of_mem _ hmem)
  -- up to the first map the table is empty; the first map breaks the refinement
  · intro hdiff hall
    induction ops with
    | nil => simp
    | cons op ops ih =>
      cases op with
      | map v p flags =>
        have hv : PageAddr v := (hops _ (List.mem_cons_self ..)).1
        have hbad := step_map_ready hready hv (hdiff v p flags (List.mem_cons_self ..)) p flags
        have hafter := (throughout_iff_start_and_meets.mp hall.2).1
        exact absurd hafter hbad
      | unmap v =>
        have hrest := hall.2
        rw [step_unmap_ready hready v] at hrest
        have hnone := ih (fun op hop => hops op (List.mem_cons_of_mem _ hop))
          (fun v p flags hmem => hdiff v p flags (List.mem_cons_of_mem _ hmem)) hrest
        intro v' p flags hmem
        rcases List.mem_cons.mp hmem with h | h
        · exact absurd h (by simp)
        · exact hnone v' p flags h

theorem heapZero_boot : HeapZero (boot 0x200000#64 fun _ => 0#64) :=
  ⟨by decide, by decide, by decide, by decide, fun _ _ _ => rfl⟩

/-- Removing a page that was never mapped is fine; mapping page `0x1000` is not. -/
theorem paging_refines_unmap :
    let s := boot 0x200000#64 fun _ => 0#64
    let pt := (mmPageTableCreate s).1
    let start := Mapping.fresh (mmPageTableCreate s).2
    Throughout (Mapping.step pt) (Refines pt) start [.unmap 0x1000#64] ∧
      ¬ Throughout (Mapping.step pt) (Refines pt) start
        [.map 0x1000#64 0x5000#64 AEGIS_PTE_WRITABLE] := by
  intro s pt start
  have hok : (mmPageTableCreate s).1 ≠ 0#64 := by decide
  have hv : PageAddr 0x1000#64 := ⟨by decide, by decide⟩
  constructor
  · refine (paging_refines_without_map s heapZero_boot hok [.unmap 0x1000#64] ?_).1 ?_
    · intro op hop
      rw [List.mem_singleton.mp hop]
      exact hv
    · simp
  · intro hall
    refine (paging_refines_without_map s heapZero_boot hok
      [.map 0x1000#64 0x5000#64 AEGIS_PTE_WRITABLE] ?_).2 ?_ hall _ _ _ (List.mem_singleton.mpr rfl)
    · intro op hop
      rw [List.mem_singleton.mp hop]
      exact ⟨hv, by decide, by decide, by decide⟩
    · intro v p flags hmem
      simp only [List.mem_singleton, PageOp.map.injEq] at hmem
      rw [hmem.1]
      decide

/-- The first two calls of `mm_init`'s identity-mapping loop: the entry for page
0 replaces the link to its own tables, and the second `mm_page_map` returns -1. -/
theorem identity_map_fails :
    let s := boot 0x200000#64 fun _ => 0#64
    let pt := (mmPageTableCreate s).1
    let flags := AEGIS_PTE_FLAGS_DEFAULT ||| AEGIS_PTE_GLOBAL
    let m := Mapping.step pt (Mapping.fresh (mmPageTableCreate s).2) (.map 0#64 0#64 flags)
    (mmPageMap m.state pt 0x1000#64 0x1000#64 flags).1 = -1 ∧
      ¬ Refines pt (Mapping.step pt m (.map 0x1000#64 0x1000#64 flags)) := by
  intro s pt flags m
  have hcode : (mmPageMap m.state pt 0x1000#64 0x1000#64 flags).1 = -1 := by decide
  refine ⟨hcode, fun href => ?_⟩
  have hzero := href.1
  simp [Mapping.step, hcode] at hzero

end AegisKernel.Mm
