import AegisKernel.Mm.Paging

/-!
# Memory management — what a page-table entry keeps

An entry is a pointer and flags in one word. `page_table_get_entry` and
`mm_page_protect` take everything above the low 12 bits for the pointer.

* Below, that needs pointers that are multiples of 4096. `mm_alloc` aligns
  `heap_offset`, an index into `heap_area`, so what it returns is aligned
  exactly as well as `heap_area` itself (`alloc_aligned_iff`), and a table
  that is created is found again exactly when `heap_area` is page-aligned
  (`table_found_iff`).
* Above, bits 52 to 63 are not part of the frame, and NX is one of them.
  `mm_page_protect` keeps them along with the frame: an entry that has one of
  them set still has it afterwards (`protect_exact_iff`).
-/

namespace AegisKernel.Mm

open Library

-- ---------------------------------------------------------------------------
-- Pointers from the heap
-- ---------------------------------------------------------------------------

section Alignment

variable {s s' : State} {size align start pt i : Word}

/-- The alignment step gives a multiple of the alignment, wherever it starts. -/
theorem dvd_alignUp (value : Word) (ha : PowerOfTwo align) :
    align.toNat ∣ (alignUp value align).toNat := by
  have hpos := ha.pos
  obtain ⟨k, hk⟩ := ha
  have hmask : (align - 1#64).toNat = 2 ^ k - 1 := by
    rw [BitVec.toNat_sub, BitVec.toNat_ofNat, hk]
    have hlt := align.isLt
    omega
  unfold alignUp
  rw [toNat_and_not_mask _ _ k hmask, hk]
  exact Nat.dvd_mul_left _ _

theorem alloc_start (h : (mmAlloc s size align).1 = some start) :
    start = alignUp s.heapOffset align := by
  unfold mmAlloc at h
  dsimp only at h
  split at h
  · exact absurd h (by simp)
  · exact (Option.some.inj h).symm

/-- A pointer from the heap is as well aligned as `heap_area` is. -/
theorem alloc_aligned_iff (ha : PowerOfTwo align) (h : (mmAlloc s size align).1 = some start) :
    align.toNat ∣ (s.heapArea + start).toNat ↔ align.toNat ∣ s.heapArea.toNat := by
  have hstart : align.toNat ∣ start.toNat := by
    rw [alloc_start h]
    exact dvd_alignUp _ ha
  -- addresses wrap at a multiple of the alignment
  rw [BitVec.toNat_add, Nat.dvd_mod_iff ha.dvd_two_pow, Nat.dvd_add_left hstart]

/-- What the mask leaves of a pointer that has been stored with flags. -/
theorem linkEntry_pointer (t : Word) :
    linkEntry t &&& ~~~0xFFF#64 = t ↔ AEGIS_PAGE_SIZE.toNat ∣ t.toNat := by
  have hflags : (AEGIS_PTE_PRESENT ||| (AEGIS_PTE_WRITABLE ||| AEGIS_PTE_USER)) &&&
      ~~~0xFFF#64 = 0#64 := by decide
  have hpage : AEGIS_PAGE_SIZE.toNat = 4096 := rfl
  rw [linkEntry, BitVec.or_assoc, BitVec.or_assoc, BitVec.and_or_distrib_right, hflags,
    BitVec.or_zero, ← BitVec.toNat_inj, toNat_and_not_mask t 0xFFF#64 12 rfl, hpage]
  omega

/-- A lookup that creates a table takes it from the heap and links it. -/
theorem pageTableGetEntry_created (habsent : s.entry pt i &&& AEGIS_PTE_PRESENT = 0#64)
    (hne : (pageTableGetEntry s pt i true).1 ≠ 0#64) :
    ∃ start, (mmAlloc s AEGIS_PAGE_SIZE AEGIS_PAGE_SIZE).1 = some start ∧
      (pageTableGetEntry s pt i true).1 = s.heapArea + start ∧
      (pageTableGetEntry s pt i true).2.entry pt i = linkEntry (s.heapArea + start) := by
  have hif : ¬ s.entry pt i &&& AEGIS_PTE_PRESENT ≠ 0#64 := not_not.mpr habsent
  cases halloc : mmAlloc s AEGIS_PAGE_SIZE AEGIS_PAGE_SIZE with
  | mk res s₁ =>
    have harea : s₁.heapArea = s.heapArea := by
      unfold mmAlloc at halloc
      dsimp only at halloc
      split at halloc <;> rw [← (Prod.mk.inj halloc).2]
    cases res with
    | none =>
      unfold pageTableGetEntry pageTableAlloc at hne
      dsimp only at hne
      rw [if_neg hif, halloc] at hne
      exact absurd rfl hne
    | some start =>
      have hget : pageTableGetEntry s pt i true =
          if s.heapArea + start = 0#64 then (0#64, s₁)
          else (s.heapArea + start, s₁.setEntry pt i (linkEntry (s.heapArea + start))) := by
        unfold pageTableGetEntry pageTableAlloc
        dsimp only
        rw [if_neg hif, halloc]
        simp only [harea, Bool.not_true, Bool.false_eq_true, if_false]
        rfl
      by_cases h0 : s.heapArea + start = 0#64
      · rw [hget, if_pos h0] at hne
        exact absurd rfl hne
      · rw [hget, if_neg h0]
        exact ⟨start, rfl, rfl, Table.setEntry_self _⟩

/-- A table that has been created is found again exactly when `heap_area` is
page-aligned. -/
theorem table_found_iff (habsent : s.entry pt i &&& AEGIS_PTE_PRESENT = 0#64)
    (hne : (pageTableGetEntry s pt i true).1 ≠ 0#64)
    (hkept : s'.entry pt i = (pageTableGetEntry s pt i true).2.entry pt i) :
    (pageTableGetEntry s' pt i false).1 = (pageTableGetEntry s pt i true).1 ↔
      AEGIS_PAGE_SIZE.toNat ∣ s.heapArea.toNat := by
  obtain ⟨start, halloc, hres, hentry⟩ := pageTableGetEntry_created habsent hne
  rw [hentry] at hkept
  have hget : (pageTableGetEntry s' pt i false).1 =
      linkEntry (s.heapArea + start) &&& ~~~0xFFF#64 := by
    unfold pageTableGetEntry
    dsimp only
    rw [hkept, if_pos (linkEntry_present _)]
  rw [hget, hres, linkEntry_pointer]
  exact alloc_aligned_iff ⟨12, rfl⟩ halloc

end Alignment

/-- **Pointers survive the entry.** What `mm_alloc` returns is a multiple of the
alignment asked for if and only if `heap_area` is, and a page table that
`page_table_get_entry` creates is the one it finds later, with that entry
unchanged, if and only if `heap_area` is page-aligned. -/
theorem table_pointers_iff (s : State) :
    (∀ size align start : Word, PowerOfTwo align → (mmAlloc s size align).1 = some start →
      (align.toNat ∣ (s.heapArea + start).toNat ↔ align.toNat ∣ s.heapArea.toNat)) ∧
    ∀ (pt i t : Word) (s₁ s' : State), s.entry pt i &&& AEGIS_PTE_PRESENT = 0#64 →
      pageTableGetEntry s pt i true = (t, s₁) → t ≠ 0#64 → s'.entry pt i = s₁.entry pt i →
      ((pageTableGetEntry s' pt i false).1 = t ↔
        AEGIS_PAGE_SIZE.toNat ∣ s.heapArea.toNat) := by
  refine ⟨fun size align start ha h => alloc_aligned_iff ha h, ?_⟩
  intro pt i t s₁ s' habsent hget hne hkept
  have ht : (pageTableGetEntry s pt i true).1 = t := by rw [hget]
  have hs₁ : (pageTableGetEntry s pt i true).2 = s₁ := by rw [hget]
  subst ht hs₁
  exact table_found_iff habsent hne hkept

/-- A page-aligned heap: the first table created at entry 3 of a table is found
again. -/
theorem table_pointers_aligned :
    let s := boot 0x200000#64 fun _ => 0#64
    (pageTableGetEntry (pageTableGetEntry s 0x1000#64 3#64 true).2 0x1000#64 3#64 false).1 =
      0x200000#64 := by
  intro s
  have h := (table_pointers_iff s).2 0x1000#64 3#64 0x200000#64
    (pageTableGetEntry s 0x1000#64 3#64 true).2 (pageTableGetEntry s 0x1000#64 3#64 true).2
    (by decide) (Prod.ext (by decide) rfl) (by decide) rfl
  exact h.mpr (by decide)

/-- A heap that begins 32 bytes behind a page boundary: the page `mm_alloc`
returns is not page-aligned, and the table created there is not found again. -/
theorem table_pointer_lost :
    let s := boot 0x200020#64 fun _ => 0#64
    (mmAlloc s AEGIS_PAGE_SIZE AEGIS_PAGE_SIZE).1 = some 0#64 ∧
      ¬ AEGIS_PAGE_SIZE.toNat ∣ (s.heapArea + 0#64).toNat ∧
      (pageTableGetEntry s 0x1000#64 3#64 true).1 = 0x200020#64 ∧
      (pageTableGetEntry (pageTableGetEntry s 0x1000#64 3#64 true).2 0x1000#64 3#64 false).1 =
        0x200000#64 := by
  decide

-- ---------------------------------------------------------------------------
-- Replacing the flags
-- ---------------------------------------------------------------------------

/-- Bits 52 to 63 of an entry. -/
def highBits : Word := 0xFFF0000000000000#64

/-- What `mm_page_protect` should do to the entry it finds: return 0 and leave
there the frame with the new flags and nothing else, which is also what
`mm_page_map` stores; no other word of memory changes. -/
structure FlagsReplaced (s : State) (pt vaddr flags : Word) : Prop where
  code : (mmPageProtect s pt vaddr flags).1 = 0
  entry : (mmPageProtect s pt vaddr flags).2 =
    s.setWord (mmPageWalk s pt vaddr false).1
      (s.mem (mmPageWalk s pt vaddr false).1 &&& frameMask ||| flags)
  mapped : ∀ (m : State) (pt' v : Word),
    (mmPageMap m pt' v (s.mem (mmPageWalk s pt vaddr false).1 &&& frameMask) flags).1 = 0 →
      (mmPageMap m pt' v (s.mem (mmPageWalk s pt vaddr false).1 &&& frameMask) flags).2.entry
        pt' (ptIdx v) = s.mem (mmPageWalk s pt vaddr false).1 &&& frameMask ||| flags

section Protect

variable {s : State} {pt vaddr flags : Word}

/-- Looking up without `create` changes nothing. -/
theorem pageTableGetEntry_false (s : State) (t i : Word) :
    (pageTableGetEntry s t i false).2 = s := by
  unfold pageTableGetEntry
  dsimp only
  split <;> rfl

theorem mmPageWalk_false (s : State) (pt vaddr : Word) : (mmPageWalk s pt vaddr false).2 = s := by
  have hlookup : (lookupTables s pt vaddr false).2 = s := by
    unfold lookupTables
    dsimp only
    split
    · exact pageTableGetEntry_false ..
    · rw [pageTableGetEntry_false]
      split
      · exact pageTableGetEntry_false ..
      · rw [pageTableGetEntry_false, pageTableGetEntry_false]
  unfold mmPageWalk
  dsimp only
  split <;> exact hlookup

/-- At a present entry. -/
theorem mmPageProtect_present (flags : Word) (hwalk : (mmPageWalk s pt vaddr false).1 ≠ 0#64)
    (hpresent : s.mem (mmPageWalk s pt vaddr false).1 &&& AEGIS_PTE_PRESENT ≠ 0#64) :
    mmPageProtect s pt vaddr flags =
      (0, s.setWord (mmPageWalk s pt vaddr false).1
        (s.mem (mmPageWalk s pt vaddr false).1 &&& ~~~0xFFF#64 ||| flags)) := by
  unfold mmPageProtect
  dsimp only
  rw [mmPageWalk_false, if_neg (not_or.mpr ⟨hwalk, hpresent⟩)]
  rfl

/-- Keeping bits 12 to 63 or bits 12 to 51 makes the same word, with the new flags,
exactly when the flags cover what bits 52 to 63 hold. -/
theorem kept_bits_iff (old flags : Word) :
    old &&& ~~~0xFFF#64 ||| flags = old &&& frameMask ||| flags ↔
      old &&& highBits &&& ~~~flags = 0#64 := by
  have hsplit : ~~~0xFFF#64 = frameMask ||| highBits := by decide
  have hapart : frameMask &&& highBits = 0#64 := by decide
  rw [hsplit]
  constructor
  · intro heq
    refine BitVec.eq_of_getLsbD_eq fun i hi => ?_
    have hbit := congrArg (fun w : Word => w.getLsbD i) heq
    have hmask := congrArg (fun w : Word => w.getLsbD i) hapart
    simp only [BitVec.getLsbD_or, BitVec.getLsbD_and, BitVec.getLsbD_not, BitVec.getLsbD_zero,
      hi, decide_true, Bool.true_and] at hbit hmask ⊢
    -- the masks have no bit in common
    cases hf : flags.getLsbD i <;> cases hh : highBits.getLsbD i <;> simp_all
  · intro hzero
    refine BitVec.eq_of_getLsbD_eq fun i hi => ?_
    have hbit := congrArg (fun w : Word => w.getLsbD i) hzero
    simp only [BitVec.getLsbD_or, BitVec.getLsbD_and, BitVec.getLsbD_not, BitVec.getLsbD_zero,
      hi, decide_true, Bool.true_and] at hbit ⊢
    cases hf : flags.getLsbD i <;> cases hh : highBits.getLsbD i <;> simp_all

theorem present_bit (i : Nat) : AEGIS_PTE_PRESENT.getLsbD i = decide (i = 0) := by
  show (1#64).getLsbD i = _
  simp

/-- PRESENT is bit 0; setting it where it is set changes nothing. -/
theorem or_present (h : flags &&& AEGIS_PTE_PRESENT ≠ 0#64) :
    flags ||| AEGIS_PTE_PRESENT = flags := by
  have hbit : flags.getLsbD 0 = true := by
    by_contra hnot
    refine h (BitVec.eq_of_getLsbD_eq fun i _ => ?_)
    rw [BitVec.getLsbD_and, present_bit]
    by_cases hi : i = 0
    · subst hi
      simpa using hnot
    · simp [hi]
  refine BitVec.eq_of_getLsbD_eq fun i _ => ?_
  rw [BitVec.getLsbD_or, present_bit]
  by_cases hi : i = 0
  · subst hi
    simp [hbit]
  · simp [hi]

/-- The word `mm_page_map` stores for a frame and flags that contain PRESENT. -/
theorem mmPageMap_stores {m : State} {v : Word} (old : Word)
    (hflags : flags &&& AEGIS_PTE_PRESENT ≠ 0#64)
    (hcode : (mmPageMap m pt v (old &&& frameMask) flags).1 = 0) :
    (mmPageMap m pt v (old &&& frameMask) flags).2.entry pt (ptIdx v) =
      old &&& frameMask ||| flags := by
  have hframe : frameMask &&& ~~~0xFFF#64 = frameMask := by decide
  unfold mmPageMap at hcode ⊢
  dsimp only at hcode ⊢
  split at hcode
  · exact absurd (show (-1 : Int) = 0 from hcode) (by decide)
  · rename_i hne
    rw [if_neg hne, Table.setEntry_self, BitVec.and_assoc, hframe, BitVec.or_assoc,
      or_present hflags]

end Protect

/-- **Replacing the flags.** On a present entry, `mm_page_protect` leaves exactly
the frame and the new flags if and only if the new flags contain every bit from
52 to 63 that the entry has. -/
theorem protect_exact_iff (s : State) (pt vaddr flags : Word)
    (hwalk : (mmPageWalk s pt vaddr false).1 ≠ 0#64)
    (hentry : s.mem (mmPageWalk s pt vaddr false).1 &&& AEGIS_PTE_PRESENT ≠ 0#64)
    (hpresent : flags &&& AEGIS_PTE_PRESENT ≠ 0#64) :
    FlagsReplaced s pt vaddr flags ↔
      s.mem (mmPageWalk s pt vaddr false).1 &&& highBits &&& ~~~flags = 0#64 := by
  have hprotect := mmPageProtect_present flags hwalk hentry
  rw [← kept_bits_iff]
  constructor
  · intro h
    have hsame := h.entry
    rw [hprotect] at hsame
    have hword := congrFun (State.mk.inj hsame).2.2.2.2.2 (mmPageWalk s pt vaddr false).1
    rwa [Function.update_self, Function.update_self] at hword
  · intro hword
    refine ⟨by rw [hprotect], by rw [hprotect, hword], fun m pt' v hcode => ?_⟩
    exact mmPageMap_stores _ hpresent hcode

/-- The tables at `0x1000`, `0x2000`, `0x3000` and `0x4000` are chained by their first
entries; the second entry of the top-level one is the word given. -/
def oneChain (entry : Word) : State :=
  boot 0x200000#64 fun a =>
    if a = 0x1000#64 then 0x2007#64 else if a = 0x2000#64 then 0x3007#64
    else if a = 0x3000#64 then 0x4007#64 else if a = 0x1008#64 then entry else 0#64

/-- A writable page is made read-only. -/
theorem protect_exact_writable :
    FlagsReplaced (oneChain 0x5003#64) 0x1000#64 0x1000#64 AEGIS_PTE_PRESENT :=
  (protect_exact_iff (oneChain 0x5003#64) 0x1000#64 0x1000#64 AEGIS_PTE_PRESENT (by decide)
    (by decide) (by decide)).mpr (by decide)

/-- A page that is not executable, to be made executable: `mm_page_protect` returns
0, and the entry still has NX. -/
theorem nx_survives :
    let s := oneChain 0x8000000000005003#64
    let flags := AEGIS_PTE_PRESENT ||| AEGIS_PTE_WRITABLE
    (mmPageWalk s 0x1000#64 0x1000#64 false).1 = 0x1008#64 ∧
      s.mem 0x1008#64 &&& AEGIS_PTE_PRESENT ≠ 0#64 ∧
      (mmPageProtect s 0x1000#64 0x1000#64 flags).1 = 0 ∧
      (mmPageProtect s 0x1000#64 0x1000#64 flags).2.mem 0x1008#64 = 0x8000000000005003#64 ∧
      ¬ FlagsReplaced s 0x1000#64 0x1000#64 flags := by
  intro s flags
  refine ⟨by decide, by decide, by decide, by decide, fun h => ?_⟩
  have hword := congrArg (fun m : State => m.mem 0x1008#64) h.entry
  revert hword
  decide

end AegisKernel.Mm
