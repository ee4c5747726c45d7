import AegisKernel.Library.Runs
import AegisKernel.Mm.Paging

/-!
# Memory management — the kernel's own page table

`mm_page_map` stores its entry in the top-level table. The first page that `mm_init`
maps is page 0, and its entry goes where the link to the tables just made was: from
then on entry 0 is present and leads to NULL.

* `DeadEnd` — such a table; no lookup through entry 0 gets anywhere.
* `init_spec` — what `mm_init` leaves behind.
* `kernel_table_fixed` — no call below 512 GiB succeeds on the kernel's table, and
  none changes anything.
-/

namespace AegisKernel.Mm

open Library

/-- A call on the kernel's page table. -/
inductive TableCall
  | map (vaddr paddr flags : Word)
  | unmap (vaddr : Word)
  | walk (vaddr : Word) (create : Bool)
  | protect (vaddr flags : Word)

def TableCall.vaddr : TableCall → Word
  | .map v _ _ => v
  | .unmap v => v
  | .walk v _ => v
  | .protect v _ => v

/-- The state after a call. -/
def TableCall.perform (s : State) : TableCall → State
  | .map v p flags => (mmPageMap s s.kernelPageTable v p flags).2
  | .unmap v => mmPageUnmap s s.kernelPageTable v
  | .walk v create => (mmPageWalk s s.kernelPageTable v create).2
  | .protect v flags => (mmPageProtect s s.kernelPageTable v flags).2

/-- The call reports a failure: -1, or NULL. `mm_page_unmap` reports nothing. -/
def TableCall.Fails (s : State) : TableCall → Prop
  | .map v p flags => (mmPageMap s s.kernelPageTable v p flags).1 = -1
  | .unmap _ => True
  | .walk v create => (mmPageWalk s s.kernelPageTable v create).1 = 0#64
  | .protect v flags => (mmPageProtect s s.kernelPageTable v flags).1 = -1

/-- Entry 0 is present and has the address 0. -/
structure DeadEnd (s : State) (pt : Word) : Prop where
  present : s.entry pt 0#64 &&& AEGIS_PTE_PRESENT ≠ 0#64
  null : s.entry pt 0#64 &&& ~~~0xFFF#64 = 0#64

-- ---------------------------------------------------------------------------
-- Behind the dead end
-- ---------------------------------------------------------------------------

section Calls

variable {s : State} {pt v : Word}

theorem DeadEnd.lookup (h : DeadEnd s pt) (hv : pml4Idx v = 0#64) (create : Bool) :
    lookupTables s pt v create = (0#64, s) := by
  have hget : pageTableGetEntry s pt (pml4Idx v) create = (0#64, s) := by
    unfold pageTableGetEntry
    dsimp only
    rw [hv, if_pos h.present, h.null]
  unfold lookupTables
  rw [hget]
  exact if_pos rfl

theorem DeadEnd.map (h : DeadEnd s pt) (hv : pml4Idx v = 0#64) (p flags : Word) :
    mmPageMap s pt v p flags = (-1, s) := by
  unfold mmPageMap
  rw [h.lookup hv true]
  exact if_pos rfl

theorem DeadEnd.unmap (h : DeadEnd s pt) (hv : pml4Idx v = 0#64) : mmPageUnmap s pt v = s := by
  unfold mmPageUnmap
  rw [h.lookup hv false]
  exact if_pos rfl

theorem DeadEnd.walk (h : DeadEnd s pt) (hv : pml4Idx v = 0#64) (create : Bool) :
    mmPageWalk s pt v create = (0#64, s) := by
  unfold mmPageWalk
  rw [h.lookup hv create]
  exact if_pos rfl

theorem DeadEnd.protect (h : DeadEnd s pt) (hv : pml4Idx v = 0#64) (flags : Word) :
    mmPageProtect s pt v flags = (-1, s) := by
  unfold mmPageProtect
  rw [h.walk hv false]
  exact if_pos (.inl rfl)

/-- A call fails and changes nothing. -/
theorem DeadEnd.call (h : DeadEnd s s.kernelPageTable) {c : TableCall}
    (hc : pml4Idx c.vaddr = 0#64) : c.Fails s ∧ c.perform s = s := by
  cases c with
  | map v p flags =>
    have hmap := h.map (v := v) hc p flags
    exact ⟨congrArg Prod.fst hmap, congrArg Prod.snd hmap⟩
  | unmap v => exact ⟨trivial, h.unmap hc⟩
  | walk v create =>
    have hwalk := h.walk (v := v) hc create
    exact ⟨congrArg Prod.fst hwalk, congrArg Prod.snd hwalk⟩
  | protect v flags =>
    have hprotect := h.protect (v := v) hc flags
    exact ⟨congrArg Prod.fst hprotect, congrArg Prod.snd hprotect⟩

end Calls

/-- Addresses below 512 GiB. -/
theorem pml4Idx_low {v : Word} (hv : v.toNat < 2 ^ 39) : pml4Idx v = 0#64 := by
  have hshift : v >>> 39 = 0#64 := by
    refine BitVec.eq_of_toNat_eq ?_
    rw [BitVec.toNat_ushiftRight, Nat.shiftRight_eq_div_pow, Nat.div_eq_of_lt hv]
    rfl
  unfold pml4Idx
  rw [hshift]
  rfl

-- ---------------------------------------------------------------------------
-- The first page
-- ---------------------------------------------------------------------------

/-- `heap_area` as the boot image has it: not at 0, inside of memory, and cleared. -/
structure Cleared (heapArea : Word) (mem : Word → Word) : Prop where
  pos : 0 < heapArea.toNat
  fits : heapArea.toNat + 262144 ≤ 2 ^ 64
  zero : ∀ a : Word, heapArea.toNat ≤ a.toNat → a.toNat < heapArea.toNat + 262144 → mem a = 0#64

section First

variable {s : State} {t i o : Word}

/-- A page from a heap whose offset is a page boundary. -/
theorem pageTableAlloc_at (ho : s.heapOffset = o) (halign : alignUp o AEGIS_PAGE_SIZE = o)
    (hroom : ¬ o + AEGIS_PAGE_SIZE > KERNEL_HEAP_SIZE) :
    pageTableAlloc s = (s.heapArea + o, { s with heapOffset := o + AEGIS_PAGE_SIZE }) := by
  unfold pageTableAlloc mmAlloc
  dsimp only
  rw [ho, halign, if_neg hroom]

/-- A new table, linked at entry 0 of an empty one. -/
theorem pageTableGetEntry_first {o' : Word} (hempty : s.mem t = 0#64) (ho : s.heapOffset = o)
    (halign : alignUp o AEGIS_PAGE_SIZE = o) (hroom : ¬ o + AEGIS_PAGE_SIZE > KERNEL_HEAP_SIZE)
    (hnext : o + AEGIS_PAGE_SIZE = o') (hne : s.heapArea + o ≠ 0#64) :
    pageTableGetEntry s t 0#64 true = (s.heapArea + o,
      { s with heapOffset := o', mem := Function.update s.mem t (linkEntry (s.heapArea + o)) }) := by
  have hfirst : t + 8#64 * 0#64 = t := by simp
  unfold pageTableGetEntry State.entry State.setEntry
  dsimp only
  rw [hfirst, hempty, if_neg (by decide), if_neg (by decide), pageTableAlloc_at ho halign hroom,
    hnext]
  exact if_neg hne

/-- An address in the heap is not NULL, and holds zero. -/
theorem Cleared.inside {heapArea : Word} {mem : Word → Word} (h : Cleared heapArea mem)
    (ho : o.toNat < 262144) : heapArea + o ≠ 0#64 ∧ mem (heapArea + o) = 0#64 := by
  have hpos := h.pos
  have hfits := h.fits
  have hsum : (heapArea + o).toNat = heapArea.toNat + o.toNat := by
    rw [BitVec.toNat_add, Nat.mod_eq_of_lt (by omega)]
  refine ⟨fun hnull => ?_, h.zero _ (by omega) (by omega)⟩
  rw [hnull] at hsum
  have hsum : 0 = heapArea.toNat + o.toNat := hsum
  omega

/-- The lookup for page 0 links three new pages, each at the start of the one before. -/
theorem lookupTables_first (h : Cleared s.heapArea s.mem) (hoffset : s.heapOffset = 4096#64) :
    ∃ m, lookupTables s s.heapArea 0#64 true =
        (s.heapArea + 12288#64, { s with heapOffset := 16384#64, mem := m }) ∧
      ∀ a, a ≠ s.heapArea → a ≠ s.heapArea + 4096#64 → a ≠ s.heapArea + 8192#64 →
        m a = s.mem a := by
  obtain ⟨hne₁, hzero₁⟩ := h.inside (o := 4096#64) (by decide)
  obtain ⟨hne₂, hzero₂⟩ := h.inside (o := 8192#64) (by decide)
  have hne₃ := (h.inside (o := 12288#64) (by decide)).1
  obtain ⟨m₁, hm₁⟩ : ∃ m₁, m₁ = Function.update s.mem s.heapArea
    (linkEntry (s.heapArea + 4096#64)) := ⟨_, rfl⟩
  obtain ⟨m₂, hm₂⟩ : ∃ m₂, m₂ = Function.update m₁ (s.heapArea + 4096#64)
    (linkEntry (s.heapArea + 8192#64)) := ⟨_, rfl⟩
  obtain ⟨m₃, hm₃⟩ : ∃ m₃, m₃ = Function.update m₂ (s.heapArea + 8192#64)
    (linkEntry (s.heapArea + 12288#64)) := ⟨_, rfl⟩
  have hempty₀ : s.mem s.heapArea = 0#64 := h.zero _ (Nat.le_refl _) (by omega)
  have hempty₁ : m₁ (s.heapArea + 4096#64) = 0#64 := by
    rw [hm₁, Function.update_of_ne (by bv_omega), hzero₁]
  have hempty₂ : m₂ (s.heapArea + 8192#64) = 0#64 := by
    rw [hm₂, Function.update_of_ne (by bv_omega), hm₁, Function.update_of_ne (by bv_omega), hzero₂]
  have hget₁ : pageTableGetEntry s s.heapArea 0#64 true =
      (s.heapArea + 4096#64, { s with heapOffset := 8192#64, mem := m₁ }) := by
    rw [hm₁]
    exact pageTableGetEntry_first hempty₀ hoffset (by decide) (by decide) rfl hne₁
  have hget₂ : pageTableGetEntry { s with heapOffset := 8192#64, mem := m₁ }
      (s.heapArea + 4096#64) 0#64 true =
      (s.heapArea + 8192#64, { s with heapOffset := 12288#64, mem := m₂ }) := by
    rw [hm₂]
    exact pageTableGetEntry_first hempty₁ rfl (by decide) (by decide) rfl hne₂
  have hget₃ : pageTableGetEntry { s with heapOffset := 12288#64, mem := m₂ }
      (s.heapArea + 8192#64) 0#64 true =
      (s.heapArea + 12288#64, { s with heapOffset := 16384#64, mem := m₃ }) := by
    rw [hm₃]
    exact pageTableGetEntry_first hempty₂ rfl (by decide) (by decide) rfl hne₃
  refine ⟨m₃, ?_, fun a h₀ h₁ h₂ => ?_⟩
  · unfold lookupTables
    rw [show pml4Idx 0#64 = 0#64 from rfl, show pdptIdx 0#64 = 0#64 from rfl,
      show pdIdx 0#64 = 0#64 from rfl, hget₁]
    dsimp only
    rw [if_neg hne₁, hget₂]
    dsimp only
    rw [if_neg hne₂, hget₃]
  · rw [hm₃, Function.update_of_ne h₂, hm₂, Function.update_of_ne h₁, hm₁,
      Function.update_of_ne h₀]

end First

/-- Mapping page 0 takes three pages for its tables, and stores the entry over the
link to the first of them. -/
theorem first_map {heapArea : Word} {mem : Word → Word} (h : Cleared heapArea mem) (s : State)
    (harea : s.heapArea = heapArea) (hoffset : s.heapOffset = 4096#64) (hmem : s.mem = mem) :
    ∃ m, mmPageMap s heapArea 0#64 0#64 (AEGIS_PTE_FLAGS_DEFAULT ||| AEGIS_PTE_GLOBAL) =
        (0, { s with heapOffset := 16384#64, mem := m }) ∧
      m heapArea = 0x103#64 ∧
      ∀ a, a ≠ heapArea → a ≠ heapArea + 4096#64 → a ≠ heapArea + 8192#64 → m a = mem a := by
  subst harea
  subst hmem
  obtain ⟨m, hlookup, hother⟩ := lookupTables_first h hoffset
  have hindex : s.heapArea + 8#64 * ptIdx 0#64 = s.heapArea := by
    rw [show ptIdx 0#64 = 0#64 from rfl]
    simp
  refine ⟨Function.update m s.heapArea 0x103#64, ?_, Function.update_self _ _ _,
    fun a h₀ h₁ h₂ => ?_⟩
  · unfold mmPageMap
    rw [hlookup]
    dsimp only
    rw [if_neg (h.inside (by decide)).1]
    unfold State.setEntry
    rw [hindex]
    rfl
  · rw [Function.update_of_ne h₀, hother a h₀ h₁ h₂]

-- ---------------------------------------------------------------------------
-- The other pages
-- ---------------------------------------------------------------------------

/-- The calls of `mm_init` behind the first. -/
theorem DeadEnd.others {s : State} {pt : Word} (h : DeadEnd s pt) (flags : Word) {is : List Nat}
    (his : ∀ i ∈ is, i < 1024) :
    is.foldl (fun s i =>
      let addr := BitVec.ofNat 64 i * AEGIS_PAGE_SIZE
      (mmPageMap s pt addr addr flags).2) s = s := by
  induction is with
  | nil => rfl
  | cons i is ih =>
    have hi := his i (List.mem_cons_self ..)
    have hlow : pml4Idx (BitVec.ofNat 64 i * AEGIS_PAGE_SIZE) = 0#64 := by
      refine pml4Idx_low ?_
      rw [BitVec.toNat_mul, BitVec.toNat_ofNat, show AEGIS_PAGE_SIZE.toNat = 4096 from rfl,
        Nat.mod_eq_of_lt (by omega), Nat.mod_eq_of_lt (by omega)]
      omega
    rw [List.foldl_cons]
    dsimp only
    rw [h.map hlow]
    exact ih fun j hj => his j (List.mem_cons_of_mem _ hj)

/-- What `mm_init` leaves behind. -/
structure BootTable (heapArea : Word) (s : State) : Prop where
  kernel : s.kernelPageTable = heapArea
  current : s.currentPageTable = heapArea
  -- four pages are in use
  offset : s.heapOffset = 16384#64
  entry : s.entry heapArea 0#64 = 0x103#64
  empty : ∀ i, Index i → i ≠ 0#64 → s.entry heapArea i = 0#64

/-- `mm_init` takes four pages, and writes to the first word of three of them only. -/
theorem mmInit_eq {heapArea : Word} {mem : Word → Word} (h : Cleared heapArea mem) :
    ∃ m, mmInit (boot heapArea mem) =
        { boot heapArea mem with
          heapOffset := 16384#64, kernelPageTable := heapArea, currentPageTable := heapArea,
          mem := m } ∧
      m heapArea = 0x103#64 ∧
      ∀ a, a ≠ heapArea → a ≠ heapArea + 4096#64 → a ≠ heapArea + 8192#64 → m a = mem a := by
  have hpos := h.pos
  have hne : heapArea ≠ 0#64 := by
    rintro rfl
    exact absurd hpos (by decide)
  obtain ⟨s₂, hs₂⟩ : ∃ s₂, s₂ = { boot heapArea mem with
    heapOffset := 4096#64, kernelPageTable := heapArea } := ⟨_, rfl⟩
  have halloc : pageTableAlloc { boot heapArea mem with heapOffset := 0#64 } =
      (heapArea, { boot heapArea mem with heapOffset := 4096#64 }) := by
    rw [pageTableAlloc_at (o := 0#64) rfl (by decide) (by decide)]
    exact congrArg (fun a => (a, _)) (BitVec.add_zero heapArea)
  obtain ⟨m, hmap, hentry, hother⟩ := first_map h s₂ (by rw [hs₂]; rfl) (by rw [hs₂])
    (by rw [hs₂]; rfl)
  have hzero : (0#64 : Word) * AEGIS_PAGE_SIZE = 0#64 := by decide
  have hindex : heapArea + 8#64 * 0#64 = heapArea := by simp
  have hdead : DeadEnd { s₂ with heapOffset := 16384#64, mem := m } heapArea := by
    refine ⟨?_, ?_⟩
    · show m (heapArea + 8#64 * 0#64) &&& AEGIS_PTE_PRESENT ≠ 0#64
      rw [hindex, hentry]
      decide
    · show m (heapArea + 8#64 * 0#64) &&& ~~~0xFFF#64 = 0#64
      rw [hindex, hentry]
      decide
  have hloop : (List.range 1024).foldl (fun s i =>
      let addr := BitVec.ofNat 64 i * AEGIS_PAGE_SIZE
      (mmPageMap s heapArea addr addr (AEGIS_PTE_FLAGS_DEFAULT ||| AEGIS_PTE_GLOBAL)).2) s₂ =
        { s₂ with heapOffset := 16384#64, mem := m } := by
    rw [List.range_succ_eq_map, List.foldl_cons]
    dsimp only
    rw [hzero, hmap]
    refine hdead.others _ fun i hi => ?_
    obtain ⟨j, hj, rfl⟩ := List.mem_map.mp hi
    have hj := List.mem_range.mp hj
    omega
  refine ⟨m, ?_, hentry, hother⟩
  unfold mmInit
  rw [halloc]
  dsimp only
  rw [if_neg hne, ← hs₂, hloop, hs₂]

theorem init_spec {heapArea : Word} {mem : Word → Word} (h : Cleared heapArea mem) :
    BootTable heapArea (mmInit (boot heapArea mem)) := by
  have hfits := h.fits
  obtain ⟨m, hinit, hentry, hother⟩ := mmInit_eq h
  have hindex : heapArea + 8#64 * 0#64 = heapArea := by simp
  rw [hinit]
  refine ⟨rfl, rfl, rfl, ?_, fun i hi hnonzero => ?_⟩
  · show m (heapArea + 8#64 * 0#64) = 0x103#64
    rw [hindex, hentry]
  · show m (heapArea + 8#64 * i) = 0#64
    unfold Index at hi
    -- inside of the first page, behind entry 0
    have haddr : (heapArea + 8#64 * i).toNat = heapArea.toNat + 8 * i.toNat := by
      rw [BitVec.toNat_add, BitVec.toNat_mul, show (8#64).toNat = 8 from rfl,
        Nat.mod_eq_of_lt (a := 8 * i.toNat) (by omega), Nat.mod_eq_of_lt (by omega)]
    have hi₀ : i.toNat ≠ 0 := fun hi₀ => hnonzero (BitVec.eq_of_toNat_eq hi₀)
    rw [hother _ (by bv_omega) (by bv_omega) (by bv_omega)]
    exact h.zero _ (by omega) (by omega)

/-- The heap behind it is still zero, so that further tables can be created. -/
theorem heapZero_init {heapArea : Word} {mem : Word → Word} (h : Cleared heapArea mem)
    (halign : heapArea.toNat % 4096 = 0) (hlow : heapArea.toNat + 262144 ≤ 2 ^ 52) :
    HeapZero (mmInit (boot heapArea mem)) := by
  obtain ⟨m, hinit, -, hother⟩ := mmInit_eq h
  rw [hinit]
  have hused : (16384#64 : Word).toNat ≤ KERNEL_HEAP_SIZE.toNat := by decide
  refine ⟨halign, h.pos, hlow, hused, fun a ha ha' => ?_⟩
  have ha : heapArea.toNat + 16384 ≤ a.toNat := ha
  have ha' : a.toNat < heapArea.toNat + 262144 := ha'
  change m a = 0#64
  rw [hother a (by bv_omega) (by bv_omega) (by bv_omega)]
  exact h.zero a (by omega) ha'

/-- **The kernel's page table.** Wherever the linker puts `heap_area` and whatever else
is in memory: after `mm_init` entry 0 of the kernel's table is `0x103` and the others
are empty, and in every run of calls on that table whose addresses have the top-level
index 0 (all below 512 GiB) every call fails and nothing ever changes. -/
theorem kernel_table_fixed (heapArea : Word) (mem : Word → Word) (h : Cleared heapArea mem)
    (calls : List TableCall) (hlow : ∀ c ∈ calls, pml4Idx c.vaddr = 0#64) :
    BootTable heapArea (mmInit (boot heapArea mem)) ∧
      Meets TableCall.perform TableCall.Fails (mmInit (boot heapArea mem)) calls ∧
      run TableCall.perform (mmInit (boot heapArea mem)) calls = mmInit (boot heapArea mem) := by
  have htable := init_spec h
  generalize mmInit (boot heapArea mem) = s at htable ⊢
  refine ⟨htable, ?_⟩
  have hdead : DeadEnd s s.kernelPageTable := by
    rw [htable.kernel]
    refine ⟨?_, ?_⟩
    · rw [htable.entry]
      decide
    · rw [htable.entry]
      decide
  induction calls with
  | nil => exact ⟨trivial, rfl⟩
  | cons c calls ih =>
    obtain ⟨hfails, hsame⟩ := hdead.call (hlow c (List.mem_cons_self ..))
    obtain ⟨hmeets, hrun⟩ := ih fun c' hc' => hlow c' (List.mem_cons_of_mem _ hc')
    rw [run_cons, hsame]
    refine ⟨⟨hfails, ?_⟩, hrun⟩
    rw [hsame]
    exact hmeets

/-- Mapping the second page once more, and looking it up. -/
theorem kernel_table_fixed_second_page :
    BootTable 0x200000#64 (mmInit (boot 0x200000#64 fun _ => 0#64)) ∧
      Meets TableCall.perform TableCall.Fails (mmInit (boot 0x200000#64 fun _ => 0#64))
        [.map 0x1000#64 0x1000#64 AEGIS_PTE_FLAGS_DEFAULT, .walk 0x1000#64 true] ∧
      run TableCall.perform (mmInit (boot 0x200000#64 fun _ => 0#64))
        [.map 0x1000#64 0x1000#64 AEGIS_PTE_FLAGS_DEFAULT, .walk 0x1000#64 true] =
          mmInit (boot 0x200000#64 fun _ => 0#64) := by
  refine kernel_table_fixed _ _ ⟨by decide, by decide, fun _ _ _ => rfl⟩ _ fun c hc => ?_
  rcases List.mem_cons.mp hc with rfl | hc
  · rfl
  · rw [List.mem_singleton.mp hc]
    rfl

end AegisKernel.Mm
