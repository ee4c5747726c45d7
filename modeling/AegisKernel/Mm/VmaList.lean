import AegisKernel.Library.Cells
import AegisKernel.Library.Runs
import AegisKernel.Mm.Heap

/-!
# Memory management — the list of virtual memory areas

`mm_vma_add` puts a new region in front of the list, `mm_vma_remove` walks the
list with a pointer to a pointer and unlinks the first region with the given
start, and `mm_vma_find` returns the first one that covers an address. So the
list is to be read as the live regions, newest first.

* `Regions` — that reading: the live regions as a list, and how much of the heap
  is in use. Its `step` is what the two calls are for.
* `Holds` — memory represents it: the chain from the list variable visits the
  regions in order, and each region is a block of the heap of its own.
* `removeLoop_spec`, `find_spec`, `Holds.add_accepted` — what each call does to it.
* `vma_list_newest` — over a run: the calls end, and answer for the newest live
  region.
-/

namespace AegisKernel.Mm

open Library

-- ---------------------------------------------------------------------------
-- The live regions
-- ---------------------------------------------------------------------------

/-- A region, and where its `vma_t` lies. -/
structure Region where
  node : Word
  start : Word
  stop : Word
  flags : Word
deriving DecidableEq, Repr

/-- The region contains the address. -/
def Region.Covers (r : Region) (addr : Word) : Prop := r.start ≤ addr ∧ addr < r.stop

instance (r : Region) (addr : Word) : Decidable (r.Covers addr) :=
  inferInstanceAs (Decidable (_ ∧ _))

/-- The live regions, newest first, and the part of `heap_area` in use. -/
structure Regions where
  heapArea : Word
  offset : Nat
  live : List Region

/-- A call that changes the list. -/
inductive VmaOp
  | add (start stop flags : Word)
  | remove (start : Word)

/-- The ranges that are added: not empty, whole pages, and a block of 32 bytes
still fits in the heap. -/
def Regions.Accepts (v : Regions) (start stop : Word) : Prop :=
  start < stop ∧ AEGIS_PAGE_SIZE.toNat ∣ start.toNat ∧ AEGIS_PAGE_SIZE.toNat ∣ stop.toNat ∧
    roundUp 8 v.offset + vmaSize.toNat ≤ KERNEL_HEAP_SIZE.toNat

instance (v : Regions) (start stop : Word) : Decidable (v.Accepts start stop) :=
  inferInstanceAs (Decidable (_ ∧ _ ∧ _ ∧ _))

/-- The region as it is added. -/
def Regions.next (v : Regions) (start stop flags : Word) : Region :=
  ⟨v.heapArea + BitVec.ofNat 64 (roundUp 8 v.offset), start, stop, flags⟩

def Regions.step (v : Regions) : VmaOp → Regions
  | .add start stop flags =>
    if v.Accepts start stop then
      { v with offset := roundUp 8 v.offset + vmaSize.toNat,
               live := v.next start stop flags :: v.live }
    else v
  | .remove start => { v with live := v.live.eraseP fun r => r.start = start }

/-- The address of the newest region that covers `addr`, NULL if none does. -/
def Regions.find (v : Regions) (addr : Word) : Word :=
  ((v.live.find? fun r => r.Covers addr).map Region.node).getD 0#64

/-- An empty list. -/
def Regions.empty (s : State) : Regions := ⟨s.heapArea, s.heapOffset.toNat, []⟩

-- ---------------------------------------------------------------------------
-- The list in memory
-- ---------------------------------------------------------------------------

/-- One call on the list kept in the variable at `list`. -/
def vmaStep (fuel : Nat) (list : Word) (s : State) : VmaOp → Option State
  | .add start stop flags => some (mmVmaAdd s list start stop flags).2
  | .remove start => mmVmaRemove fuel s list start

def vmaRun (fuel : Nat) (list : Word) (s : State) (ops : List VmaOp) : Option State :=
  ops.foldlM (vmaStep fuel list) s

/-- `heap_area` is an array in memory, and the list variable is not in the part of
it that is still free. -/
structure Placed (list : Word) (s : State) : Prop where
  pos : 0 < s.heapArea.toNat
  area : s.heapArea.toNat + KERNEL_HEAP_SIZE.toNat ≤ 2 ^ 64
  offset_le : s.heapOffset.toNat ≤ KERNEL_HEAP_SIZE.toNat
  list_off : list.toNat + 8 ≤ s.heapArea.toNat + s.heapOffset.toNat ∨
    s.heapArea.toNat + KERNEL_HEAP_SIZE.toNat ≤ list.toNat

/-- The `vma_t` of a region holds its range, and lies in the used part of the heap,
off the list variable. -/
structure Stored (list : Word) (s : State) (r : Region) : Prop where
  start : s.vmaStart r.node = r.start
  stop : s.vmaEnd r.node = r.stop
  flags : s.vmaFlags r.node = r.flags
  lower : s.heapArea.toNat ≤ r.node.toNat
  upper : r.node.toNat + vmaSize.toNat ≤ s.heapArea.toNat + s.heapOffset.toNat
  list_off : list.toNat + 8 ≤ r.node.toNat ∨ r.node.toNat + vmaSize.toNat ≤ list.toNat

/-- The list in the variable at `list` is the list of live regions. -/
structure Holds (list : Word) (s : State) (v : Regions) : Prop where
  placed : Placed list s
  heapArea : s.heapArea = v.heapArea
  offset : s.heapOffset.toNat = v.offset
  chain : CellChain 0#64 vmaLink s.mem list (v.live.map Region.node)
  stored : ∀ r ∈ v.live, Stored list s r
  -- the newer region has the higher block
  apart : v.live.Pairwise fun r r' => r'.node.toNat + vmaSize.toNat ≤ r.node.toNat

section Blocks

variable {s s' : State} {list : Word} {v : Regions} {r : Region} {start stop flags a : Word}

@[simp] theorem setWord_self (s : State) (a w : Word) : (s.setWord a w).mem a = w :=
  Function.update_self ..

theorem setWord_of_ne (s : State) {a b : Word} (w : Word) (h : b ≠ a) :
    (s.setWord a w).mem b = s.mem b := Function.update_of_ne h ..

theorem vmaSize_toNat : vmaSize.toNat = 32 := rfl

theorem mod_page_iff (a : Word) : a % AEGIS_PAGE_SIZE = 0#64 ↔ AEGIS_PAGE_SIZE.toNat ∣ a.toNat := by
  rw [← BitVec.toNat_inj, BitVec.toNat_umod, BitVec.toNat_ofNat, Nat.zero_mod,
    Nat.dvd_iff_mod_eq_zero]

/-- The words of a block of the heap do not wrap around memory. -/
theorem block_word {node : Word} (hp : Placed list s)
    (hup : node.toNat + vmaSize.toNat ≤ s.heapArea.toNat + KERNEL_HEAP_SIZE.toNat) {k : Nat}
    (hk : k < 32) : (node + BitVec.ofNat 64 k).toNat = node.toNat + k := by
  have harea := hp.area
  rw [vmaSize_toNat] at hup
  rw [BitVec.toNat_add, BitVec.toNat_ofNat]
  omega

theorem Stored.word (hp : Placed list s) (h : Stored list s r) {k : Nat} (hk : k < 32) :
    (r.node + BitVec.ofNat 64 k).toNat = r.node.toNat + k := by
  have hoff := hp.offset_le
  exact block_word hp (h.upper.trans (by omega)) hk

end Blocks

-- ---------------------------------------------------------------------------
-- Removing a region
-- ---------------------------------------------------------------------------

section Remove

variable {s s' : State} {list curr start : Word} {rest : List Region}

/-- The cells the loop may write, from `curr` on: `curr` and the links of the
regions. -/
def linkCells (curr : Word) (rest : List Region) : List Word :=
  curr :: rest.map fun r => vmaLink r.node

/-- What the loop leaves: the chain from `curr` without the first region that has
that start, and memory otherwise as it was. -/
structure Unlinked (s s' : State) (curr start : Word) (rest : List Region) : Prop where
  chain : CellChain 0#64 vmaLink s'.mem curr
    ((rest.eraseP fun r => r.start = start).map Region.node)
  frame : ∀ x, x ∉ linkCells curr rest → s'.mem x = s.mem x
  same : s' = { s with mem := s'.mem }

theorem removeLoop_spec (start : Word)
    (hchain : CellChain 0#64 vmaLink s.mem curr (rest.map Region.node))
    (hstart : ∀ r ∈ rest, s.vmaStart r.node = r.start) (hcells : (linkCells curr rest).Nodup)
    {fuel : Nat} (hfuel : rest.length < fuel) :
    ∃ s', removeLoop start fuel curr s = some s' ∧ Unlinked s s' curr start rest := by
  induction rest generalizing curr fuel with
  | nil =>
    obtain ⟨fuel, rfl⟩ : ∃ n, fuel = n + 1 := ⟨fuel - 1, by omega⟩
    have hend : s.mem curr = 0#64 := cellChain_nil_iff.mp hchain
    exact ⟨s, by simp [removeLoop, hend], hchain, fun _ _ => rfl, rfl⟩
  | cons r rest ih =>
    obtain ⟨fuel, rfl⟩ : ∃ n, fuel = n + 1 := ⟨fuel - 1, by omega⟩
    obtain ⟨hnode, hne, hrest⟩ := cellChain_cons_iff.mp hchain
    obtain ⟨hcurr, hcells'⟩ := List.nodup_cons.mp hcells
    rw [removeLoop, hnode, if_neg hne, hstart r (List.mem_cons_self ..)]
    by_cases hr : r.start = start
    · -- the region is unlinked here
      refine ⟨_, if_pos hr, ?_, fun x hx => ?_, rfl⟩
      · rw [List.eraseP_cons_of_pos (by simpa using hr)]
        refine hchain.skip (setWord_self ..) fun q hq => setWord_of_ne s _ fun hqc => hcurr ?_
        obtain ⟨r', hr', rfl⟩ := List.mem_map.mp hq
        rw [← hqc]
        exact List.mem_cons_of_mem _ (List.mem_map_of_mem hr')
      · exact setWord_of_ne s _ (List.ne_of_not_mem_cons hx)
    · -- the walk goes on from the link of this region
      rw [if_neg hr]
      obtain ⟨s', hloop, hchain', hframe, hsame⟩ := ih hrest
        (fun r' hr' => hstart r' (List.mem_cons_of_mem _ hr')) hcells'
        (Nat.lt_of_succ_lt_succ hfuel)
      refine ⟨s', hloop, ?_, fun x hx => hframe x fun hmem => hx (List.mem_cons_of_mem _ hmem),
        hsame⟩
      rw [List.eraseP_cons_of_neg (by simpa using hr), List.map_cons]
      exact cellChain_cons_iff.mpr ⟨(hframe curr hcurr).trans hnode, hne, hchain'⟩

/-- Without such a region, nothing happens. -/
theorem removeLoop_absent (hchain : CellChain 0#64 vmaLink s.mem curr (rest.map Region.node))
    (hstart : ∀ r ∈ rest, s.vmaStart r.node = r.start) (habsent : ∀ r ∈ rest, r.start ≠ start)
    {fuel : Nat} (hfuel : rest.length < fuel) : removeLoop start fuel curr s = some s := by
  induction rest generalizing curr fuel with
  | nil =>
    obtain ⟨fuel, rfl⟩ : ∃ n, fuel = n + 1 := ⟨fuel - 1, by omega⟩
    have hend : s.mem curr = 0#64 := cellChain_nil_iff.mp hchain
    simp [removeLoop, hend]
  | cons r rest ih =>
    obtain ⟨fuel, rfl⟩ : ∃ n, fuel = n + 1 := ⟨fuel - 1, by omega⟩
    obtain ⟨hnode, hne, hrest⟩ := cellChain_cons_iff.mp hchain
    rw [removeLoop, hnode, if_neg hne, hstart r (List.mem_cons_self ..),
      if_neg (habsent r (List.mem_cons_self ..))]
    exact ih hrest (fun r' hr' => hstart r' (List.mem_cons_of_mem _ hr'))
      (fun r' hr' => habsent r' (List.mem_cons_of_mem _ hr')) (Nat.lt_of_succ_lt_succ hfuel)

/-- The search stops at the first region that covers the address. -/
theorem find_spec (hchain : CellChain 0#64 vmaLink s.mem curr (rest.map Region.node))
    (hstored : ∀ r ∈ rest, Stored list s r) (addr : Word) {fuel : Nat}
    (hfuel : rest.length < fuel) :
    mmVmaFind fuel s (s.mem curr) addr =
      some (((rest.find? fun r => r.Covers addr).map Region.node).getD 0#64) := by
  induction rest generalizing curr fuel with
  | nil =>
    obtain ⟨fuel, rfl⟩ : ∃ n, fuel = n + 1 := ⟨fuel - 1, by omega⟩
    have hend : s.mem curr = 0#64 := cellChain_nil_iff.mp hchain
    simp [mmVmaFind, hend]
  | cons r rest ih =>
    obtain ⟨fuel, rfl⟩ : ∃ n, fuel = n + 1 := ⟨fuel - 1, by omega⟩
    obtain ⟨hnode, hne, hrest⟩ := cellChain_cons_iff.mp hchain
    have hr := hstored r (List.mem_cons_self ..)
    rw [mmVmaFind, hnode, if_neg hne, hr.start, hr.stop]
    by_cases hcovers : r.Covers addr
    · rw [List.find?_cons_of_pos (by simpa using hcovers)]
      exact if_pos hcovers
    · rw [List.find?_cons_of_neg (by simpa using hcovers)]
      refine (if_neg hcovers).trans ?_
      exact ih hrest (fun r' hr' => hstored r' (List.mem_cons_of_mem _ hr'))
        (Nat.lt_of_succ_lt_succ hfuel)

end Remove

-- ---------------------------------------------------------------------------
-- The calls
-- ---------------------------------------------------------------------------

section Calls

variable {s s' : State} {list start stop flags : Word} {v : Regions}

/-- What a region occupies does not change when the words of its `vma_t` do not. -/
theorem Stored.congr {r : Region} (h : Stored list s r) (harea : s'.heapArea = s.heapArea)
    (hoff : s.heapOffset.toNat ≤ s'.heapOffset.toNat) (h0 : s'.mem r.node = s.mem r.node)
    (h8 : s'.mem (r.node + 8#64) = s.mem (r.node + 8#64))
    (h16 : s'.mem (r.node + 16#64) = s.mem (r.node + 16#64)) : Stored list s' r := by
  refine ⟨h0.trans h.start, h8.trans h.stop, h16.trans h.flags, ?_, ?_, h.list_off⟩
  · rw [harea]
    exact h.lower
  · rw [harea]
    exact h.upper.trans (Nat.add_le_add_left hoff _)

/-- Two live regions are the same or have separate blocks. -/
theorem Holds.separate (h : Holds list s v) {r r' : Region} (hr : r ∈ v.live) (hr' : r' ∈ v.live) :
    r = r' ∨ r.node.toNat + 32 ≤ r'.node.toNat ∨ r'.node.toNat + 32 ≤ r.node.toNat := by
  refine List.Pairwise.forall_of_forall_of_flip (R := fun r r' : Region =>
    r = r' ∨ r.node.toNat + 32 ≤ r'.node.toNat ∨ r'.node.toNat + 32 ≤ r.node.toNat)
    (fun a _ => .inl rfl) (h.apart.imp fun hlt => .inr (.inr hlt))
    (h.apart.imp fun hlt => .inr (.inl hlt)) hr hr'

/-- The range and the flags of a region are not among the link cells. -/
theorem Holds.field_not_link (h : Holds list s v) {r : Region} (hr : r ∈ v.live) {k : Nat}
    (hk : k < 24) : r.node + BitVec.ofNat 64 k ∉ linkCells list v.live := by
  have hword := (h.stored r hr).word h.placed (show k < 32 by omega)
  have hlist := (h.stored r hr).list_off
  rw [vmaSize_toNat] at hlist
  intro hmem
  rcases List.mem_cons.mp hmem with heq | hmem
  · rw [heq] at hword
    omega
  · obtain ⟨r', hr', heq⟩ := List.mem_map.mp hmem
    have hlink := (h.stored r' hr').word h.placed (show 24 < 32 by omega)
    have hsame : (vmaLink r'.node).toNat = r.node.toNat + k := by rw [heq, hword]
    rw [vmaLink, hlink] at hsame
    rcases h.separate hr hr' with rfl | hlt | hlt
    · omega
    · omega
    · omega

theorem Holds.links_nodup (h : Holds list s v) : (linkCells list v.live).Nodup := by
  refine List.nodup_cons.mpr ⟨fun hmem => ?_, ?_⟩
  · obtain ⟨r, hr, heq⟩ := List.mem_map.mp hmem
    have hlink := (h.stored r hr).word h.placed (show 24 < 32 by omega)
    have hlist := (h.stored r hr).list_off
    have hsame : (vmaLink r.node).toNat = list.toNat := by rw [heq]
    rw [vmaSize_toNat] at hlist
    rw [vmaLink, hlink] at hsame
    omega
  · refine List.Pairwise.map _ (fun r r' hlt heq => ?_) h.apart
    have hadd : r.node = r'.node := by simpa [vmaLink] using heq
    rw [hadd, vmaSize_toNat] at hlt
    omega

/-- A removal takes the newest region with that start out of the list. -/
theorem Holds.remove (h : Holds list s v) (start : Word) {fuel : Nat}
    (hfuel : v.live.length < fuel) :
    ∃ s', mmVmaRemove fuel s list start = some s' ∧ Holds list s' (v.step (.remove start)) := by
  obtain ⟨s', hloop, hun⟩ := removeLoop_spec start h.chain
    (fun r hr => (h.stored r hr).start) h.links_nodup hfuel
  have harea : s'.heapArea = s.heapArea := by rw [hun.same]
  have hoff : s'.heapOffset = s.heapOffset := by rw [hun.same]
  have hsub : (v.live.eraseP fun r => r.start = start).Sublist v.live := List.eraseP_sublist
  have hp := h.placed
  refine ⟨s', hloop, ⟨?_, ?_, ?_, ?_⟩, harea.trans h.heapArea, ?_, hun.chain, fun r hr => ?_,
    h.apart.sublist hsub⟩
  · rw [harea]
    exact hp.pos
  · rw [harea]
    exact hp.area
  · rw [hoff]
    exact hp.offset_le
  · rw [harea, hoff]
    exact hp.list_off
  · rw [hoff]
    exact h.offset
  · have hmem := hsub.subset hr
    have h0 := hun.frame _ (h.field_not_link hmem (show 0 < 24 by omega))
    rw [BitVec.add_zero] at h0
    exact (h.stored r hmem).congr harea (by rw [hoff]) h0
      (hun.frame _ (h.field_not_link hmem (show 8 < 24 by omega)))
      (hun.frame _ (h.field_not_link hmem (show 16 < 24 by omega)))

/-- Without such a region the state is the same. -/
theorem Holds.remove_absent (h : Holds list s v) (habsent : ∀ r ∈ v.live, r.start ≠ start)
    {fuel : Nat} (hfuel : v.live.length < fuel) : mmVmaRemove fuel s list start = some s :=
  removeLoop_absent h.chain (fun r hr => (h.stored r hr).start) habsent hfuel

theorem Holds.find (h : Holds list s v) (addr : Word) {fuel : Nat} (hfuel : v.live.length < fuel) :
    mmVmaFind fuel s (s.mem list) addr = some (v.find addr) :=
  find_spec h.chain h.stored addr hfuel

/-- A range that is not accepted is refused, and nothing changes. -/
theorem Holds.add_refused (h : Holds list s v) (hno : ¬ v.Accepts start stop) (flags : Word) :
    mmVmaAdd s list start stop flags = (-1, s) := by
  unfold mmVmaAdd
  by_cases hargs : start ≥ stop ∨ start % AEGIS_PAGE_SIZE ≠ 0#64 ∨ stop % AEGIS_PAGE_SIZE ≠ 0#64
  · rw [if_pos hargs]
  · rw [if_neg hargs]
    -- the arguments are in order, so the heap is full
    obtain ⟨hlt, hstart, hstop⟩ : start < stop ∧ AEGIS_PAGE_SIZE.toNat ∣ start.toNat ∧
        AEGIS_PAGE_SIZE.toNat ∣ stop.toNat := by
      rw [not_or, not_or, not_not, not_not, mod_page_iff, mod_page_iff] at hargs
      exact ⟨BitVec.not_le.mp hargs.1, hargs.2⟩
    have hfull : ¬ roundUp 8 v.offset + vmaSize.toNat ≤ KERNEL_HEAP_SIZE.toNat := fun hfit =>
      hno ⟨hlt, hstart, hstop, hfit⟩
    have halign : PowerOfTwo 8#64 := ⟨3, rfl⟩
    rcases alloc_cases h.placed.offset_le vmaSize halign with ⟨-, hres⟩ | ⟨hfit, -⟩
    · rw [hres]
    · have hoff := h.placed.offset_le
      have hup := roundUp_le (a := 8) (n := v.offset)
      rw [h.offset, heapSize_toNat] at hoff
      rw [heapSize_toNat, vmaSize_toNat] at hfull
      rw [h.offset, heapSize_toNat, vmaSize_toNat, show (8#64).toNat = 8 from rfl] at hfit
      omega

/-- The words an addition leaves: a new `vma_t` with the range and the flags, linked
to what was the first region; memory otherwise as it was. -/
structure Added (s s' : State) (list node start stop flags : Word) : Prop where
  head : s'.mem list = node
  link : s'.mem (vmaLink node) = s.mem list
  start : s'.vmaStart node = start
  stop : s'.vmaEnd node = stop
  flags : s'.vmaFlags node = flags
  frame : ∀ x, x ≠ list → (∀ k < 32, x ≠ node + BitVec.ofNat 64 k) → s'.mem x = s.mem x

theorem added_of_writes {node : Word} (hlist : ∀ k < 32, node + BitVec.ofNat 64 k ≠ list)
    (hnode : ∀ j < 32, ∀ k < 32, j ≠ k → node + BitVec.ofNat 64 j ≠ node + BitVec.ofNat 64 k)
    (hmem : s'.mem = (((((s.setWord node start).setWord (node + 8#64) stop).setWord
      (node + 16#64) flags).setWord (vmaLink node) (s.mem list)).setWord list node).mem) :
    Added s s' list node start stop flags := by
  rw [vmaLink] at hmem
  have h0 : ∀ k < 32, k ≠ 0 → node ≠ node + BitVec.ofNat 64 k := fun k hk hk0 => by
    have h := hnode 0 (by omega) k hk hk0.symm
    rwa [BitVec.add_zero] at h
  have hlist0 : node ≠ list := by
    have h := hlist 0 (by omega)
    rwa [BitVec.add_zero] at h
  refine ⟨?_, ?_, ?_, ?_, ?_, fun x hx hxn => ?_⟩
  · rw [hmem, setWord_self]
  · rw [vmaLink, hmem, setWord_of_ne _ _ (hlist 24 (by omega)), setWord_self]
  · unfold State.vmaStart
    rw [hmem, setWord_of_ne _ _ hlist0, setWord_of_ne _ _ (h0 24 (by omega) (by omega)),
      setWord_of_ne _ _ (h0 16 (by omega) (by omega)),
      setWord_of_ne _ _ (h0 8 (by omega) (by omega)), setWord_self]
  · unfold State.vmaEnd
    rw [hmem, setWord_of_ne _ _ (hlist 8 (by omega)),
      setWord_of_ne _ _ (hnode 8 (by omega) 24 (by omega) (by omega)),
      setWord_of_ne _ _ (hnode 8 (by omega) 16 (by omega) (by omega)), setWord_self]
  · unfold State.vmaFlags
    rw [hmem, setWord_of_ne _ _ (hlist 16 (by omega)),
      setWord_of_ne _ _ (hnode 16 (by omega) 24 (by omega) (by omega)), setWord_self]
  · have hx0 := hxn 0 (by omega)
    rw [BitVec.add_zero] at hx0
    rw [hmem, setWord_of_ne _ _ hx, setWord_of_ne _ _ (hxn 24 (by omega)),
      setWord_of_ne _ _ (hxn 16 (by omega)), setWord_of_ne _ _ (hxn 8 (by omega)),
      setWord_of_ne _ _ hx0]

/-- Where the block of the next region lies. -/
structure NextBlock (list : Word) (s : State) (v : Regions) (node : Word) : Prop where
  node_eq : node = v.heapArea + BitVec.ofNat 64 (roundUp 8 v.offset)
  lower : s.heapArea.toNat + s.heapOffset.toNat ≤ node.toNat
  upper : node.toNat + 32 = s.heapArea.toNat + (roundUp 8 v.offset + 32)
  list_off : list.toNat + 8 ≤ node.toNat ∨ node.toNat + 32 ≤ list.toNat

theorem Holds.nextBlock (h : Holds list s v)
    (hfit : roundUp 8 v.offset + vmaSize.toNat ≤ KERNEL_HEAP_SIZE.toNat) :
    ∃ block, mmAlloc s vmaSize 8#64 = (some block, { s with heapOffset := block + vmaSize }) ∧
      (block + vmaSize).toNat = roundUp 8 v.offset + 32 ∧
      NextBlock list s v (s.heapArea + block) := by
  have hp := h.placed
  have harea := hp.area
  have hlist := hp.list_off
  have hle : v.offset ≤ roundUp 8 v.offset := le_roundUp (by omega)
  have halign : PowerOfTwo 8#64 := ⟨3, rfl⟩
  rw [heapSize_toNat] at harea hfit hlist
  rw [vmaSize_toNat] at hfit
  have hcases := alloc_cases hp.offset_le vmaSize halign
  rw [h.offset, show (8#64).toNat = 8 from rfl, vmaSize_toNat, heapSize_toNat] at hcases
  rw [h.offset] at hlist
  rcases hcases with ⟨hgt, -⟩ | ⟨-, block, hblock, hres, hstop⟩
  · omega
  · have hnode : (s.heapArea + block).toNat = s.heapArea.toNat + roundUp 8 v.offset := by
      rw [BitVec.toNat_add, hblock, Nat.mod_eq_of_lt (by omega)]
    have heq : block = BitVec.ofNat 64 (roundUp 8 v.offset) := by
      rw [← hblock, BitVec.ofNat_toNat, BitVec.setWidth_eq]
    refine ⟨block, hres, by omega, ⟨by rw [h.heapArea, heq], ?_, ?_, ?_⟩⟩
    · rw [h.offset]
      omega
    · omega
    · omega

theorem Holds.nextBlock_word {node : Word} (h : Holds list s v)
    (hfit : roundUp 8 v.offset + vmaSize.toNat ≤ KERNEL_HEAP_SIZE.toNat)
    (hblock : NextBlock list s v node) {k : Nat} (hk : k < 32) :
    (node + BitVec.ofNat 64 k).toNat = node.toNat + k := by
  have hupper := hblock.upper
  rw [vmaSize_toNat] at hfit
  exact block_word h.placed (by rw [vmaSize_toNat]; omega) hk

/-- The live regions end below the next block. -/
theorem Holds.below_nextBlock {node : Word} (h : Holds list s v)
    (hblock : NextBlock list s v node) : ∀ r ∈ v.live, r.node.toNat + 32 ≤ node.toNat := by
  intro r hr
  have hlower := hblock.lower
  have hup := (h.stored r hr).upper
  rw [vmaSize_toNat] at hup
  omega

/-- An accepted call writes the block first, and then the list variable. -/
theorem Holds.added (h : Holds list s v) (hok : v.Accepts start stop) (flags : Word) :
    ∃ s' node, mmVmaAdd s list start stop flags = (0, s') ∧ NextBlock list s v node ∧
      Added s s' list node start stop flags ∧ s'.heapArea = s.heapArea ∧
      s'.heapOffset.toNat = roundUp 8 v.offset + 32 := by
  obtain ⟨hlt, hstart, hstop, hfit⟩ := hok
  obtain ⟨block, halloc, hoff, hblock⟩ := h.nextBlock hfit
  have hlist := hblock.list_off
  have hargs : ¬ (start ≥ stop ∨ start % AEGIS_PAGE_SIZE ≠ 0#64 ∨
      stop % AEGIS_PAGE_SIZE ≠ 0#64) := by
    rw [not_or, not_or, not_not, not_not, mod_page_iff, mod_page_iff]
    exact ⟨BitVec.not_le.mpr hlt, hstart, hstop⟩
  set node := s.heapArea + block with hnode
  have hword : ∀ k < 32, (node + BitVec.ofNat 64 k).toNat = node.toNat + k :=
    fun k hk => h.nextBlock_word hfit hblock hk
  have hne_list : ∀ k < 32, node + BitVec.ofNat 64 k ≠ list := fun k hk heq => by
    have hk' := hword k hk
    rw [heq] at hk'
    omega
  have hne_node : ∀ j < 32, ∀ k < 32, j ≠ k →
      node + BitVec.ofNat 64 j ≠ node + BitVec.ofNat 64 k := fun j hj k hk hjk heq => by
    have hj' := hword j hj
    rw [heq, hword k hk] at hj'
    omega
  have hlist0 : list ≠ node := by
    have h0 := hne_list 0 (by omega)
    rw [BitVec.add_zero] at h0
    exact h0.symm
  have hres : mmVmaAdd s list start stop flags =
      (0, ((((({ s with heapOffset := block + vmaSize } : State).setWord node start).setWord
        (node + 8#64) stop).setWord (node + 16#64) flags).setWord
        (vmaLink node) (s.mem list)).setWord list node) := by
    unfold mmVmaAdd
    rw [if_neg hargs, halloc]
    dsimp only
    rw [setWord_of_ne _ _ (hne_list 16 (by omega)).symm,
      setWord_of_ne _ _ (hne_list 8 (by omega)).symm, setWord_of_ne _ _ hlist0]
  exact ⟨_, node, hres, hblock, added_of_writes hne_list hne_node rfl, rfl, hoff⟩

/-- The words of the live regions stay as they are. -/
theorem Holds.kept_of_added {node : Word} (h : Holds list s v)
    (hfit : roundUp 8 v.offset + vmaSize.toNat ≤ KERNEL_HEAP_SIZE.toNat)
    (hblock : NextBlock list s v node) (hadd : Added s s' list node start stop flags) :
    ∀ r ∈ v.live, ∀ k < 32, s'.mem (r.node + BitVec.ofNat 64 k) =
      s.mem (r.node + BitVec.ofNat 64 k) := by
  intro r hr k hk
  have hrword := (h.stored r hr).word h.placed hk
  have hrlist := (h.stored r hr).list_off
  have hrbelow := h.below_nextBlock hblock r hr
  rw [vmaSize_toNat] at hrlist
  refine hadd.frame _ (fun heq => ?_) fun j hj heq => ?_
  · rw [heq] at hrword
    omega
  · rw [heq, h.nextBlock_word hfit hblock hj] at hrword
    omega

/-- An accepted range becomes the newest region. -/
theorem Holds.add_accepted (h : Holds list s v) (hok : v.Accepts start stop) (flags : Word) :
    ∃ s', mmVmaAdd s list start stop flags = (0, s') ∧
      Holds list s' (v.step (.add start stop flags)) := by
  have hp := h.placed
  have hpos := hp.pos
  have harea := hp.area
  have hfit := hok.2.2.2
  obtain ⟨s', node, hres, hblock, hadd, harea', hoff'⟩ := h.added hok flags
  have hkept := h.kept_of_added hfit hblock hadd
  have hlower := hblock.lower
  have hupper := hblock.upper
  have hstep : v.step (.add start stop flags) =
      { v with offset := roundUp 8 v.offset + vmaSize.toNat,
               live := ⟨node, start, stop, flags⟩ :: v.live } := by
    rw [Regions.step, if_pos hok, Regions.next, hblock.node_eq]
  rw [heapSize_toNat] at harea hfit
  rw [vmaSize_toNat] at hfit
  refine ⟨s', hres, ?_⟩
  rw [hstep]
  refine ⟨⟨?_, ?_, ?_, ?_⟩, ?_, ?_, ?_, fun r hr => ?_, ?_⟩
  · rw [harea']
    exact hpos
  · rw [harea', heapSize_toNat]
    exact harea
  · rw [hoff', heapSize_toNat]
    exact hfit
  · have hlist' := hp.list_off
    have hlist := hblock.list_off
    rw [harea', hoff']
    omega
  · rw [harea']
    exact h.heapArea
  · rw [hoff', vmaSize_toNat]
  · have hne0 : node ≠ 0#64 := fun h0 => by
      rw [h0, BitVec.toNat_ofNat, Nat.zero_mod] at hlower
      omega
    exact h.chain.push hne0 hadd.head hadd.link fun q hq => by
      obtain ⟨r, hr, rfl⟩ := List.mem_map.mp hq
      exact hkept r hr 24 (by omega)
  · rcases List.mem_cons.mp hr with rfl | hr
    · refine ⟨hadd.start, hadd.stop, hadd.flags, ?_, ?_, ?_⟩
      · rw [harea']
        dsimp only
        omega
      · rw [harea', hoff', vmaSize_toNat]
        exact hupper.le
      · rw [vmaSize_toNat]
        exact hblock.list_off
    · have h0 := hkept r hr 0 (by omega)
      rw [BitVec.add_zero] at h0
      refine (h.stored r hr).congr harea' ?_ h0 (hkept r hr 8 (by omega))
        (hkept r hr 16 (by omega))
      have hoff := h.offset
      have hle : v.offset ≤ roundUp 8 v.offset := le_roundUp (by omega)
      omega
  · refine List.pairwise_cons.mpr ⟨fun r hr => ?_, h.apart⟩
    rw [vmaSize_toNat]
    exact h.below_nextBlock hblock r hr

end Calls

-- ---------------------------------------------------------------------------
-- Runs
-- ---------------------------------------------------------------------------

/-- What each call does to a list that holds the live regions `v`. -/
structure Answers (fuel : Nat) (list : Word) (s : State) (v : Regions) : Prop where
  add_iff : ∀ start stop flags,
    (mmVmaAdd s list start stop flags).1 = 0 ↔ v.Accepts start stop
  add_refused : ∀ start stop flags, (mmVmaAdd s list start stop flags).1 ≠ 0 →
    mmVmaAdd s list start stop flags = (-1, s)
  add_done : ∀ start stop flags, (mmVmaAdd s list start stop flags).1 = 0 →
    Holds list (mmVmaAdd s list start stop flags).2 (v.step (.add start stop flags))
  remove : ∀ start, ∃ s', mmVmaRemove fuel s list start = some s' ∧
    Holds list s' (v.step (.remove start))
  remove_absent : ∀ start, (∀ r ∈ v.live, r.start ≠ start) →
    mmVmaRemove fuel s list start = some s
  find : ∀ addr, mmVmaFind fuel s (s.mem list) addr = some (v.find addr)
  find_null : ∀ addr, v.find addr = 0#64 ↔ ∀ r ∈ v.live, ¬ r.Covers addr
  add_remove : ∀ start stop flags, (mmVmaAdd s list start stop flags).1 = 0 →
    ∃ s', mmVmaRemove fuel (mmVmaAdd s list start stop flags).2 list start = some s' ∧
      s'.mem list = s.mem list ∧
      Holds list s' { v.step (.add start stop flags) with live := v.live }

section Run

variable {s : State} {list : Word} {v : Regions} {fuel : Nat}

theorem holds_empty (hp : Placed list s) (hempty : s.mem list = 0#64) :
    Holds list s (.empty s) :=
  ⟨hp, rfl, rfl, cellChain_nil_iff.mpr hempty, fun _ hr => absurd hr List.not_mem_nil, .nil⟩

/-- One call on a list that holds `v` leaves it holding the next regions. -/
theorem Holds.step (h : Holds list s v) (hfuel : v.live.length < fuel) (op : VmaOp) :
    ∃ s', vmaStep fuel list s op = some s' ∧ Holds list s' (v.step op) := by
  cases op with
  | add start stop flags =>
    by_cases hok : v.Accepts start stop
    · obtain ⟨s', hres, hholds⟩ := h.add_accepted hok flags
      exact ⟨s', by rw [vmaStep, hres], hholds⟩
    · refine ⟨s, by rw [vmaStep, h.add_refused hok], ?_⟩
      rw [Regions.step, if_neg hok]
      exact h
  | remove start => exact h.remove start hfuel

theorem length_step (v : Regions) (op : VmaOp) :
    (v.step op).live.length ≤ v.live.length + 1 := by
  cases op with
  | add start stop flags =>
    rw [Regions.step]
    split
    · exact Nat.le_refl _
    · exact Nat.le_succ _
  | remove start => exact (List.eraseP_sublist.length_le).trans (Nat.le_succ _)

/-- A run ends, and the list holds the live regions. -/
theorem vmaRun_holds (h : Holds list s v) (ops : List VmaOp)
    (hfuel : v.live.length + ops.length < fuel) :
    ∃ s', vmaRun fuel list s ops = some s' ∧ Holds list s' (run Regions.step v ops) ∧
      (run Regions.step v ops).live.length ≤ v.live.length + ops.length := by
  induction ops generalizing s v with
  | nil => exact ⟨s, rfl, h, Nat.le_refl _⟩
  | cons op ops ih =>
    rw [List.length_cons] at hfuel ⊢
    have hlen := length_step v op
    obtain ⟨s₁, hstep, h₁⟩ := h.step (show v.live.length < fuel by omega) op
    obtain ⟨s', hrun, h', hlen'⟩ := ih h₁ (by omega)
    refine ⟨s', ?_, h', ?_⟩
    · rw [vmaRun, List.foldlM_cons, hstep]
      exact hrun
    · rw [run_cons]
      omega

theorem find_null_iff (h : Holds list s v) (addr : Word) :
    v.find addr = 0#64 ↔ ∀ r ∈ v.live, ¬ r.Covers addr := by
  unfold Regions.find
  cases hfind : v.live.find? fun r => r.Covers addr with
  | none =>
    rw [List.find?_eq_none] at hfind
    simpa using hfind
  | some r =>
    have hr := List.mem_of_find?_eq_some hfind
    have hcovers : r.Covers addr := by simpa using List.find?_some hfind
    -- a region is never at address 0
    have hne : r.node ≠ 0#64 := h.chain.ne_nil r.node (List.mem_map_of_mem hr)
    constructor
    · intro h0
      exact absurd h0 hne
    · intro hno
      exact absurd hcovers (hno r hr)

theorem Holds.answers (h : Holds list s v) (hfuel : v.live.length + 1 < fuel) :
    Answers fuel list s v := by
  have hadd : ∀ start stop flags,
      (mmVmaAdd s list start stop flags).1 = 0 ↔ v.Accepts start stop := by
    intro start stop flags
    by_cases hok : v.Accepts start stop
    · obtain ⟨s', hres, -⟩ := h.add_accepted hok flags
      simp [hres, hok]
    · simp [h.add_refused hok, hok]
  have hdone : ∀ start stop flags, (mmVmaAdd s list start stop flags).1 = 0 →
      Holds list (mmVmaAdd s list start stop flags).2 (v.step (.add start stop flags)) := by
    intro start stop flags h0
    obtain ⟨s', hres, hholds⟩ := h.add_accepted ((hadd start stop flags).mp h0) flags
    rw [hres]
    exact hholds
  refine ⟨hadd, fun start stop flags h0 => ?_, hdone, fun start => h.remove start (by omega),
    fun start habsent => h.remove_absent habsent (by omega), fun addr => h.find addr (by omega),
    find_null_iff h, fun start stop flags h0 => ?_⟩
  · exact h.add_refused (fun hok => h0 ((hadd start stop flags).mpr hok)) flags
  · -- the region just added is the first one with that start
    have hok := (hadd start stop flags).mp h0
    have hlive : (v.step (.add start stop flags)).live = v.next start stop flags :: v.live := by
      rw [Regions.step, if_pos hok]
    obtain ⟨s', hremove, hholds⟩ := (hdone start stop flags h0).remove start
      (show (v.step (.add start stop flags)).live.length < fuel by
        rw [hlive, List.length_cons]
        omega)
    have hback : (v.step (.add start stop flags)).step (.remove start) =
        { v.step (.add start stop flags) with live := v.live } := by
      rw [Regions.step.eq_2, hlive, List.eraseP_cons_of_pos (by simp [Regions.next])]
    rw [hback] at hholds
    refine ⟨s', hremove, ?_, hholds⟩
    rw [hholds.chain.first, h.chain.first]

end Run

/-- **The list answers with the newest live region.** From an empty list, every run
of `mm_vma_add` and `mm_vma_remove` ends, the list holds the live regions, newest
first, and each call after it answers for them. -/
theorem vma_list_newest {s : State} {list : Word} (hp : Placed list s)
    (hempty : s.mem list = 0#64) (ops : List VmaOp) {fuel : Nat} (hfuel : ops.length + 1 < fuel) :
    ∃ s', vmaRun fuel list s ops = some s' ∧ Holds list s' (run Regions.step (.empty s) ops) ∧
      Answers fuel list s' (run Regions.step (.empty s) ops) := by
  have hlive : (Regions.empty s).live.length = 0 := rfl
  obtain ⟨s', hrun, h, hlen⟩ := vmaRun_holds (holds_empty hp hempty) ops
    (show (Regions.empty s).live.length + ops.length < fuel by omega)
  exact ⟨s', hrun, h, h.answers (by omega)⟩

/-- Two regions with the same start, the second one removed again, and a look-up. -/
theorem vma_list_newest_removed :
    let s := boot 0x200000#64 fun _ => 0#64
    ∃ s', vmaRun 8 0x1000#64 s [.add 0x4000#64 0x8000#64 1#64, .add 0x4000#64 0x5000#64 2#64,
        .remove 0x4000#64] = some s' ∧
      mmVmaFind 8 s' (s'.mem 0x1000#64) 0x4800#64 = some 0x200000#64 := by
  intro s
  have hp : Placed 0x1000#64 s := ⟨by decide, by decide, by decide, .inl (by decide)⟩
  obtain ⟨s', hrun, -, hans⟩ := vma_list_newest hp rfl
    [.add 0x4000#64 0x8000#64 1#64, .add 0x4000#64 0x5000#64 2#64, .remove 0x4000#64]
    (show 4 < 8 by decide)
  refine ⟨s', hrun, ?_⟩
  rw [hans.find]
  decide

end AegisKernel.Mm
