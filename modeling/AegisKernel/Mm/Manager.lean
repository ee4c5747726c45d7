import AegisKernel.Mm.VmaList
import AegisKernel.Mm.AddressSpaces

/-!
# Memory management — page tables and regions on one heap

The tables of `mm_page_map` and the `vma_t`s of `mm_vma_add` come from the same
`heap_area`, and both are written through pointers into it. In a run that mixes calls
of both kinds in any order, neither is damaged by the other: what they share is how
much of the heap is in use.

* `Manager` — the live regions, the page tables as spaces, and that one number.
* `Manages` — memory represents a manager: the regions and the tables, each as in a run
  of its own, on blocks of the heap that do not meet.
* `Holds.call` — the calls on the list, with what they write.
* `Manages.table`, `Manages.region` — each kind of call keeps what the other built.
* `memory_manager_refines` — every answer of a run is the one of the manager.
-/

namespace AegisKernel.Mm

open Library

-- ---------------------------------------------------------------------------
-- The calls
-- ---------------------------------------------------------------------------

/-- A call on the page tables, one that changes the list of regions, or a search in it. -/
inductive MmOp
  | table (op : TableOp)
  | region (op : VmaOp)
  | find (addr : Word)

/-- What a caller is told; `area` is the range and the flags of the `vma_t` that
`mm_vma_find` returns. -/
inductive MmResult
  | table (r : Option Result)
  | added (code : Int)
  | removed
  | area (r : Option (Word × Word × Word))
deriving DecidableEq

/-- `*vma`, unless that is NULL. -/
def State.readVma (s : State) (vma : Word) : Option (Word × Word × Word) :=
  if vma = 0#64 then none else some (s.vmaStart vma, s.vmaEnd vma, s.vmaFlags vma)

/-- One call; the list of regions is in the variable at `list`. -/
def Client.call (fuel : Nat) (list : Word) (t : Client) : MmOp → Option (MmResult × Client)
  | .table op =>
    let (r, t') := t.serve op
    some (.table r, t')
  | .region (.add start stop flags) =>
    let (code, s) := mmVmaAdd t.state list start stop flags
    some (.added code, { t with state := s })
  | .region (.remove start) => do
    let s ← mmVmaRemove fuel t.state list start
    some (.removed, { t with state := s })
  | .find addr => do
    let vma ← mmVmaFind fuel t.state (t.state.mem list) addr
    some (.area (t.state.readVma vma), t)

/-- The calls of a run with their answers, and the end of it. -/
def Client.callAll (fuel : Nat) (list : Word) (t : Client) :
    List MmOp → Option (List (MmOp × MmResult) × Client)
  | [] => some ([], t)
  | op :: ops => do
    let (r, t') ← t.call fuel list op
    let (rs, t'') ← t'.callAll fuel list ops
    some ((op, r) :: rs, t'')

/-- The calls on page tables. -/
def tableOps (ops : List MmOp) : List TableOp :=
  ops.filterMap fun op =>
    match op with
    | .table op => some op
    | _ => none

-- ---------------------------------------------------------------------------
-- The manager
-- ---------------------------------------------------------------------------

/-- The regions and the page tables; how much of the heap is in use is kept with the
regions. -/
structure Manager where
  regions : Regions
  spaces : List Space

/-- The pages that the rest of the heap has room for. -/
def Manager.left (m : Manager) : Nat := 64 - (m.regions.offset + 4095) / 4096

def Manager.tables (m : Manager) : Spaces := ⟨m.left, m.spaces⟩

/-- With other page tables, the pages they have taken being in use. -/
def Manager.withTables (m : Manager) (a : Spaces) : Manager :=
  ⟨{ m.regions with offset := withPages m.regions.offset (m.left - a.left) }, a.spaces⟩

def Manager.serve (m : Manager) : MmOp → MmResult × Manager
  | .table op => (.table (m.tables.answer op), m.withTables (m.tables.step op))
  | .region (.add start stop flags) =>
    (.added (if m.regions.Accepts start stop then 0 else -1),
      { m with regions := m.regions.step (.add start stop flags) })
  | .region (.remove start) => (.removed, { m with regions := m.regions.step (.remove start) })
  | .find addr =>
    (.area ((m.regions.live.find? fun r => r.Covers addr).map fun r => (r.start, r.stop, r.flags)),
      m)

def Manager.step (m : Manager) (op : MmOp) : Manager := (m.serve op).2

def Manager.answer (m : Manager) (op : MmOp) : MmResult := (m.serve op).1

/-- The calls of a run with their answers. -/
def Manager.callAll (m : Manager) (ops : List MmOp) : List (MmOp × MmResult) :=
  outputs Manager.step (fun m op => some (op, m.answer op)) m ops

def Manager.start (s : State) : Manager := ⟨.empty s, []⟩

-- ---------------------------------------------------------------------------
-- What the calls on the list write
-- ---------------------------------------------------------------------------

/-- Only the list variable, the `vma_t`s and a block that was free have changed. -/
structure ListFrame (list : Word) (v : Regions) (s s' : State) : Prop where
  area : s'.heapArea = s.heapArea
  offset : s.heapOffset.toNat ≤ s'.heapOffset.toNat
  mem : ∀ x : Word, x ≠ list → (∀ r ∈ v.live, ∀ k < 32, x ≠ r.node + BitVec.ofNat 64 k) →
    x.toNat < s.heapArea.toNat + s.heapOffset.toNat ∨
      s'.heapArea.toNat + s'.heapOffset.toNat ≤ x.toNat →
    s'.mem x = s.mem x

section List

variable {s : State} {list start stop flags : Word} {v : Regions}

theorem listFrame_refl (list : Word) (v : Regions) (s : State) : ListFrame list v s s :=
  ⟨rfl, Nat.le_refl _, fun _ _ _ _ => rfl⟩

theorem Holds.add_frame (h : Holds list s v) (start stop flags : Word) :
    ∃ s', mmVmaAdd s list start stop flags = (if v.Accepts start stop then 0 else -1, s') ∧
      Holds list s' (v.step (.add start stop flags)) ∧ ListFrame list v s s' ∧
      ∀ r ∈ (v.step (.add start stop flags)).live, r ∈ v.live ∨
        s.heapArea.toNat + s.heapOffset.toNat ≤ r.node.toNat := by
  by_cases hok : v.Accepts start stop
  · obtain ⟨s', hres, hholds⟩ := h.add_accepted hok flags
    obtain ⟨s'', node, hres', hblock, hadd, harea, hoff⟩ := h.added hok flags
    obtain rfl : s' = s'' := congrArg Prod.snd (hres.symm.trans hres')
    have hlower := hblock.lower
    have hupper := hblock.upper
    have hoffset := h.offset
    refine ⟨s', by rw [hres, if_pos hok], hholds, ⟨harea, by omega, fun x hlist hnodes hx => ?_⟩,
      fun r hr => ?_⟩
    · refine hadd.frame x hlist fun k hk heq => ?_
      have hword := h.nextBlock_word hok.2.2.2 hblock hk
      rw [← heq] at hword
      rw [harea] at hx
      omega
    · rw [Regions.step, if_pos hok] at hr
      rcases List.mem_cons.mp hr with rfl | hr
      · rw [hblock.node_eq] at hlower
        exact .inr hlower
      · exact .inl hr
  · have hstep : v.step (.add start stop flags) = v := if_neg hok
    rw [hstep]
    exact ⟨s, by rw [h.add_refused hok, if_neg hok], h, listFrame_refl list v s,
      fun r hr => .inl hr⟩

theorem Holds.remove_frame (h : Holds list s v) (start : Word) {fuel : Nat}
    (hfuel : v.live.length < fuel) :
    ∃ s', mmVmaRemove fuel s list start = some s' ∧ Holds list s' (v.step (.remove start)) ∧
      ListFrame list v s s' := by
  obtain ⟨s', hres, hholds⟩ := h.remove start hfuel
  obtain ⟨s'', hloop, hun⟩ := removeLoop_spec start h.chain
    (fun r hr => (h.stored r hr).start) h.links_nodup hfuel
  obtain rfl : s' = s'' := Option.some.inj (hres.symm.trans hloop)
  refine ⟨s', hres, hholds, by rw [hun.same], by rw [hun.same], fun x hlist hnodes _ => ?_⟩
  refine hun.frame x fun hmem => ?_
  rcases List.mem_cons.mp hmem with heq | hmem
  · exact hlist heq
  · obtain ⟨r, hr, heq⟩ := List.mem_map.mp hmem
    exact hnodes r hr 24 (by omega) heq.symm

/-- The `vma_t` that the search returns is the one of the newest region. -/
theorem Holds.find_area (h : Holds list s v) (addr : Word) {fuel : Nat}
    (hfuel : v.live.length < fuel) :
    ∃ vma, mmVmaFind fuel s (s.mem list) addr = some vma ∧ s.readVma vma =
      (v.live.find? fun r => r.Covers addr).map fun r => (r.start, r.stop, r.flags) := by
  refine ⟨v.find addr, h.find addr hfuel, ?_⟩
  unfold State.readVma Regions.find
  cases hfind : v.live.find? fun r => r.Covers addr with
  | none => exact if_pos rfl
  | some r =>
    have hr := List.mem_of_find?_eq_some hfind
    have hstored := h.stored r hr
    have hne : r.node ≠ 0#64 := h.chain.ne_nil r.node (List.mem_map_of_mem hr)
    rw [Option.map_some, Option.getD_some, if_neg hne, hstored.start, hstored.stop, hstored.flags]
    rfl

end List

-- ---------------------------------------------------------------------------
-- The manager in memory
-- ---------------------------------------------------------------------------

/-- The list variable lies outside of the heap. -/
def OffHeap (list heapArea : Word) : Prop :=
  list.toNat + 8 ≤ heapArea.toNat ∨ heapArea.toNat + KERNEL_HEAP_SIZE.toNat ≤ list.toNat

/-- Memory represents the manager. -/
structure Manages (D : Nat → Word → Prop) (list : Word) (t : Client) (m : Manager) : Prop where
  shows : Shows D t t m.tables
  holds : Holds list t.state m.regions
  off : OffHeap list t.state.heapArea
  -- no `vma_t` lies in a page of a table
  apart : ∀ k is u, Key D k is → t.node k is = some u → ∀ r ∈ m.regions.live,
    u.toNat + 4096 ≤ r.node.toNat ∨ r.node.toNat + vmaSize.toNat ≤ u.toNat

section Manages

variable {D : Nat → Word → Prop} {list : Word} {t : Client} {m : Manager}

/-- A word of a table is none of the list's. -/
theorem Manages.tableWord (h : Manages D list t m) {x : Word} (hx : TableWord D t x) :
    x ≠ list ∧ (∀ r ∈ m.regions.live, ∀ k < 32, x ≠ r.node + BitVec.ofNat 64 k) ∧
      x.toNat < t.state.heapArea.toNat + t.state.heapOffset.toNat := by
  obtain ⟨k, is, u, j, hk, hu, hj, rfl⟩ := hx
  have htable := h.shows.forest.closed k is u hk hu
  have haddr := htable.entry_toNat h.shows.heap hj
  have hlower := htable.lower
  have hupper := htable.upper
  have hle := h.shows.heap.offset_le
  have hoff := h.off
  unfold OffHeap at hoff
  unfold Index at hj
  refine ⟨fun heq => ?_, fun r hr n hn heq => ?_, by omega⟩
  · rw [heq] at haddr
    omega
  · have hword := (h.holds.stored r hr).word h.holds.placed hn
    have hapart := h.apart k is u hk hu r hr
    rw [← heq] at hword
    rw [vmaSize_toNat] at hapart
    omega

/-- The tables are where they were. -/
theorem Manages.node_eq (h : Manages D list t m) {s' : State}
    (hframe : ListFrame list m.regions t.state s') {k : Nat} {is : List Word} (hk : Key D k is) :
    Client.node { t with state := s' } k is = t.node k is := by
  refine node_congr (fun k is i hk => hk.initial) (fun k is i u hk hu => ?_) hk
  obtain ⟨hlist, hnodes, hlt⟩ := h.tableWord ⟨k, is, u, i, hk.initial, hu, hk.last, rfl⟩
  exact child_congr (hframe.mem _ hlist hnodes (.inl hlt))

/-- The rest of the heap is still zero. -/
theorem Manages.heapZero (h : Manages D list t m) {s' : State} {v : Regions}
    (hholds : Holds list s' v) (hframe : ListFrame list m.regions t.state s') : HeapZero s' := by
  have hheap := h.shows.heap
  have harea := hframe.area
  have hle := hframe.offset
  refine ⟨?_, ?_, ?_, hholds.placed.offset_le, fun x hx hx' => ?_⟩
  · rw [harea]
    exact hheap.aligned
  · rw [harea]
    exact hheap.pos
  · rw [harea]
    exact hheap.low
  · have hoff := h.off
    unfold OffHeap at hoff
    have hsame : s'.mem x = t.state.mem x := by
      refine hframe.mem x (fun heq => ?_) (fun r hr n hn heq => ?_) (.inr hx)
      · rw [heq, harea] at hx hx'
        omega
      · have hword := (h.holds.stored r hr).word h.holds.placed hn
        have hupper := (h.holds.stored r hr).upper
        rw [← heq] at hword
        rw [harea] at hx
        rw [vmaSize_toNat] at hupper
        omega
    rw [hsame]
    rw [harea] at hx hx'
    exact hheap.zero x (by omega) hx'

/-- A call on the list keeps the tables. -/
theorem Manages.region (h : Manages D list t m) {s' : State} {v : Regions}
    (hholds : Holds list s' v) (hframe : ListFrame list m.regions t.state s')
    (hlive : ∀ r ∈ v.live, r ∈ m.regions.live ∨
      t.state.heapArea.toNat + t.state.heapOffset.toNat ≤ r.node.toNat) :
    Manages D list { t with state := s' } { m with regions := v } := by
  have hheap := h.heapZero hholds hframe
  have hmem : ∀ x, TableWord D t x → s'.mem x = t.state.mem x := by
    intro x hx
    obtain ⟨hlist, hnodes, hlt⟩ := h.tableWord hx
    exact hframe.mem x hlist hnodes (.inl hlt)
  have hleft : pagesLeft s' = Manager.left { m with regions := v } := by
    unfold pagesLeft Manager.left
    rw [hholds.offset]
  refine ⟨?_, hholds, ?_, fun k is u hk hu r hr => ?_⟩
  · have hshows := h.shows.elsewhere hheap hframe.area hframe.offset hmem
    rw [hleft] at hshows
    exact hshows
  · have harea : s'.heapArea = t.state.heapArea := hframe.area
    rw [harea]
    exact h.off
  · rw [h.node_eq hframe hk] at hu
    rcases hlive r hr with hold | hnew
    · exact h.apart k is u hk hu r hold
    · have hupper := (h.shows.forest.closed k is u hk hu).upper
      exact .inl (by omega)

/-- A call on the tables keeps the list. -/
theorem Manages.table (h : Manages D list t m) {op : TableOp} (hop : Obeys D op) :
    t.answer op = m.tables.answer op ∧
      Manages D list (t.step op) (m.withTables (m.tables.step op)) := by
  obtain ⟨hanswer, hshows⟩ := h.shows.step hop
  have hframe := hshows.frame
  have hp := h.holds.placed
  have hoff := h.off
  unfold OffHeap at hoff
  have hle := hframe.offset_le
  have hheap := hshows.heap
  -- what is not a word of a table stays
  have hlist : (t.step op).state.mem list = t.state.mem list := by
    refine hframe.mem list (fun hx => (h.tableWord hx).1 rfl) ?_
    omega
  have hnodes : ∀ r ∈ m.regions.live, ∀ k < 32,
      (t.step op).state.mem (r.node + BitVec.ofNat 64 k) =
        t.state.mem (r.node + BitVec.ofNat 64 k) := by
    intro r hr k hk
    have hword := (h.holds.stored r hr).word h.holds.placed hk
    have hupper := (h.holds.stored r hr).upper
    rw [vmaSize_toNat] at hupper
    refine hframe.mem _ (fun hx => (h.tableWord hx).2.1 r hr k hk rfl) (.inl ?_)
    omega
  obtain ⟨n, hn, hoffset⟩ := hframe.offset
  have hleft : m.left - (m.tables.step op).left = n := by
    have hnow : pagesLeft t.state = m.left := h.shows.left
    have hthen := hshows.left
    omega
  rw [h.holds.offset] at hoffset
  have htables : (m.withTables (m.tables.step op)).tables = m.tables.step op := by
    have hthen : pagesLeft (t.step op).state = (m.tables.step op).left := hshows.left
    unfold pagesLeft at hthen
    rw [hoffset, ← hleft] at hthen
    exact congrArg (fun left => (⟨left, (m.tables.step op).spaces⟩ : Spaces)) hthen
  refine ⟨hanswer, ⟨?_, ?_, ?_, ?_⟩⟩
  · rw [htables]
    exact hshows.rebase
  · refine ⟨⟨?_, ?_, hheap.offset_le, ?_⟩, ?_, ?_, ?_, ?_, h.holds.apart⟩
    · rw [hframe.area]
      exact hp.pos
    · rw [hframe.area]
      exact hp.area
    · rw [hframe.area]
      omega
    · exact hframe.area.trans h.holds.heapArea
    · rw [hoffset, ← hleft]
      rfl
    · refine h.holds.chain.congr hlist fun q hq => ?_
      obtain ⟨r, hr, rfl⟩ := List.mem_map.mp hq
      exact hnodes r hr 24 (by omega)
    · intro r hr
      have h0 := hnodes r hr 0 (by omega)
      rw [BitVec.add_zero] at h0
      exact (h.holds.stored r hr).congr hframe.area hle h0 (hnodes r hr 8 (by omega))
        (hnodes r hr 16 (by omega))
  · rw [hframe.area]
    exact h.off
  · intro k is u hk hu r hr
    rcases hframe.nodes k is u hk hu with hold | hnew
    · exact h.apart k is u hk hold r hr
    · have hupper := (h.holds.stored r hr).upper
      exact .inr (by omega)

end Manages

-- ---------------------------------------------------------------------------
-- Runs
-- ---------------------------------------------------------------------------

section Runs

variable {D : Nat → Word → Prop} {list : Word} {t : Client} {m : Manager} {s : State} {fuel : Nat}

theorem manages_start (D : Nat → Word → Prop) (hs : HeapZero s) (hoff : OffHeap list s.heapArea)
    (hempty : s.mem list = 0#64) : Manages D list ⟨s, []⟩ (.start s) := by
  have hlow := hs.low
  have hle := hs.offset_le
  have hoff' := hoff
  unfold OffHeap at hoff'
  have hplaced : Placed list s := ⟨hs.pos, by omega, hle, by omega⟩
  exact ⟨shows_start D hs, holds_empty hplaced hempty, hoff, fun _ _ _ _ _ _ hr =>
    absurd hr List.not_mem_nil⟩

/-- What a call must keep to. -/
def Keeps (D : Nat → Word → Prop) : MmOp → Prop
  | .table op => Obeys D op
  | _ => True

/-- One call is answered as the manager says. -/
theorem Manages.call (h : Manages D list t m) {op : MmOp} (hop : Keeps D op)
    (hfuel : m.regions.live.length < fuel) :
    ∃ t', t.call fuel list op = some (m.answer op, t') ∧ Manages D list t' (m.step op) := by
  cases op with
  | table op =>
    obtain ⟨hanswer, hmanages⟩ := h.table hop
    refine ⟨t.step op, ?_, hmanages⟩
    have hserve : t.serve op = (m.tables.answer op, t.step op) := by
      rw [← hanswer]
      rfl
    rw [Client.call, hserve]
    rfl
  | region op =>
    cases op with
    | add start stop flags =>
      obtain ⟨s', hres, hholds, hframe, hlive⟩ := h.holds.add_frame start stop flags
      exact ⟨{ t with state := s' }, by rw [Client.call, hres]; rfl,
        h.region hholds hframe hlive⟩
    | remove start =>
      obtain ⟨s', hres, hholds, hframe⟩ := h.holds.remove_frame start hfuel
      refine ⟨{ t with state := s' }, by rw [Client.call, hres]; rfl, ?_⟩
      exact h.region hholds hframe fun r hr => .inl (List.eraseP_sublist.subset hr)
  | find addr =>
    obtain ⟨vma, hfind, hread⟩ := h.holds.find_area addr hfuel
    refine ⟨t, ?_, h⟩
    rw [Client.call, hfind]
    dsimp only [Option.bind_eq_bind, Option.bind_some]
    rw [hread]
    rfl

theorem length_answer (m : Manager) (op : MmOp) :
    (m.step op).regions.live.length ≤ m.regions.live.length + 1 := by
  cases op with
  | table op => exact Nat.le_succ _
  | region op =>
    cases op with
    | add start stop flags => exact length_step m.regions (.add start stop flags)
    | remove start => exact length_step m.regions (.remove start)
  | find addr => exact Nat.le_succ _

theorem Manages.callAll (h : Manages D list t m) (ops : List MmOp) (hops : ∀ op ∈ ops, Keeps D op)
    (hfuel : m.regions.live.length + ops.length < fuel) :
    ∃ t', t.callAll fuel list ops = some (m.callAll ops, t') ∧
      Manages D list t' (run Manager.step m ops) := by
  induction ops generalizing t m with
  | nil => exact ⟨t, rfl, h⟩
  | cons op ops ih =>
    rw [List.length_cons] at hfuel
    have hlen := length_answer m op
    obtain ⟨t₁, hcall, h₁⟩ := h.call (hops op (List.mem_cons_self ..))
      (show m.regions.live.length < fuel by omega)
    obtain ⟨t', hrest, h'⟩ := ih h₁ (fun op' hop' => hops op' (List.mem_cons_of_mem _ hop'))
      (by omega)
    refine ⟨t', ?_, h'⟩
    rw [Client.callAll, hcall]
    dsimp only [Option.bind_eq_bind, Option.bind_some]
    rw [hrest]
    rfl

theorem keeps_of_split {ops : List MmOp} (h : Split (tableOps ops)) :
    ∀ op ∈ ops, Keeps (Directory (tableOps ops)) op := by
  intro op hop
  cases op with
  | table op =>
    exact obeys_of_split h op (List.mem_filterMap.mpr ⟨.table op, hop, rfl⟩)
  | region op => trivial
  | find addr => trivial

/-- **Page tables and regions do not damage each other.** From a zeroed heap and an empty
list on, every run that mixes the calls on page tables with those on the list of regions,
in any order and with any arguments, comes to its end, and every answer is the one of
`Manager` — so long as no index of a table is both a top-level and a last-level index. -/
theorem memory_manager_refines (s : State) (list : Word) (ops : List MmOp) {fuel : Nat}
    (hs : HeapZero s) (hoff : OffHeap list s.heapArea) (hempty : s.mem list = 0#64)
    (hsplit : Split (tableOps ops)) (hfuel : ops.length < fuel) :
    ∃ t, Client.callAll fuel list ⟨s, []⟩ ops = some (Manager.callAll (.start s) ops, t) := by
  have hstart := manages_start (Directory (tableOps ops)) hs hoff hempty
  have hlive : (Manager.start s).regions.live.length = 0 := rfl
  obtain ⟨t, hcall, -⟩ := hstart.callAll ops (keeps_of_split hsplit)
    (show (Manager.start s).regions.live.length + ops.length < fuel by omega)
  exact ⟨t, hcall⟩

/-- The calls on two tables, with a region added and looked up between them. -/
def mixed : List MmOp :=
  [.table .create, .region (.add 0x4000#64 0x8000#64 1#64), .table .create,
    .table (.on 0 (.map 0x1000#64 0x5000#64 AEGIS_PTE_FLAGS_DEFAULT)), .find 0x4800#64,
    .table (.on 1 (.walk 0x1000#64 false)), .region (.remove 0x4000#64)]

theorem mixed_split : Split (tableOps mixed) := twoTables_split

theorem memory_manager_refines_mixed :
    ∃ t, Client.callAll 8 0x1000#64 ⟨boot 0x200000#64 fun _ => 0#64, []⟩ mixed =
      some (Manager.callAll (.start (boot 0x200000#64 fun _ => 0#64)) mixed, t) :=
  memory_manager_refines _ 0x1000#64 mixed heapZero_boot (.inl (by decide)) rfl mixed_split
    (by decide)

end Runs

end AegisKernel.Mm
