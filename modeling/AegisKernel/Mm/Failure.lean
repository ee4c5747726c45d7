import AegisKernel.Mm.Paging

/-!
# Memory management — `mm_page_map` on an exhausted heap

`mm_page_map` takes up to three pages from the heap, one for each table missing
on the path of the address, and links each one before it asks for the next. When
the heap runs out on the way it returns -1 and leaves the pages it has linked
where they are.

* `AddressSpace` — the tables below `pt` form a tree of pages of the heap.
* `descend` — the three lookups as one recursion over the indices.
* `descend_outcome` — they fail exactly when more tables are missing than
  pages are left.
* `Dangling` — what a failed call leaves: one entry of an old table may link a
  new one, below which there is no last-level table.
* `page_map_fails_cleanly` — so no translation changes.
-/

namespace AegisKernel.Mm

open Library

-- ---------------------------------------------------------------------------
-- Address spaces
-- ---------------------------------------------------------------------------

/-- The table the indices lead to from `t`, following present entries as
`page_table_get_entry` does. -/
def tableAt (mem : Word → Word) : Word → List Word → Option Word
  | t, [] => some t
  | t, i :: is => (presentEntry mem t i).bind fun e => tableAt mem (e &&& ~~~0xFFF#64) is

/-- How many tables the path lacks. -/
def missing (mem : Word → Word) : Word → List Word → Nat
  | _, [] => 0
  | t, i :: is =>
    match presentEntry mem t i with
    | some e => missing mem (e &&& ~~~0xFFF#64) is
    | none => is.length + 1

/-- The PML4, PDPT and PD indices of an address. -/
def tablePath (v : Word) : List Word := [pml4Idx v, pdptIdx v, pdIdx v]

def missingTables (s : State) (pt v : Word) : Nat := missing s.mem pt (tablePath v)

/-- Whole pages left on the heap. -/
def pagesLeft (s : State) : Nat := 64 - (s.heapOffset.toNat + 4095) / 4096

/-- `pt` and the tables below it are pages of the used heap, and no two paths
lead to the same one. -/
structure AddressSpace (s : State) (pt : Word) : Prop where
  heap : HeapZero s
  table : ∀ is t, is.length ≤ 3 → (∀ i ∈ is, Index i) → tableAt s.mem pt is = some t → Table s t
  distinct : ∀ is js t, is.length ≤ 3 → js.length ≤ 3 → (∀ i ∈ is, Index i) →
    (∀ j ∈ js, Index j) → tableAt s.mem pt is = some t → tableAt s.mem pt js = some t → is = js

section Paths

variable {s s' : State} {pt t u v i : Word}

theorem tableAt_append (mem : Word → Word) (t : Word) (is js : List Word) :
    tableAt mem t (is ++ js) = (tableAt mem t is).bind fun u => tableAt mem u js := by
  induction is generalizing t with
  | nil => rfl
  | cons i is ih =>
    rw [List.cons_append, tableAt, tableAt, Option.bind_assoc]
    simp only [ih]

theorem index_tablePath (v : Word) : ∀ i ∈ tablePath v, Index i := by
  simp only [tablePath, List.mem_cons, List.not_mem_nil, or_false]
  rintro i (rfl | rfl | rfl)
  · exact index_and _
  · exact index_and _
  · exact index_and _

theorem Table.ne_zero (hs : HeapZero s) (ht : Table s t) : t ≠ 0#64 := by
  rintro rfl
  have hpos := hs.pos
  have hlow := ht.lower
  rw [BitVec.toNat_ofNat, Nat.zero_mod] at hlow
  omega

/-- The code and the walk read the same table from an entry that links one below
2^52. -/
theorem entry_frame {e : Word} (h : (e &&& ~~~0xFFF#64).toNat < 2 ^ 52) :
    e &&& frameMask = e &&& ~~~0xFFF#64 := by
  have hmask : frameMask = ~~~0xFFF#64 &&& 0x000FFFFFFFFFFFFF#64 := by decide
  rw [hmask, ← BitVec.and_assoc]
  refine BitVec.eq_of_toNat_eq ?_
  rw [toNat_and_mask _ _ 52 rfl, Nat.mod_eq_of_lt h]

theorem Table.lt_two_pow (hs : HeapZero s) (ht : Table s t) : t.toNat < 2 ^ 52 := by
  have hlow := hs.low
  have hoff := hs.offset_le
  have hup := ht.upper
  omega

theorem linkEntry_table (hu : u.toNat % 4096 = 0) : linkEntry u &&& ~~~0xFFF#64 = u := by
  have hkeep : u &&& ~~~0xFFF#64 = u := by
    refine BitVec.eq_of_toNat_eq ?_
    rw [toNat_and_not_mask u 0xFFF#64 12 rfl]
    omega
  have hflags : (AEGIS_PTE_PRESENT ||| (AEGIS_PTE_WRITABLE ||| AEGIS_PTE_USER)) &&&
      ~~~0xFFF#64 = 0#64 := by decide
  rw [linkEntry, BitVec.or_assoc, BitVec.or_assoc, BitVec.and_or_distrib_right, hkeep, hflags,
    BitVec.or_zero]

/-- Whether an entry is present depends on its word only. -/
theorem presentEntry_congr (h : s'.entry t i = s.entry t i) :
    presentEntry s'.mem t i = presentEntry s.mem t i := by
  have h : s'.mem (t + 8#64 * i) = s.mem (t + 8#64 * i) := h
  unfold presentEntry
  rw [h]

theorem presentEntry_zero (h : s.entry t i = 0#64) : presentEntry s.mem t i = none := by
  have h : s.mem (t + 8#64 * i) = 0#64 := h
  unfold presentEntry
  rw [h]
  rfl

end Paths

-- ---------------------------------------------------------------------------
-- Taking pages
-- ---------------------------------------------------------------------------

section Pages

variable {s : State} {t i : Word}

theorem pagesLeft_eq (offset : Word) :
    pagesLeft { s with heapOffset := offset } = 64 - roundUp 4096 offset.toNat / 4096 := by
  unfold pagesLeft roundUp
  rw [Nat.mul_div_cancel _ (by decide)]
  rfl

/-- `page_table_alloc` takes a page as long as there is one. -/
theorem pageTableAlloc_cases (hs : HeapZero s) :
    (pagesLeft s = 0 ∧ pageTableAlloc s = (0#64, s)) ∨
      ∃ u offset, pageTableAlloc s = (u, { s with heapOffset := offset }) ∧ u ≠ 0#64 ∧
        NewPage s u offset ∧ pagesLeft s = pagesLeft { s with heapOffset := offset } + 1 := by
  have hpage : AEGIS_PAGE_SIZE.toNat = 4096 := rfl
  have hoff := hs.offset_le
  have hbound : roundUp 4096 s.heapOffset.toNat ≤ s.heapOffset.toNat + 4096 - 1 := roundUp_le
  -- `k` pages are in use, the last of them perhaps in part
  obtain ⟨k, hk⟩ := dvd_roundUp 4096 s.heapOffset.toNat
  have hleft : pagesLeft s = 64 - k := by
    have hdiv : roundUp 4096 s.heapOffset.toNat / 4096 = k := by
      rw [hk, Nat.mul_div_cancel_left _ (by decide)]
    rw [← hdiv]
    exact pagesLeft_eq s.heapOffset
  rw [heapSize_toNat] at hoff
  have halign : PowerOfTwo AEGIS_PAGE_SIZE := ⟨12, rfl⟩
  rcases alloc_cases hs.offset_le AEGIS_PAGE_SIZE halign with
    ⟨hfull, hres⟩ | ⟨hfit, start, hstart, hres, hend⟩
  · -- less than a page is left
    rw [hpage, heapSize_toNat, hk] at hfull
    refine .inl ⟨by omega, ?_⟩
    unfold pageTableAlloc
    rw [hres]
  · rw [hpage, heapSize_toNat, hk] at hfit
    rw [hpage, hk] at hend hstart
    rcases pageTableAlloc_newPage hs with hfail | ⟨u, offset, halloc, hu0, hnew⟩
    · -- a page that fits is not NULL
      have hpos := hs.pos
      have hlow := hs.low
      rw [heapSize_toNat] at hlow
      have hzero : s.heapArea + start = 0#64 := by
        unfold pageTableAlloc at hfail
        rw [hres] at hfail
        exact hfail
      have hnat := congrArg BitVec.toNat hzero
      rw [BitVec.toNat_add, BitVec.toNat_ofNat, Nat.zero_mod] at hnat
      omega
    · have hoffset : offset = start + AEGIS_PAGE_SIZE := by
        unfold pageTableAlloc at halloc
        rw [hres] at halloc
        exact (congrArg (fun r : Word × State => r.2.heapOffset) halloc).symm
      have hround : roundUp 4096 offset.toNat / 4096 = k + 1 := by
        unfold roundUp
        rw [hoffset, hend, Nat.mul_div_cancel _ (by decide)]
        omega
      refine .inr ⟨u, offset, halloc, hu0, hnew, ?_⟩
      rw [pagesLeft_eq offset, hround, hleft]
      omega

/-- `page_table_get_entry` at a present entry. -/
theorem pageTableGetEntry_present {e : Word} (h : presentEntry s.mem t i = some e) :
    pageTableGetEntry s t i true = (e &&& ~~~0xFFF#64, s) := by
  unfold presentEntry at h
  dsimp only at h
  rw [Option.ite_none_right_eq_some] at h
  obtain ⟨hpresent, heq⟩ := h
  cases heq
  unfold pageTableGetEntry State.entry
  dsimp only
  rw [if_pos hpresent]

/-- `page_table_get_entry` at an absent entry: NULL on a full heap, else a new
empty table, linked there. -/
theorem pageTableGetEntry_absent (hs : HeapZero s) (ht : Table s t) (hi : Index i)
    (h : presentEntry s.mem t i = none) :
    (pagesLeft s = 0 ∧ pageTableGetEntry s t i true = (0#64, s)) ∨
      ∃ u s', pageTableGetEntry s t i true = (u, s') ∧ u ≠ 0#64 ∧ Linked s s' t i u ∧
        pagesLeft s = pagesLeft s' + 1 := by
  have habsent : ¬ s.entry t i &&& AEGIS_PTE_PRESENT ≠ 0#64 := by
    intro hpresent
    have hpresent : s.mem (t + 8#64 * i) &&& AEGIS_PTE_PRESENT ≠ 0#64 := hpresent
    unfold presentEntry at h
    dsimp only at h
    rw [if_pos hpresent] at h
    exact absurd h (by simp)
  rcases pageTableAlloc_cases hs with ⟨hfull, hres⟩ | ⟨u, offset, hres, hu0, hnew, hleft⟩
  · refine .inl ⟨hfull, ?_⟩
    unfold pageTableGetEntry
    dsimp only
    rw [if_neg habsent, hres]
    rfl
  · refine .inr ⟨u, _, ?_, hu0, hnew.linked ht hi, hleft⟩
    unfold pageTableGetEntry
    dsimp only
    rw [if_neg habsent, hres]
    simp only [Bool.not_true, Bool.false_eq_true, if_false, if_neg hu0]

end Pages

-- ---------------------------------------------------------------------------
-- The three lookups
-- ---------------------------------------------------------------------------

/-- `page_table_get_entry` with `create` for one index after the other; NULL ends
it. -/
def descend (s : State) (t : Word) : List Word → Word × State
  | [] => (t, s)
  | i :: is =>
    let (u, s') := pageTableGetEntry s t i true
    if u = 0#64 then (0#64, s') else descend s' u is

theorem lookupTables_eq (s : State) (pt v : Word) :
    lookupTables s pt v true = descend s pt (tablePath v) := by
  unfold lookupTables tablePath
  simp only [descend]
  split
  · rfl
  · split
    · rfl
    · split
      · rename_i h
        exact Prod.ext h rfl
      · rfl

section Descend

variable {s s' : State} {t u i : Word} {is : List Word}

/-- What the lookups do from the empty table `t` on: every index takes a page, and
no table that was there before is touched but `t`. -/
structure Fresh (s : State) (t : Word) (is : List Word) : Prop where
  fails : (descend s t is).1 = 0#64 ↔ pagesLeft s < is.length
  frame : ∀ w j, Table s w → w ≠ t → Index j → (descend s t is).2.entry w j = s.entry w j
  low : ∀ js w, js.length ≤ is.length → (∀ j ∈ js, Index j) →
    tableAt (descend s t is).2.mem t js = some w → w.toNat < 2 ^ 52
  nothing : (descend s t is).1 = 0#64 → ∀ js, js.length = is.length → (∀ j ∈ js, Index j) →
    tableAt (descend s t is).2.mem t js = none

theorem fresh_nil (hs : HeapZero s) (ht : Table s t) : Fresh s t [] := by
  refine ⟨by simp [descend, ht.ne_zero hs], fun _ _ _ _ _ => rfl, fun js w hjs _ hw => ?_,
    fun h0 => absurd h0 (ht.ne_zero hs)⟩
  obtain rfl := List.length_eq_zero_iff.mp (Nat.le_zero.mp hjs)
  exact Option.some.inj hw ▸ ht.lt_two_pow hs

/-- No page is left, and nothing has changed. -/
theorem fresh_full (hs : HeapZero s) (ht : Table s t)
    (hempty : ∀ j, Index j → s.entry t j = 0#64) (hfull : pagesLeft s = 0)
    (hget : pageTableGetEntry s t i true = (0#64, s)) : Fresh s t (i :: is) := by
  have heq : descend s t (i :: is) = (0#64, s) := by simp [descend, hget]
  have hnone : ∀ j js, Index j → tableAt s.mem t (j :: js) = none := by
    intro j js hj
    rw [tableAt, presentEntry_zero (hempty j hj)]
    rfl
  constructor
  · rw [heq]
    simp [hfull]
  · rw [heq]
    exact fun _ _ _ _ _ => rfl
  · rw [heq]
    intro js w _ hidx hw
    cases js with
    | nil => exact Option.some.inj hw ▸ ht.lt_two_pow hs
    | cons j js =>
      rw [hnone j js (hidx j (List.mem_cons_self ..))] at hw
      exact absurd hw (by simp)
  · rw [heq]
    intro _ js hjs hidx
    cases js with
    | nil => simp at hjs
    | cons j js => exact hnone j js (hidx j (List.mem_cons_self ..))

/-- From `t` on there is the new link, if the lookups below it keep to themselves. -/
theorem tableAt_linked {m : State} (hlinked : Linked s s' t i u) (ht : Table s t)
    (hempty : ∀ j, Index j → s.entry t j = 0#64)
    (hframe : ∀ j, Index j → m.entry t j = s'.entry t j) {j : Word} (hj : Index j)
    (js : List Word) :
    tableAt m.mem t (j :: js) = if j = i then tableAt m.mem u js else none := by
  have hentry := hframe j hj
  split
  · rename_i hji
    subst hji
    rw [tableAt, presentEntry_link (hentry.trans hlinked.entry), Option.bind_some,
      linkEntry_table hlinked.table.aligned]
  · rename_i hji
    rw [hlinked.other t j ht hj fun h => hji h.2, hempty j hj] at hentry
    rw [tableAt, presentEntry_zero hentry]
    rfl

/-- A page is linked, and the lookups go on below it. -/
theorem fresh_linked (hs : HeapZero s) (ht : Table s t)
    (hempty : ∀ j, Index j → s.entry t j = 0#64)
    (hget : pageTableGetEntry s t i true = (u, s')) (hu0 : u ≠ 0#64)
    (hlinked : Linked s s' t i u) (hleft : pagesLeft s = pagesLeft s' + 1)
    (hrest : Fresh s' u is) : Fresh s t (i :: is) := by
  have heq : descend s t (i :: is) = descend s' u is := by simp [descend, hget, hu0]
  have hbelow := fun j (hj : Index j) => tableAt_linked (m := (descend s' u is).2) hlinked ht hempty
    (fun k hk => hrest.frame t k (hlinked.keeps t ht) (hlinked.fresh t ht) hk) hj
  constructor
  · rw [heq, hrest.fails, List.length_cons]
    omega
  · rw [heq]
    intro w j hw hwt hj
    rw [hrest.frame w j (hlinked.keeps w hw) (hlinked.fresh w hw) hj]
    exact hlinked.other w j hw hj fun h => hwt h.1
  · rw [heq]
    intro js w hjs hidx hw
    cases js with
    | nil => exact Option.some.inj hw ▸ ht.lt_two_pow hs
    | cons j js =>
      rw [hbelow j (hidx j (List.mem_cons_self ..)), Option.ite_none_right_eq_some] at hw
      exact hrest.low js w (by simpa using hjs)
        (fun k hk => hidx k (List.mem_cons_of_mem _ hk)) hw.2
  · rw [heq]
    intro h0 js hjs hidx
    cases js with
    | nil => simp at hjs
    | cons j js =>
      have hnone := hrest.nothing h0 js (by simpa using hjs)
        fun k hk => hidx k (List.mem_cons_of_mem _ hk)
      rw [hbelow j (hidx j (List.mem_cons_self ..)), hnone, ite_self]

/-- On an empty table every index takes a page. -/
theorem descend_fresh (hs : HeapZero s) (ht : Table s t)
    (hempty : ∀ j, Index j → s.entry t j = 0#64) (his : ∀ i ∈ is, Index i) : Fresh s t is := by
  induction is generalizing s t with
  | nil => exact fresh_nil hs ht
  | cons i is ih =>
    have hi : Index i := his i (List.mem_cons_self ..)
    rcases pageTableGetEntry_absent hs ht hi (presentEntry_zero (hempty i hi)) with
      ⟨hfull, hget⟩ | ⟨u, s', hget, hu0, hlinked, hleft⟩
    · exact fresh_full hs ht hempty hfull hget
    · have hrest := ih hlinked.heap hlinked.table hlinked.empty
        fun j hj => his j (List.mem_cons_of_mem _ hj)
      exact fresh_linked hs ht hempty hget hu0 hlinked hleft hrest

end Descend

/-- What a failed call leaves behind: entry `i` of the table `t` at the path `ps`
was absent, and is the only entry of an old table that may have changed; no
last-level table is below it. -/
structure Dangling (s s' : State) (pt t i : Word) (ps : List Word) : Prop where
  path : tableAt s.mem pt ps = some t
  indices : ∀ p ∈ ps, Index p
  index : Index i
  short : ps.length < 3
  absent : presentEntry s.mem t i = none
  other : ∀ w j, Table s w → Index j → ¬ (w = t ∧ j = i) → s'.entry w j = s.entry w j
  low : ∀ js w, ps.length + 1 + js.length ≤ 3 → (∀ j ∈ js, Index j) →
    tableAt s'.mem t (i :: js) = some w → w.toNat < 2 ^ 52
  nothing : ∀ js, ps.length + 1 + js.length = 3 → (∀ j ∈ js, Index j) →
    tableAt s'.mem t (i :: js) = none

section Outcome

variable {s s' : State} {pt : Word}

theorem AddressSpace.table_lt (h : AddressSpace s pt) {is : List Word} {t : Word}
    (hlen : is.length ≤ 3) (his : ∀ i ∈ is, Index i) (ht : tableAt s.mem pt is = some t) :
    t.toNat < 2 ^ 52 := (h.table is t hlen his ht).lt_two_pow h.heap

/-- A present entry leads from the table at `ps` to the one at `ps ++ [i]`. -/
theorem tableAt_concat {ps : List Word} {t i e : Word} (ht : tableAt s.mem pt ps = some t)
    (he : presentEntry s.mem t i = some e) :
    tableAt s.mem pt (ps ++ [i]) = some (e &&& ~~~0xFFF#64) := by
  rw [tableAt_append, ht, Option.bind_some, tableAt, he]
  rfl

theorem index_concat {ps : List Word} {i : Word} (hps : ∀ p ∈ ps, Index p) (hi : Index i) :
    ∀ p ∈ ps ++ [i], Index p := by
  intro p hp
  rcases List.mem_append.mp hp with hp | hp
  · exact hps p hp
  · exact List.mem_singleton.mp hp ▸ hi

/-- The lookups fail exactly when the heap has fewer pages than the path lacks
tables, and then leave at most a dangling table. -/
theorem descend_outcome (h : AddressSpace s pt) (ps is : List Word) {t : Word}
    (hlen : ps.length + is.length = 3) (hps : ∀ p ∈ ps, Index p) (his : ∀ i ∈ is, Index i)
    (ht : tableAt s.mem pt ps = some t) :
    ((descend s t is).1 = 0#64 ↔ pagesLeft s < missing s.mem t is) ∧
      ((descend s t is).1 = 0#64 → ∃ u i qs, Dangling s (descend s t is).2 pt u i qs) := by
  -- `ps` is the path that was followed, `is` what is left of it
  induction is generalizing ps t with
  | nil =>
    have hne := (h.table ps t (by omega) hps ht).ne_zero h.heap
    simp [descend, missing, hne]
  | cons i is ih =>
    rw [List.length_cons] at hlen
    have hi : Index i := his i (List.mem_cons_self ..)
    have his' : ∀ j ∈ is, Index j := fun j hj => his j (List.mem_cons_of_mem _ hj)
    have htable := h.table ps t (by omega) hps ht
    rcases he : presentEntry s.mem t i with _ | e
    · rcases pageTableGetEntry_absent h.heap htable hi he with
        ⟨hfull, hget⟩ | ⟨u, s₁, hget, hu0, hlinked, hleft⟩
      · -- no page for the first missing table: nothing has changed
        have heq : descend s t (i :: is) = (0#64, s) := by simp [descend, hget]
        have hnone : ∀ js, tableAt s.mem t (i :: js) = none := by
          intro js
          rw [tableAt, he]
          rfl
        rw [heq, missing, he]
        refine ⟨by simp [hfull], fun _ => ⟨t, i, ps, ht, hps, hi, by omega, he,
          fun _ _ _ _ _ => rfl, fun js w _ _ hw => ?_, fun js _ _ => hnone js⟩⟩
        rw [hnone] at hw
        exact absurd hw (by simp)
      · -- below the first new table everything is new
        have heq : descend s t (i :: is) = descend s₁ u is := by simp [descend, hget, hu0]
        obtain ⟨hfail, hframe, hbound, hnothing⟩ :=
          descend_fresh hlinked.heap hlinked.table hlinked.empty his'
        have hentry := hframe t i (hlinked.keeps t htable) (hlinked.fresh t htable) hi
        have hbelow : ∀ js, tableAt (descend s₁ u is).2.mem t (i :: js) =
            tableAt (descend s₁ u is).2.mem u js := by
          intro js
          rw [tableAt, presentEntry_link (hentry.trans hlinked.entry), Option.bind_some,
            linkEntry_table hlinked.table.aligned]
        rw [heq, missing, he]
        refine ⟨by rw [hfail]; dsimp only; omega, fun h0 => ⟨t, i, ps, ht, hps, hi, by omega, he,
          fun w j hw hj hne => ?_, fun js w hjs hidx hw => ?_, fun js hjs hidx => ?_⟩⟩
        · rw [hframe w j (hlinked.keeps w hw) (hlinked.fresh w hw) hj]
          exact hlinked.other w j hw hj hne
        · rw [hbelow] at hw
          exact hbound js w (by omega) hidx hw
        · rw [hbelow]
          exact hnothing h0 js (by omega) hidx
    · -- a table that is there: one level down
      have hnext := tableAt_concat ht he
      have hps' := index_concat hps hi
      have hne : e &&& ~~~0xFFF#64 ≠ 0#64 :=
        (h.table _ _ (by simp; omega) hps' hnext).ne_zero h.heap
      have heq : descend s t (i :: is) = descend s (e &&& ~~~0xFFF#64) is := by
        rw [descend, pageTableGetEntry_present he]
        exact if_neg hne
      rw [heq, missing, he]
      exact ih (ps ++ [i]) (by simp; omega) hps' his' hnext

variable {t i : Word} {ps : List Word}

/-- Tables there were are still there. -/
theorem Dangling.keeps (h : AddressSpace s pt) (hd : Dangling s s' pt t i ps)
    (qs : List Word) {ks : List Word} {u w : Word} (hlen : qs.length + ks.length ≤ 3)
    (hqs : ∀ q ∈ qs, Index q) (hks : ∀ k ∈ ks, Index k) (hu : tableAt s.mem pt qs = some u)
    (hw : tableAt s.mem u ks = some w) : tableAt s'.mem u ks = some w := by
  induction ks generalizing qs u with
  | nil => exact hw
  | cons k ks ih =>
    rw [List.length_cons] at hlen
    have hk := hks k (List.mem_cons_self ..)
    rw [tableAt, Option.bind_eq_some_iff] at hw
    obtain ⟨e, he, hw⟩ := hw
    -- the entry that changed was absent
    have hne : ¬ (u = t ∧ k = i) := by
      rintro ⟨rfl, rfl⟩
      rw [hd.absent] at he
      exact absurd he (by simp)
    have hsame := presentEntry_congr (hd.other u k (h.table qs u (by omega) hqs hu) hk hne)
    rw [tableAt, hsame, he, Option.bind_some]
    exact ih (qs ++ [k]) (by simp; omega) (index_concat hqs hk)
      (fun j hj => hks j (List.mem_cons_of_mem _ hj)) (tableAt_concat hu he) hw

/-- Complete paths lead where they led, and no table on them is above 2^52. -/
theorem Dangling.same (h : AddressSpace s pt) (hd : Dangling s s' pt t i ps)
    {qs ks : List Word} {u : Word} (hqs : ∀ q ∈ qs, Index q) (hks : ∀ k ∈ ks, Index k)
    (hu : tableAt s.mem pt qs = some u) :
    (qs.length + ks.length = 3 → tableAt s'.mem u ks = tableAt s.mem u ks) ∧
      (qs.length + ks.length ≤ 3 → ∀ w, tableAt s'.mem u ks = some w → w.toNat < 2 ^ 52) := by
  -- `qs` leads to `u`, and `ks` goes on from there
  induction ks generalizing qs u with
  | nil =>
    refine ⟨fun _ => rfl, fun hlen w hw => ?_⟩
    rw [← Option.some.inj hw]
    exact h.table_lt (by simpa using hlen) hqs hu
  | cons k ks ih =>
    rw [List.length_cons]
    have hk := hks k (List.mem_cons_self ..)
    have hks' : ∀ j ∈ ks, Index j := fun j hj => hks j (List.mem_cons_of_mem _ hj)
    by_cases hat : u = t ∧ k = i
    · -- the entry that changed: the path to it is `ps`, and below it is nothing
      obtain ⟨rfl, rfl⟩ := hat
      have hshort := hd.short
      refine ⟨fun hlen => ?_, fun hlen w hw => ?_⟩
      · obtain rfl := h.distinct qs ps u (by omega) (by omega) hqs hd.indices hu hd.path
        rw [hd.nothing ks (by omega) hks', tableAt, hd.absent]
        rfl
      · obtain rfl := h.distinct qs ps u (by omega) (by omega) hqs hd.indices hu hd.path
        exact hd.low ks w (by omega) hks' hw
    · by_cases hlen : qs.length + (ks.length + 1) ≤ 3
      · have hsame := presentEntry_congr (hd.other u k (h.table qs u (by omega) hqs hu) hk hat)
        rcases he : presentEntry s.mem u k with _ | e
        · simp [tableAt, hsame, he]
        · have hrec := ih (index_concat hqs hk) hks' (tableAt_concat hu he)
          rw [List.length_append, List.length_singleton] at hrec
          simp only [tableAt, hsame, he, Option.bind_some]
          exact ⟨fun h => hrec.1 (by omega), fun h => hrec.2 (by omega)⟩
      · exact ⟨fun h => absurd h (by omega), fun h => absurd h hlen⟩

/-- The walk goes through the table at the path of the address. -/
theorem translate_eq (mem : Word → Word) (pt v : Word)
    (hlow : ∀ ks w, ks <+: tablePath v → tableAt mem pt ks = some w → w.toNat < 2 ^ 52) :
    translate mem pt v = (tableAt mem pt (tablePath v)).bind fun w =>
      (presentEntry mem w (ptIdx v)).map fun e => (e &&& frameMask, e &&& ~~~frameMask) := by
  unfold translate tablePath
  simp only [tableAt, Option.bind_eq_bind, Option.pure_def]
  -- level by level: the walk keeps 52 bits of an entry, the code all but 12
  rcases he₄ : presentEntry mem pt (pml4Idx v) with _ | e₄
  · rfl
  have h₄ : e₄ &&& frameMask = e₄ &&& ~~~0xFFF#64 := by
    refine entry_frame (hlow [pml4Idx v] _ ⟨[pdptIdx v, pdIdx v], rfl⟩ ?_)
    rw [tableAt, he₄]
    rfl
  simp only [Option.bind_some, h₄]
  rcases he₃ : presentEntry mem (e₄ &&& ~~~0xFFF#64) (pdptIdx v) with _ | e₃
  · rfl
  have h₃ : e₃ &&& frameMask = e₃ &&& ~~~0xFFF#64 := by
    refine entry_frame (hlow [pml4Idx v, pdptIdx v] _ ⟨[pdIdx v], rfl⟩ ?_)
    rw [tableAt, he₄, Option.bind_some, tableAt, he₃]
    rfl
  simp only [Option.bind_some, h₃]
  rcases he₂ : presentEntry mem (e₃ &&& ~~~0xFFF#64) (pdIdx v) with _ | e₂
  · rfl
  have h₂ : e₂ &&& frameMask = e₂ &&& ~~~0xFFF#64 := by
    refine entry_frame (hlow (tablePath v) _ (List.prefix_refl _) ?_)
    rw [tablePath, tableAt, he₄, Option.bind_some, tableAt, he₃, Option.bind_some, tableAt, he₂]
    rfl
  simp only [Option.bind_some, h₂]
  rcases he₁ : presentEntry mem (e₂ &&& ~~~0xFFF#64) (ptIdx v) with _ | e₁
  · rfl
  · rfl

/-- No translation changes. -/
theorem Dangling.translate_eq (h : AddressSpace s pt) (hd : Dangling s s' pt t i ps) (v : Word) :
    translate s'.mem pt v = translate s.mem pt v := by
  have hidx := index_tablePath v
  have hlen : (tablePath v).length = 3 := rfl
  -- both walks are along initial parts of the path
  have hinitial : ∀ ks, ks <+: tablePath v → ks.length ≤ 3 ∧ ∀ k ∈ ks, Index k :=
    fun ks hks => ⟨hks.length_le, fun k hk => hidx k (hks.subset hk)⟩
  have hroot : tableAt s.mem pt [] = some pt := rfl
  rw [Mm.translate_eq s.mem pt v fun ks w hks hw =>
      h.table_lt (hinitial ks hks).1 (hinitial ks hks).2 hw,
    Mm.translate_eq s'.mem pt v fun ks w hks hw =>
      (hd.same h (by simp) (hinitial ks hks).2 hroot).2 (by simpa using (hinitial ks hks).1) w hw,
    (hd.same h (by simp) hidx hroot).1 (by simp [hlen])]
  rcases hw : tableAt s.mem pt (tablePath v) with _ | w
  · rfl
  · -- the last-level table is none of the tables a failed call writes to
    have htable := h.table (tablePath v) w (Nat.le_of_eq hlen) hidx hw
    have hne : w ≠ t := by
      rintro rfl
      have hpath := h.distinct (tablePath v) ps w (Nat.le_of_eq hlen) (Nat.le_of_lt hd.short) hidx
        hd.indices hw hd.path
      have hshort := hd.short
      rw [← hpath, hlen] at hshort
      omega
    simp only [Option.bind_some]
    rw [presentEntry_congr (hd.other w (ptIdx v) htable (index_and _) fun h => hne h.1)]

end Outcome

theorem mmPageMap_fails_iff (s : State) (pt v p flags : Word) :
    (mmPageMap s pt v p flags).1 = -1 ↔ (descend s pt (tablePath v)).1 = 0#64 := by
  unfold mmPageMap
  rw [lookupTables_eq]
  dsimp only
  split
  · rename_i h0
    simp [h0]
  · rename_i h0
    simp [h0]

/-- An empty table is an address space. -/
theorem addressSpace_of_ready {s : State} {pt : Word} (h : Ready s pt) : AddressSpace s pt := by
  have honly : ∀ is t, (∀ i ∈ is, Index i) → tableAt s.mem pt is = some t → is = [] ∧ t = pt := by
    intro is t his ht
    cases is with
    | nil => exact ⟨rfl, (Option.some.inj ht).symm⟩
    | cons i is =>
      rw [tableAt, presentEntry_zero (h.empty i (his i (List.mem_cons_self ..)))] at ht
      exact absurd ht (by simp)
  refine ⟨h.heap, fun is t _ his ht => ?_, fun is js t _ _ his hjs hti htj => ?_⟩
  · rw [(honly is t his ht).2]
    exact h.table
  · rw [(honly is t his hti).1, (honly js t hjs htj).1]

/-- **Failing cleanly.** On an address space that is a tree of heap pages,
`mm_page_map` returns -1 exactly when the path of the address lacks more tables
than the heap has pages. Then at most one entry of the tables there were has
changed, no last-level table is below a new one, and every address translates as
before. -/
theorem page_map_fails_cleanly (s : State) (pt v p flags : Word) (h : AddressSpace s pt) :
    ((mmPageMap s pt v p flags).1 = -1 ↔
      64 - (s.heapOffset.toNat + 4095) / 4096 < missingTables s pt v) ∧
    ((mmPageMap s pt v p flags).1 = -1 →
      (∃ t i, ∀ w j, Table s w → Index j → ¬ (w = t ∧ j = i) →
        (mmPageMap s pt v p flags).2.entry w j = s.entry w j) ∧
      (∀ qs js t, (∀ q ∈ qs, Index q) → (∀ j ∈ js, Index j) → qs.length + js.length = 3 →
        tableAt (mmPageMap s pt v p flags).2.mem pt qs = some t → ¬ Table s t →
        tableAt (mmPageMap s pt v p flags).2.mem t js = none) ∧
      ∀ w, translate (mmPageMap s pt v p flags).2.mem pt w = translate s.mem pt w) := by
  obtain ⟨hiff, hdangling⟩ :=
    descend_outcome h [] (tablePath v) rfl (by simp) (index_tablePath v) rfl
  refine ⟨(mmPageMap_fails_iff s pt v p flags).trans hiff, fun hfail => ?_⟩
  have h0 := (mmPageMap_fails_iff s pt v p flags).mp hfail
  have hstate : (mmPageMap s pt v p flags).2 = (descend s pt (tablePath v)).2 := by
    unfold mmPageMap
    rw [lookupTables_eq]
    dsimp only
    rw [if_pos h0]
  obtain ⟨t, i, ps, hd⟩ := hdangling h0
  rw [hstate]
  refine ⟨⟨t, i, hd.other⟩, fun qs js u hqs hjs hlen hu hnew => ?_, hd.translate_eq h⟩
  -- a complete path through a new table would have been there before
  by_contra hsome
  obtain ⟨w, hw⟩ := Option.ne_none_iff_exists'.mp hsome
  have hidx : ∀ k ∈ qs ++ js, Index k := fun k hk =>
    (List.mem_append.mp hk).elim (hqs k) (hjs k)
  have hroot : tableAt s.mem pt [] = some pt := rfl
  have hpath := (hd.same h (by simp) hidx hroot).1 (by simpa using hlen)
  rw [tableAt_append, hu, Option.bind_some, hw, tableAt_append] at hpath
  obtain ⟨u', hu', -⟩ := Option.bind_eq_some_iff.mp hpath.symm
  have hkept := hd.keeps h [] (by simp; omega) (by simp) hqs hroot hu'
  rw [hu] at hkept
  obtain rfl := Option.some.inj hkept
  exact hnew (h.table qs u (by omega) hqs hu')

/-- A table on the last page but one: the call for 4 MiB takes the last page, and
fails. -/
theorem page_map_fails_cleanly_last_page :
    let s := (mmPageTableCreate
      { boot 0x200000#64 (fun _ => 0#64) with heapOffset := 0x3E000#64 }).2
    (mmPageMap s 0x23E000#64 0x400000#64 0x400000#64 AEGIS_PTE_FLAGS_DEFAULT).1 = -1 ∧
      ∀ w, translate (mmPageMap s 0x23E000#64 0x400000#64 0x400000#64
        AEGIS_PTE_FLAGS_DEFAULT).2.mem 0x23E000#64 w = translate s.mem 0x23E000#64 w := by
  intro s
  have hheap : HeapZero { boot 0x200000#64 (fun _ => 0#64) with heapOffset := 0x3E000#64 } :=
    ⟨rfl, by decide, by decide, by decide, fun _ _ _ => rfl⟩
  have hspace : AddressSpace s 0x23E000#64 :=
    addressSpace_of_ready (ready_of_create hheap (by decide))
  obtain ⟨hiff, hclean⟩ := page_map_fails_cleanly s 0x23E000#64 0x400000#64 0x400000#64
    AEGIS_PTE_FLAGS_DEFAULT hspace
  have hfail := hiff.mpr (by decide)
  exact ⟨hfail, (hclean hfail).2.2⟩

end AegisKernel.Mm
