import AegisKernel.Library.Runs
import AegisKernel.Mm.Spaces

/-!
# Memory management — several page tables

A client calls `mm_page_table_create`, and `mm_page_map`, `mm_page_unmap`,
`mm_page_walk` and `mm_page_protect` on the tables it was given, in any order.

* `Shows.call`, `Shows.create` — each call is answered as the spaces say.
* `page_tables_refine` — every answer of a run is the one of `Spaces`.
* `mapped_never_translates` — no address translates, in any table.
-/

namespace AegisKernel.Mm

open Library

-- ---------------------------------------------------------------------------
-- One call
-- ---------------------------------------------------------------------------

section Calls

variable {D : Nat → Word → Prop} {t₀ t : Client} {a : Spaces} {k : Nat} {sp : Space} {pt v : Word}

/-- Going down, the tables are built that the space lacks, as long as there are pages. -/
theorem Shows.descend (h : Shows D t₀ t a) (hsp : a.spaces[k]? = some sp) (ps is : List Word)
    {w : Word} (hkey : Key D k (ps ++ is)) (hw : t.node k ps = some w) :
    ((descend t.state w is).1 ≠ 0#64 ↔ (sp.enter a.left ps is).1 = true) ∧
      Shows D t₀ { t with state := (descend t.state w is).2 }
        ⟨(sp.enter a.left ps is).2.1, a.spaces.set k (sp.enter a.left ps is).2.2⟩ := by
  induction is generalizing t a sp ps w with
  | nil =>
    rw [List.append_nil] at hkey
    have hne : w ≠ 0#64 := (h.forest.closed k ps w hkey hw).ne_zero h.heap
    exact ⟨⟨fun _ => rfl, fun _ => hne⟩, h.set_self hsp⟩
  | cons i is ih =>
    have hcons : ps ++ i :: is = ps ++ [i] ++ is := by simp
    rw [hcons] at hkey
    have hkey' : Key D k (ps ++ [i]) := hkey.restrict ⟨is, rfl⟩
    have hpath := h.paths k sp (ps ++ [i]) hsp hkey' (by simp)
    have hnode : t.node k (ps ++ [i]) = child t.state.mem w i := by
      rw [Client.node, node_concat]
      change (t.node k ps).bind _ = _
      rw [hw, Option.bind_some]
    rw [hnode] at hpath
    rw [AegisKernel.Mm.descend]
    cases hpresent : presentEntry t.state.mem w i with
    | some e =>
      have hchild : child t.state.mem w i = some (e &&& ~~~0xFFF#64) := by
        rw [child, hpresent, Option.map_some]
      rw [Space.enter_of_mem (hpath.mp ⟨_, hchild⟩), pageTableGetEntry_present hpresent]
      have hu : t.node k (ps ++ [i]) = some (e &&& ~~~0xFFF#64) := hnode.trans hchild
      have hne := (h.forest.closed k _ _ hkey' hu).ne_zero h.heap
      dsimp only
      rw [if_neg hne]
      exact ih h hsp (ps ++ [i]) hkey hu
    | none =>
      have hchild : child t.state.mem w i = none := by rw [child, hpresent, Option.map_none]
      have hnot : ps ++ [i] ∉ sp.paths := by
        intro hmem
        obtain ⟨u, hu⟩ := hpath.mpr hmem
        exact absurd (hchild.symm.trans hu) (by simp)
      rcases pageTableGetEntry_taken h.heap hpresent with
        ⟨hfull, hget⟩ | ⟨u, offset, hget, hu0, htaken⟩
      · -- no page is left
        have hzero : a.left = 0 := h.left.symm.trans hfull
        rw [hget, hzero, Space.enter_full hnot]
        dsimp only
        rw [if_pos rfl]
        refine ⟨by simp, ?_⟩
        rw [← hzero]
        exact h.set_self hsp
      · obtain ⟨left', hl⟩ : ∃ left', a.left = left' + 1 := ⟨_, h.left.symm.trans htaken.left⟩
        have hpages : pagesLeft { t.state with heapOffset := offset } = left' :=
          Nat.succ.inj (htaken.left.symm.trans (h.left.trans hl))
        obtain ⟨hshows, hu⟩ := h.linked hsp hkey' hw hpresent htaken rfl hpages
        have hk := (List.getElem?_eq_some_iff.mp hsp).1
        have hspace : (a.spaces.set k (sp.extend (ps ++ [i])))[k]? =
            some (sp.extend (ps ++ [i])) := List.getElem?_set_self hk
        have hrest := ih hshows hspace (ps ++ [i]) hkey hu
        rw [hget, hl, Space.enter_extend hnot]
        dsimp only at hrest ⊢
        rw [if_neg hu0]
        rw [List.set_set] at hrest
        exact hrest

/-- Without `create` the lookups find the table at the path, if there is one. -/
theorem pageTableGetEntry_find (s : State) (w i : Word) :
    pageTableGetEntry s w i false = ((child s.mem w i).getD 0#64, s) := by
  have hmem : s.mem (w + 8#64 * i) = s.entry w i := rfl
  unfold pageTableGetEntry child presentEntry
  dsimp only
  rw [hmem]
  split
  · rfl
  · rfl

theorem lookupTables_find {s : State} (hne : ∀ is u, is <+: tablePath v →
    follow (child s.mem) pt is = some u → u ≠ 0#64) :
    lookupTables s pt v false = ((follow (child s.mem) pt (tablePath v)).getD 0#64, s) := by
  unfold lookupTables
  rw [pageTableGetEntry_find]
  unfold tablePath at hne ⊢
  simp only [follow]
  cases h₁ : child s.mem pt (pml4Idx v) with
  | none => rfl
  | some pdpt =>
    have hpdpt : pdpt ≠ 0#64 := hne [pml4Idx v] pdpt ⟨_, rfl⟩ (by simp [follow, h₁])
    simp only [Option.getD_some, Option.bind_some, hpdpt, if_false]
    rw [pageTableGetEntry_find]
    cases h₂ : child s.mem pdpt (pdptIdx v) with
    | none => rfl
    | some pd =>
      have hpd : pd ≠ 0#64 := hne [pml4Idx v, pdptIdx v] pd ⟨_, rfl⟩ (by simp [follow, h₁, h₂])
      simp only [Option.getD_some, Option.bind_some, hpd, if_false]
      rw [pageTableGetEntry_find]
      cases child s.mem pd (pdIdx v) with
      | none => rfl
      | some w => rfl

/-- What the lookups without `create` say about the space. -/
theorem Shows.find (h : Shows D t₀ t a) (hpt : t.tables[k]? = some pt)
    (hsp : a.spaces[k]? = some sp) (hD : D k (pml4Idx v)) :
    ∃ w, lookupTables t.state pt v false = (w, t.state) ∧
      (w ≠ 0#64 ↔ tablePath v ∈ sp.paths) := by
  have hkey := key_tablePath hD
  have hnode : ∀ is, t.node k is = follow (child t.state.mem) pt is := fun is =>
    node_of_follow hpt
  have hne : ∀ is u, Key D k is → t.node k is = some u → u ≠ 0#64 := fun is u hk hu =>
    (h.forest.closed k is u hk hu).ne_zero h.heap
  refine ⟨_, lookupTables_find fun is u hpre hu => ?_, ?_⟩
  · exact hne is u (hkey.restrict hpre) ((hnode is).trans hu)
  · rw [← hnode, ← h.paths k sp (tablePath v) hsp hkey (by simp [tablePath])]
    cases hu : t.node k (tablePath v) with
    | none => simp
    | some u => simp [hne _ u hkey hu]

theorem index_ptIdx (v : Word) : Index (ptIdx v) := index_and _

theorem node_root (hpt : t.tables[k]? = some pt) : t.node k [] = some pt := node_nil.trans hpt

theorem Shows.map (h : Shows D t₀ t a) (hpt : t.tables[k]? = some pt) (hsp : a.spaces[k]? = some sp)
    (hD : D k (pml4Idx v)) (hleaf : ¬ D k (ptIdx v)) (p flags : Word) :
    let r := TableCall.answer t.state pt (.map v p flags)
    let e := sp.perform a.left (.map v p flags)
    r.1 = e.1 ∧ Shows D t₀ { t with state := r.2 } ⟨e.2.1, a.spaces.set k e.2.2⟩ := by
  obtain ⟨hiff, hshows⟩ := h.descend hsp [] (tablePath v) (key_tablePath hD) (node_root hpt)
  intro r e
  have hr : r = TableCall.answer t.state pt (.map v p flags) := rfl
  have he : e = sp.perform a.left (.map v p flags) := rfl
  rw [TableCall.answer, mmPageMap, lookupTables_eq] at hr
  rw [Space.perform] at he
  rcases hdescend : AegisKernel.Mm.descend t.state pt (tablePath v) with ⟨w, s'⟩
  rcases henter : sp.enter a.left [] (tablePath v) with ⟨ok, left', sp'⟩
  rw [hdescend, henter] at hiff hshows
  rw [hdescend] at hr
  rw [henter] at he
  dsimp only at hiff hshows hr he
  cases ok with
  | false =>
    have hnull : w = 0#64 := by simpa using hiff
    rw [if_pos hnull] at hr
    rw [hr, he]
    exact ⟨rfl, hshows⟩
  | true =>
    have hk := (List.getElem?_eq_some_iff.mp hsp).1
    have hstore := hshows.stored hpt (List.getElem?_set_self hk) (index_ptIdx v) hleaf
      ((p &&& ~~~0xFFF#64) ||| flags ||| AEGIS_PTE_PRESENT)
    rw [List.set_set] at hstore
    rw [if_neg (hiff.mpr rfl)] at hr
    rw [hr, he]
    exact ⟨rfl, hstore⟩

theorem Shows.unmap (h : Shows D t₀ t a) (hpt : t.tables[k]? = some pt)
    (hsp : a.spaces[k]? = some sp) (hD : D k (pml4Idx v)) (hleaf : ¬ D k (ptIdx v)) :
    Shows D t₀ { t with state := mmPageUnmap t.state pt v }
      ⟨a.left, a.spaces.set k
        (if tablePath v ∈ sp.paths then sp.store (ptIdx v) 0#64 else sp)⟩ := by
  obtain ⟨w, hfind, hiff⟩ := h.find hpt hsp hD
  rw [mmPageUnmap, hfind]
  dsimp only
  by_cases hmem : tablePath v ∈ sp.paths
  · rw [if_pos hmem, if_neg (hiff.mpr hmem)]
    exact h.stored hpt hsp (index_ptIdx v) hleaf 0#64
  · have hnull : w = 0#64 := not_not.mp fun hne => hmem (hiff.mp hne)
    rw [if_neg hmem, if_pos hnull]
    exact h.set_self hsp

/-- The address of an entry is not NULL. -/
theorem Shows.entry_ne_zero (h : Shows D t₀ t a) (hpt : t.tables[k]? = some pt) (v : Word) :
    pt + 8#64 * ptIdx v ≠ 0#64 := by
  intro hzero
  have hentry := (h.table hpt).entry_toNat h.heap (index_ptIdx v)
  have hlower := (h.table hpt).lower
  have hpos := h.heap.pos
  have hnat : (0#64 : Word).toNat = 0 := rfl
  rw [hzero, hnat] at hentry
  omega

theorem Shows.walk_create (h : Shows D t₀ t a) (hpt : t.tables[k]? = some pt)
    (hsp : a.spaces[k]? = some sp) (hD : D k (pml4Idx v)) (hleaf : ¬ D k (ptIdx v)) :
    let r := TableCall.answer t.state pt (.walk v true)
    let e := sp.perform a.left (.walk v true)
    r.1 = e.1 ∧ Shows D t₀ { t with state := r.2 } ⟨e.2.1, a.spaces.set k e.2.2⟩ := by
  obtain ⟨hiff, hshows⟩ := h.descend hsp [] (tablePath v) (key_tablePath hD) (node_root hpt)
  intro r e
  have hr : r = TableCall.answer t.state pt (.walk v true) := rfl
  have he : e = sp.perform a.left (.walk v true) := rfl
  rw [TableCall.answer, mmPageWalk, lookupTables_eq] at hr
  rw [Space.perform] at he
  rcases hdescend : AegisKernel.Mm.descend t.state pt (tablePath v) with ⟨w, s'⟩
  rcases henter : sp.enter a.left [] (tablePath v) with ⟨ok, left', sp'⟩
  rw [hdescend, henter] at hiff hshows
  rw [hdescend] at hr
  rw [henter] at he
  dsimp only at hiff hshows hr he
  cases ok with
  | false =>
    have hnull : w = 0#64 := by simpa using hiff
    rw [if_pos hnull] at hr
    rw [hr, he]
    exact ⟨rfl, hshows⟩
  | true =>
    have hk := (List.getElem?_eq_some_iff.mp hsp).1
    have hentry := hshows.entries k pt sp' (ptIdx v) hpt (List.getElem?_set_self hk)
      (index_ptIdx v) hleaf
    rw [if_neg (hiff.mpr rfl)] at hr
    dsimp only at hr
    rw [if_neg (h.entry_ne_zero hpt v)] at hr
    rw [hr, he]
    exact ⟨congrArg (fun x => Result.found (some x)) hentry, hshows⟩

/-- `mm_page_walk` without `create`. -/
theorem Shows.walk (h : Shows D t₀ t a) (hpt : t.tables[k]? = some pt)
    (hsp : a.spaces[k]? = some sp) (hD : D k (pml4Idx v)) :
    mmPageWalk t.state pt v false =
      (if tablePath v ∈ sp.paths then pt + 8#64 * ptIdx v else 0#64, t.state) := by
  obtain ⟨w, hfind, hiff⟩ := h.find hpt hsp hD
  rw [mmPageWalk, hfind]
  dsimp only
  by_cases hmem : tablePath v ∈ sp.paths
  · rw [if_pos hmem, if_neg (hiff.mpr hmem)]
  · have hnull : w = 0#64 := not_not.mp fun hne => hmem (hiff.mp hne)
    rw [if_neg hmem, if_pos hnull]

theorem Shows.walk_find (h : Shows D t₀ t a) (hpt : t.tables[k]? = some pt)
    (hsp : a.spaces[k]? = some sp) (hD : D k (pml4Idx v)) (hleaf : ¬ D k (ptIdx v)) :
    let r := TableCall.answer t.state pt (.walk v false)
    let e := sp.perform a.left (.walk v false)
    r.1 = e.1 ∧ Shows D t₀ { t with state := r.2 } ⟨e.2.1, a.spaces.set k e.2.2⟩ := by
  have hentry : t.state.mem (pt + 8#64 * ptIdx v) = sp.entries (ptIdx v) :=
    h.entries k pt sp (ptIdx v) hpt hsp (index_ptIdx v) hleaf
  intro r e
  have hr : r = TableCall.answer t.state pt (.walk v false) := rfl
  have he : e = sp.perform a.left (.walk v false) := rfl
  rw [TableCall.answer, h.walk hpt hsp hD] at hr
  rw [Space.perform] at he
  dsimp only at hr
  rw [hr, he]
  refine ⟨?_, h.set_self hsp⟩
  by_cases hmem : tablePath v ∈ sp.paths
  · rw [if_pos hmem, if_pos hmem, if_neg (h.entry_ne_zero hpt v), hentry]
  · rw [if_neg hmem, if_neg hmem, if_pos rfl]

theorem Shows.protect (h : Shows D t₀ t a) (hpt : t.tables[k]? = some pt)
    (hsp : a.spaces[k]? = some sp) (hD : D k (pml4Idx v)) (hleaf : ¬ D k (ptIdx v))
    (flags : Word) :
    let r := TableCall.answer t.state pt (.protect v flags)
    let e := sp.perform a.left (.protect v flags)
    r.1 = e.1 ∧ Shows D t₀ { t with state := r.2 } ⟨e.2.1, a.spaces.set k e.2.2⟩ := by
  have hentry : t.state.mem (pt + 8#64 * ptIdx v) = sp.entries (ptIdx v) :=
    h.entries k pt sp (ptIdx v) hpt hsp (index_ptIdx v) hleaf
  intro r e
  have hr : r = TableCall.answer t.state pt (.protect v flags) := rfl
  have he : e = sp.perform a.left (.protect v flags) := rfl
  rw [TableCall.answer, mmPageProtect, h.walk hpt hsp hD] at hr
  rw [Space.perform] at he
  dsimp only at hr he
  by_cases hmem : tablePath v ∈ sp.paths
  · rw [if_pos hmem, hentry] at hr
    by_cases hpresent : sp.entries (ptIdx v) &&& AEGIS_PTE_PRESENT = 0#64
    · rw [if_pos (.inr hpresent)] at hr
      rw [if_neg fun hp => hp.2 hpresent] at he
      rw [hr, he]
      exact ⟨rfl, h.set_self hsp⟩
    · have hstay : ¬ (pt + 8#64 * ptIdx v = 0#64 ∨
          sp.entries (ptIdx v) &&& AEGIS_PTE_PRESENT = 0#64) := by
        rintro (hzero | hp)
        · exact h.entry_ne_zero hpt v hzero
        · exact hpresent hp
      rw [if_neg hstay] at hr
      rw [if_pos ⟨hmem, hpresent⟩] at he
      rw [hr, he]
      exact ⟨rfl, h.stored hpt hsp (index_ptIdx v) hleaf _⟩
  · rw [if_neg hmem, if_pos (.inl rfl)] at hr
    rw [if_neg fun hp => hmem hp.1] at he
    rw [hr, he]
    exact ⟨rfl, h.set_self hsp⟩

/-- Each call is answered as its space says. -/
theorem Shows.call (h : Shows D t₀ t a) (hpt : t.tables[k]? = some pt)
    (hsp : a.spaces[k]? = some sp) (call : TableCall) (hD : D k (pml4Idx call.vaddr))
    (hleaf : ¬ D k (ptIdx call.vaddr)) :
    let r := call.answer t.state pt
    let e := sp.perform a.left call
    r.1 = e.1 ∧ Shows D t₀ { t with state := r.2 } ⟨e.2.1, a.spaces.set k e.2.2⟩ := by
  cases call with
  | map v p flags => exact h.map hpt hsp hD hleaf p flags
  | unmap v => exact ⟨rfl, h.unmap hpt hsp hD hleaf⟩
  | walk v create =>
    cases create with
    | true => exact h.walk_create hpt hsp hD hleaf
    | false => exact h.walk_find hpt hsp hD hleaf
  | protect v flags => exact h.protect hpt hsp hD hleaf flags

/-- A new table is an empty space. -/
theorem Shows.create (h : Shows D t₀ t a) :
    t.answer .create = a.answer .create ∧ Shows D t₀ (t.step .create) (a.step .create) := by
  unfold Client.answer Client.step Spaces.answer Spaces.step Client.serve Spaces.serve
  dsimp only
  unfold mmPageTableCreate
  rcases pageTableAlloc_taken h.heap with ⟨hfull, halloc⟩ | ⟨u, offset, halloc, hu0, hnew⟩
  · have hzero : a.left = 0 := h.left.symm.trans hfull
    rw [halloc, hzero]
    dsimp only
    rw [if_pos rfl]
    exact ⟨rfl, h⟩
  · obtain ⟨left', hl⟩ : ∃ left', a.left = left' + 1 := ⟨_, h.left.symm.trans hnew.left⟩
    rw [halloc, hl]
    dsimp only
    rw [if_neg hu0]
    refine ⟨rfl, ?_⟩
    have hg := h.grown_create hnew
    have hspace : ∀ k' sp', (a.spaces ++ [Space.empty])[k']? = some sp' →
        k' = t.tables.length ∧ sp' = Space.empty ∨
          k' ≠ t.tables.length ∧ a.spaces[k']? = some sp' := by
      intro k' sp' hsp'
      rw [getElem?_concat, ← h.length] at hsp'
      split at hsp'
      · rename_i hk'
        exact .inl ⟨hk', (Option.some.inj hsp').symm⟩
      · rename_i hk'
        exact .inr ⟨hk', hsp'⟩
    refine ⟨hnew.heap, h.forest_grown hg, ?_, ?_, ?_, ?_, ?_, ?_⟩
    · rw [List.length_append, List.length_append, h.length]
      rfl
    · have hleft := h.left
      have htaken := hnew.left
      dsimp only
      omega
    · intro k' sp' is hsp' hk' his
      rw [hg.node k' is hk', if_neg fun hp => his hp.2]
      rcases hspace k' sp' hsp' with ⟨rfl, rfl⟩ | ⟨-, hsp'⟩
      · -- the tree has no other node
        have hnil : t.node t.tables.length is = none := by
          rw [Client.node, Library.node, List.getElem?_eq_none (Nat.le_refl _), Option.bind_none]
        simp [hnil, Space.empty]
      · exact h.paths k' sp' is hsp' hk' his
    · intro k' pt' sp' j hpt' hsp' hj hDj
      dsimp only at hpt'
      rw [getElem?_concat] at hpt'
      rcases hspace k' sp' hsp' with ⟨rfl, rfl⟩ | ⟨hne, hsp'⟩
      · rw [if_pos rfl] at hpt'
        obtain rfl := Option.some.inj hpt'
        exact hnew.empty j hj
      · rw [if_neg hne] at hpt'
        exact h.entries k' pt' sp' j hpt' hsp' hj hDj
    · intro k' is u' j hk' hlen' hu' hj
      have hnil : ¬ (k' = t.tables.length ∧ is = []) := by
        rintro ⟨-, rfl⟩
        exact absurd hlen' (by simp)
      rw [hg.node k' is hk', if_neg hnil] at hu'
      exact h.last k' is u' j hk' hlen' hu' hj
    · exact ⟨h.frame.area, h.frame.offset_taken hnew.left hnew.offset_eq,
        h.frame.nodes_grown hg, h.frame.mem⟩

end Calls

-- ---------------------------------------------------------------------------
-- Runs
-- ---------------------------------------------------------------------------

/-- The calls keep to the directories. -/
def Obeys (D : Nat → Word → Prop) : TableOp → Prop
  | .create => True
  | .on k call => D k (pml4Idx call.vaddr) ∧ ¬ D k (ptIdx call.vaddr)

theorem obeys_of_split {ops : List TableOp} (h : Split ops) :
    ∀ op ∈ ops, Obeys (Directory ops) op := by
  intro op hop
  cases op with
  | create => trivial
  | on k call => exact ⟨h k call hop, fun hD => hD call hop rfl⟩

section Runs

variable {D : Nat → Word → Prop} {t₀ t : Client} {a : Spaces} {s : State} {ops : List TableOp}

theorem shows_start (D : Nat → Word → Prop) (hs : HeapZero s) :
    Shows D ⟨s, []⟩ ⟨s, []⟩ ⟨pagesLeft s, []⟩ := by
  have hnode : ∀ (k : Nat) is,
      Library.node (child s.mem) (fun k => ([] : List Word)[k]?) k is = none :=
    fun k is => by rw [Library.node, List.getElem?_nil, Option.bind_none]
  refine ⟨hs, ⟨?_, ?_⟩, rfl, rfl, ?_, ?_, ?_, frame_refl D _⟩
  · intro k is u _ hu
    exact absurd ((hnode k is).symm.trans hu) (by simp)
  · intro k is k' is' u _ _ hu _
    exact absurd ((hnode k is).symm.trans hu) (by simp)
  · intro k sp is hsp
    exact absurd hsp (by simp)
  · intro k pt sp i hpt
    exact absurd hpt (by simp)
  · intro k is u j _ _ hu
    exact absurd ((hnode k is).symm.trans hu) (by simp)

theorem Shows.step (h : Shows D t₀ t a) {op : TableOp} (hop : Obeys D op) :
    t.answer op = a.answer op ∧ Shows D t₀ (t.step op) (a.step op) := by
  cases op with
  | create => exact h.create
  | on k call =>
    obtain ⟨hD, hleaf⟩ := hop
    have hboth := h.getElem? k
    unfold Client.answer Client.step Spaces.answer Spaces.step Client.serve Spaces.serve
    dsimp only
    cases hpt : t.tables[k]? with
    | none =>
      cases hsp : a.spaces[k]? with
      | none => exact ⟨rfl, h⟩
      | some sp =>
        obtain ⟨pt, hpt'⟩ := hboth.mpr ⟨sp, hsp⟩
        exact absurd (hpt.symm.trans hpt') (by simp)
    | some pt =>
      obtain ⟨sp, hsp⟩ := hboth.mp ⟨pt, hpt⟩
      rw [hsp]
      obtain ⟨hresult, hshows⟩ := h.call hpt hsp call hD hleaf
      exact ⟨congrArg some hresult, hshows⟩

/-- A run is answered as the spaces say, whatever is heard of the answers, and they meet
the same conditions. -/
theorem shows_run (F : TableOp → Option Result → Option Result)
    (P : TableOp → Option Result → Prop) (h : Shows D t₀ t a) (hops : ∀ op ∈ ops, Obeys D op) :
    outputs Client.step (fun t op => F op (t.answer op)) t ops =
        outputs Spaces.step (fun a op => F op (a.answer op)) a ops ∧
      (Meets Client.step (fun t op => P op (t.answer op)) t ops ↔
        Meets Spaces.step (fun a op => P op (a.answer op)) a ops) ∧
      Shows D t₀ (run Client.step t ops) (run Spaces.step a ops) := by
  induction ops generalizing t a with
  | nil => exact ⟨rfl, Iff.rfl, h⟩
  | cons op ops ih =>
    obtain ⟨hanswer, hshows⟩ := h.step (hops op (List.mem_cons_self ..))
    obtain ⟨hout, hmeets, hend⟩ := ih hshows fun op' hop' => hops op' (List.mem_cons_of_mem _ hop')
    refine ⟨?_, ?_, hend⟩
    · rw [outputs, outputs, hanswer, hout]
    · rw [Meets, Meets, hanswer, hmeets]

/-- **Page tables refine their spaces.** From a zeroed heap on, in every run of
`mm_page_table_create` and of calls on the tables it returns, in any order and with any
arguments, in which no index of a table is both a top-level and a last-level index:
every answer is the one of `Spaces`. -/
theorem page_tables_refine (s : State) (ops : List TableOp) (hs : HeapZero s)
    (hsplit : Split ops) :
    outputs Client.step Client.answer ⟨s, []⟩ ops =
      outputs Spaces.step Spaces.answer ⟨pagesLeft s, []⟩ ops :=
  (shows_run (fun _ r => r) (fun _ _ => True) (shows_start (Directory ops) hs)
    (obeys_of_split hsplit)).1

/-- Two tables: a page is mapped in one and looked up in the other. -/
def twoTables : List TableOp :=
  [.create, .create, .on 0 (.map 0x1000#64 0x5000#64 AEGIS_PTE_FLAGS_DEFAULT),
    .on 1 (.walk 0x1000#64 false)]

theorem twoTables_split : Split twoTables := by
  have hcall : ∀ k call, .on k call ∈ twoTables → call.vaddr = 0x1000#64 := by
    intro k call hmem
    simp only [twoTables, List.mem_cons, TableOp.on.injEq, reduceCtorEq, List.not_mem_nil,
      or_false, false_or] at hmem
    rcases hmem with ⟨-, rfl⟩ | ⟨-, rfl⟩
    · rfl
    · rfl
  intro k call hmem call' hmem'
  rw [hcall k call hmem, hcall k call' hmem']
  decide

/-- After `mm_init`. -/
theorem page_tables_refine_two :
    let s := mmInit (boot 0x200000#64 fun _ => 0#64)
    outputs Client.step Client.answer ⟨s, []⟩ twoTables =
      outputs Spaces.step Spaces.answer ⟨pagesLeft s, []⟩ twoTables := by
  have hcleared : Cleared 0x200000#64 fun _ => 0#64 := ⟨by decide, by decide, fun _ _ _ => rfl⟩
  exact page_tables_refine _ twoTables (heapZero_init hcleared (by decide) (by decide))
    twoTables_split

/-- The last-level table of such an address is empty. -/
theorem Shows.translate_none (h : Shows D t₀ t a) {k : Nat} {pt v : Word}
    (hpt : t.tables[k]? = some pt) (hD : D k (pml4Idx v)) : translate t.state.mem pt v = none := by
  have hkey := key_tablePath hD
  have hnode : ∀ is, tableAt t.state.mem pt is = t.node k is := fun is =>
    (tableAt_eq_follow t.state.mem pt is).trans (node_of_follow hpt).symm
  rw [translate_eq]
  · rw [hnode]
    cases hw : t.node k (tablePath v) with
    | none => rfl
    | some w =>
      have hzero := h.last k (tablePath v) w (ptIdx v) hkey rfl hw (index_ptIdx v)
      rw [Option.bind_some, presentEntry_zero hzero]
      rfl
  · intro is w hpre hw
    rw [hnode] at hw
    exact (h.forest.closed k is w (hkey.restrict hpre) hw).lt_two_pow h.heap

/-- **Nothing that is mapped translates.** After such a run the four-level walk finds no
page for an address, in any of the tables, unless the top-level index of the address is
a last-level index of some call on that table. -/
theorem mapped_never_translates (s : State) (ops : List TableOp) (hs : HeapZero s)
    (hsplit : Split ops) :
    let t := run Client.step ⟨s, []⟩ ops
    ∀ k pt v, t.tables[k]? = some pt → Directory ops k (pml4Idx v) →
      translate t.state.mem pt v = none := by
  intro t k pt v hpt hD
  obtain ⟨-, -, hshows⟩ := shows_run (fun _ r => r) (fun _ _ => True)
    (shows_start (Directory ops) hs) (obeys_of_split hsplit)
  exact hshows.translate_none hpt hD

/-- The page that was mapped. -/
theorem mapped_never_translates_two :
    translate (run Client.step ⟨boot 0x200000#64 fun _ => 0#64, []⟩ twoTables).state.mem
      0x200000#64 0x1000#64 = none := by
  refine mapped_never_translates _ twoTables heapZero_boot twoTables_split 0 0x200000#64
    0x1000#64 (by decide) fun call hmem => ?_
  have hD : Directory twoTables 0 (pml4Idx 0x1000#64) :=
    twoTables_split 0 (.map 0x1000#64 0x5000#64 AEGIS_PTE_FLAGS_DEFAULT) (by simp [twoTables])
  exact hD call hmem

end Runs

end AegisKernel.Mm
