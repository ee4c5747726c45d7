import AegisKernel.Library.Forest
import AegisKernel.Mm.Failure
import AegisKernel.Mm.BootTable

/-!
# Memory management — page tables as spaces

Every page table is handed out by `mm_page_table_create`, and all of them take
their tables from one heap. `mm_page_map` builds the tables on the way to an address
and stores the entry in the top-level table. So long as no index is used for both
(`Split`), a page table is

* a set of paths, one for each table it has taken from the heap, and
* one array of 512 entries, which all addresses share by their bits 20 to 12.

`Spaces` is that: the page tables, and how many pages are left.

* `Shows` — memory represents the spaces; `Frame` says what has changed since an
  earlier state.
* `Shows.linked`, `Shows.stored` — the two ways in which memory changes.
* `Shows.elsewhere` — what is written to no table leaves the spaces as they are.
-/

namespace AegisKernel.Mm

open Library

-- ---------------------------------------------------------------------------
-- The calls
-- ---------------------------------------------------------------------------

/-- What a caller is told; `found` is the entry that the pointer `mm_page_walk` returns
points to. -/
inductive Result
  | created (ok : Bool)
  | code (c : Int)
  | unmapped
  | found (entry : Option Word)
deriving DecidableEq

def TableCall.answer (s : State) (pt : Word) : TableCall → Result × State
  | .map v p flags =>
    let (code, s') := mmPageMap s pt v p flags
    (.code code, s')
  | .unmap v => (.unmapped, mmPageUnmap s pt v)
  | .walk v create =>
    let (entry, s') := mmPageWalk s pt v create
    (.found (if entry = 0#64 then none else some (s'.mem entry)), s')
  | .protect v flags =>
    let (code, s') := mmPageProtect s pt v flags
    (.code code, s')

/-- `mm_page_table_create`, or a call on the `k`-th table it returned. -/
inductive TableOp
  | create
  | on (k : Nat) (call : TableCall)

/-- The state of `mm.c` with the tables handed out. -/
structure Client where
  state : State
  tables : List Word

/-- There is no call on a table that was not handed out. -/
def Client.serve (t : Client) : TableOp → Option Result × Client
  | .create =>
    let (pt, s) := mmPageTableCreate t.state
    if pt = 0#64 then (some (.created false), { t with state := s })
    else (some (.created true), ⟨s, t.tables ++ [pt]⟩)
  | .on k call =>
    match t.tables[k]? with
    | none => (none, t)
    | some pt =>
      let (result, s) := call.answer t.state pt
      (some result, { t with state := s })

def Client.step (t : Client) (op : TableOp) : Client := (t.serve op).2

def Client.answer (t : Client) (op : TableOp) : Option Result := (t.serve op).1

-- ---------------------------------------------------------------------------
-- What the tables are
-- ---------------------------------------------------------------------------

/-- The paths of the tables below a top-level table, and the entries stored in it. -/
structure Space where
  paths : List (List Word)
  entries : Word → Word

def Space.empty : Space := ⟨[], fun _ => 0#64⟩

def Space.store (sp : Space) (i value : Word) : Space :=
  { sp with entries := Function.update sp.entries i value }

@[simp] theorem Space.store_self (sp : Space) (i value : Word) :
    (sp.store i value).entries i = value := Function.update_self ..

theorem Space.store_of_ne (sp : Space) {i j : Word} (h : j ≠ i) (value : Word) :
    (sp.store i value).entries j = sp.entries j := Function.update_of_ne h ..

def Space.extend (sp : Space) (path : List Word) : Space := { sp with paths := path :: sp.paths }

/-- Go down from the table at `ps`, with so many pages left for the tables missing;
whether they sufficed, and what is left of them. -/
def Space.enter (sp : Space) (left : Nat) (ps : List Word) : List Word → Bool × Nat × Space
  | [] => (true, left, sp)
  | i :: is =>
    if ps ++ [i] ∈ sp.paths then sp.enter left (ps ++ [i]) is
    else
      match left with
      | 0 => (false, 0, sp)
      | left + 1 => (sp.extend (ps ++ [i])).enter left (ps ++ [i]) is

section Enter

variable {sp : Space} {ps is : List Word} {i : Word} {left : Nat}

theorem Space.enter_of_mem (h : ps ++ [i] ∈ sp.paths) :
    sp.enter left ps (i :: is) = sp.enter left (ps ++ [i]) is := by
  rw [Space.enter.eq_def]
  exact if_pos h

theorem Space.enter_full (h : ps ++ [i] ∉ sp.paths) :
    sp.enter 0 ps (i :: is) = (false, 0, sp) := by
  rw [Space.enter.eq_def]
  exact if_neg h

theorem Space.enter_extend (h : ps ++ [i] ∉ sp.paths) :
    sp.enter (left + 1) ps (i :: is) =
      (sp.extend (ps ++ [i])).enter left (ps ++ [i]) is := by
  rw [Space.enter.eq_def]
  exact if_neg h

end Enter

def Space.perform (sp : Space) (left : Nat) : TableCall → Result × Nat × Space
  | .map v p flags =>
    match sp.enter left [] (tablePath v) with
    | (false, left', sp') => (.code (-1), left', sp')
    | (true, left', sp') =>
      (.code 0, left', sp'.store (ptIdx v) ((p &&& ~~~0xFFF#64) ||| flags ||| AEGIS_PTE_PRESENT))
  | .unmap v =>
    (.unmapped, left, if tablePath v ∈ sp.paths then sp.store (ptIdx v) 0#64 else sp)
  | .walk v true =>
    match sp.enter left [] (tablePath v) with
    | (false, left', sp') => (.found none, left', sp')
    | (true, left', sp') => (.found (some (sp'.entries (ptIdx v))), left', sp')
  | .walk v false =>
    (.found (if tablePath v ∈ sp.paths then some (sp.entries (ptIdx v)) else none), left, sp)
  | .protect v flags =>
    let entry := sp.entries (ptIdx v)
    if tablePath v ∈ sp.paths ∧ entry &&& AEGIS_PTE_PRESENT ≠ 0#64 then
      (.code 0, left, sp.store (ptIdx v) ((entry &&& ~~~0xFFF#64) ||| flags))
    else (.code (-1), left, sp)

structure Spaces where
  left : Nat
  spaces : List Space

def Spaces.serve (t : Spaces) : TableOp → Option Result × Spaces
  | .create =>
    match t.left with
    | 0 => (some (.created false), t)
    | left + 1 => (some (.created true), ⟨left, t.spaces ++ [Space.empty]⟩)
  | .on k call =>
    match t.spaces[k]? with
    | none => (none, t)
    | some sp =>
      let (result, left, sp') := sp.perform t.left call
      (some result, ⟨left, t.spaces.set k sp'⟩)

def Spaces.step (t : Spaces) (op : TableOp) : Spaces := (t.serve op).2

def Spaces.answer (t : Spaces) (op : TableOp) : Option Result := (t.serve op).1

/-- The top-level indices that are no last-level index of a call on the table. -/
def Directory (ops : List TableOp) (k : Nat) (i : Word) : Prop :=
  ∀ call, .on k call ∈ ops → ptIdx call.vaddr ≠ i

/-- In each table, no index is a top-level index of one call and a last-level index
of another. -/
def Split (ops : List TableOp) : Prop :=
  ∀ k call, .on k call ∈ ops → Directory ops k (pml4Idx call.vaddr)

-- ---------------------------------------------------------------------------
-- The tables as a forest
-- ---------------------------------------------------------------------------

/-- The table linked at an entry, as `page_table_get_entry` reads it. -/
def child (mem : Word → Word) (t i : Word) : Option Word :=
  (presentEntry mem t i).map fun e => e &&& ~~~0xFFF#64

/-- A path of at most three indices, the first of them in the directory. -/
structure Key (D : Nat → Word → Prop) (k : Nat) (is : List Word) : Prop where
  short : is.length ≤ 3
  index : ∀ i ∈ is, Index i
  head : ∀ i, is.head? = some i → D k i

section Keys

variable {D : Nat → Word → Prop} {k : Nat} {is : List Word} {i : Word}

/-- Initial parts are paths as well. -/
theorem Key.restrict {js : List Word} (h : Key D k js) (hpre : is <+: js) : Key D k is := by
  obtain ⟨rest, rfl⟩ := hpre
  refine ⟨?_, fun j hj => h.index j (List.mem_append_left _ hj), fun j hj => ?_⟩
  · have hshort := h.short
    rw [List.length_append] at hshort
    omega
  · exact h.head j (by rw [List.head?_append, hj, Option.some_or])

theorem Key.initial (h : Key D k (is ++ [i])) : Key D k is := h.restrict ⟨[i], rfl⟩

theorem Key.last (h : Key D k (is ++ [i])) : Index i := h.index i (by simp)

theorem key_nil (D : Nat → Word → Prop) (k : Nat) : Key D k [] :=
  ⟨by simp, by simp, by simp⟩

theorem key_tablePath {v : Word} (h : D k (pml4Idx v)) : Key D k (tablePath v) := by
  refine ⟨by simp [tablePath], index_tablePath v, fun i hi => ?_⟩
  obtain rfl : pml4Idx v = i := by simpa [tablePath] using hi
  exact h

theorem key_root (h : Key D k [i]) : D k i := h.head i rfl

end Keys

theorem tableAt_eq_follow (mem : Word → Word) (t : Word) (is : List Word) :
    tableAt mem t is = follow (child mem) t is := by
  induction is generalizing t with
  | nil => rfl
  | cons i is ih =>
    rw [tableAt, follow, child]
    cases presentEntry mem t i with
    | none => rfl
    | some e => exact ih (e &&& ~~~0xFFF#64)

theorem child_congr {s s' : State} {t i : Word} (h : s'.entry t i = s.entry t i) :
    child s'.mem t i = child s.mem t i := by
  unfold child
  rw [presentEntry_congr h]

/-- The table at a path of a table handed out. -/
def Client.node (t : Client) : Nat → List Word → Option Word :=
  Library.node (child t.state.mem) fun k => t.tables[k]?

/-- The words of the tables handed out and of those below them. -/
def TableWord (D : Nat → Word → Prop) (t : Client) (x : Word) : Prop :=
  ∃ k is u j, Key D k is ∧ t.node k is = some u ∧ Index j ∧ x = u + 8#64 * j

/-- How much of the heap is in use after `n` pages more. -/
def withPages (offset n : Nat) : Nat := if n = 0 then offset else roundUp 4096 offset + 4096 * n

/-- Since `t₀` pages were taken from the heap, and only entries of tables were
written. -/
structure Frame (D : Nat → Word → Prop) (t₀ t : Client) : Prop where
  area : t.state.heapArea = t₀.state.heapArea
  offset : ∃ n, pagesLeft t₀.state = pagesLeft t.state + n ∧
    t.state.heapOffset.toNat = withPages t₀.state.heapOffset.toNat n
  nodes : ∀ k is u, Key D k is → t.node k is = some u →
    t₀.node k is = some u ∨ t₀.state.heapArea.toNat + t₀.state.heapOffset.toNat ≤ u.toNat
  mem : ∀ x, ¬ TableWord D t₀ x →
    x.toNat < t₀.state.heapArea.toNat + t₀.state.heapOffset.toNat ∨
      t₀.state.heapArea.toNat + KERNEL_HEAP_SIZE.toNat ≤ x.toNat →
    t.state.mem x = t₀.state.mem x

/-- The tables show what the spaces say. -/
structure Shows (D : Nat → Word → Prop) (t₀ t : Client) (a : Spaces) : Prop where
  heap : HeapZero t.state
  forest : Forest (child t.state.mem) (fun k => t.tables[k]?) (Key D) (Table t.state)
  length : t.tables.length = a.spaces.length
  left : pagesLeft t.state = a.left
  paths : ∀ k sp is, a.spaces[k]? = some sp → Key D k is → is ≠ [] →
    ((∃ u, t.node k is = some u) ↔ is ∈ sp.paths)
  entries : ∀ k pt sp i, t.tables[k]? = some pt → a.spaces[k]? = some sp → Index i → ¬ D k i →
    t.state.entry pt i = sp.entries i
  -- nothing is ever stored in a last-level table
  last : ∀ k is u j, Key D k is → is.length = 3 → t.node k is = some u → Index j →
    t.state.entry u j = 0#64
  frame : Frame D t₀ t

section Frame

variable {D : Nat → Word → Prop} {t₀ t t' : Client} {k : Nat} {is : List Word} {w i value : Word}

theorem withPages_succ (offset n : Nat) :
    roundUp 4096 (withPages offset n) + 4096 = withPages offset (n + 1) := by
  unfold withPages
  rw [if_neg (Nat.succ_ne_zero n)]
  split
  · rename_i hn
    rw [hn]
  · have hdvd : 4096 ∣ roundUp 4096 offset + 4096 * n :=
      Nat.dvd_add (dvd_roundUp 4096 offset) (Nat.dvd_mul_right 4096 n)
    rw [roundUp_eq_self (by omega) hdvd]
    omega

theorem le_withPages (offset n : Nat) : offset ≤ withPages offset n := by
  unfold withPages
  split
  · exact Nat.le_refl offset
  · exact Nat.le_add_right_of_le (le_roundUp (by omega))

theorem frame_refl (D : Nat → Word → Prop) (t : Client) : Frame D t t :=
  ⟨rfl, ⟨0, rfl, rfl⟩, fun _ _ _ _ hu => .inl hu, fun _ _ _ => rfl⟩

theorem Frame.offset_le (h : Frame D t₀ t) :
    t₀.state.heapOffset.toNat ≤ t.state.heapOffset.toNat := by
  obtain ⟨n, -, hn⟩ := h.offset
  rw [hn]
  exact le_withPages _ n

/-- A table that is new since `t` is new since `t₀`. -/
theorem Frame.nodes_step (h : Frame D t₀ t)
    (hnodes : ∀ k is u, Key D k is → t'.node k is = some u →
      t.node k is = some u ∨ t.state.heapArea.toNat + t.state.heapOffset.toNat ≤ u.toNat) :
    ∀ k is u, Key D k is → t'.node k is = some u →
      t₀.node k is = some u ∨ t₀.state.heapArea.toNat + t₀.state.heapOffset.toNat ≤ u.toNat := by
  intro k is u hk hu
  rcases hnodes k is u hk hu with hold | hnew
  · exact h.nodes k is u hk hold
  · have hle := h.offset_le
    rw [h.area] at hnew
    exact .inr (by omega)

/-- One page more was taken. -/
theorem Frame.offset_taken (h : Frame D t₀ t) {s' : State}
    (hleft : pagesLeft t.state = pagesLeft s' + 1)
    (hoffset : s'.heapOffset.toNat = roundUp 4096 t.state.heapOffset.toNat + 4096) :
    ∃ n, pagesLeft t₀.state = pagesLeft s' + n ∧
      s'.heapOffset.toNat = withPages t₀.state.heapOffset.toNat n := by
  obtain ⟨n, hn, heq⟩ := h.offset
  refine ⟨n + 1, by omega, ?_⟩
  rw [hoffset, heq, withPages_succ]

/-- An entry of a table is a word of a table that was there at `t₀`, or of the heap that
was free. -/
theorem Frame.entry_ne (h : Frame D t₀ t) (hheap : HeapZero t.state) (hk : Key D k is)
    (hw : t.node k is = some w) (htable : Table t.state w) (hi : Index i) {x : Word}
    (hx : ¬ TableWord D t₀ x) (hplace : x.toNat < t₀.state.heapArea.toNat +
      t₀.state.heapOffset.toNat ∨ t₀.state.heapArea.toNat + KERNEL_HEAP_SIZE.toNat ≤ x.toNat) :
    x ≠ w + 8#64 * i := by
  rintro rfl
  rcases h.nodes k is w hk hw with hold | hnew
  · exact hx ⟨k, is, w, i, hk, hold, hi, rfl⟩
  · have haddr := htable.entry_toNat hheap hi
    have hupper := htable.upper
    have hle := hheap.offset_le
    rw [h.area] at hupper
    unfold Index at hi
    rw [haddr] at hplace
    omega

theorem Frame.mem_setEntry (h : Frame D t₀ t) (hheap : HeapZero t.state) (hk : Key D k is)
    (hw : t.node k is = some w) (htable : Table t.state w) (hi : Index i) :
    ∀ x, ¬ TableWord D t₀ x →
      x.toNat < t₀.state.heapArea.toNat + t₀.state.heapOffset.toNat ∨
        t₀.state.heapArea.toNat + KERNEL_HEAP_SIZE.toNat ≤ x.toNat →
      (t.state.setEntry w i value).mem x = t₀.state.mem x := by
  intro x hx hplace
  have hne := h.entry_ne hheap hk hw htable hi hx hplace
  exact (Function.update_of_ne hne ..).trans (h.mem x hx hplace)

end Frame

-- ---------------------------------------------------------------------------
-- Taking pages
-- ---------------------------------------------------------------------------

section Pages

variable {s : State} {w i : Word}

/-- A page of the heap that was just taken. -/
structure Taken (s : State) (u offset : Word) : Prop extends NewPage s u offset where
  above : s.heapArea.toNat + s.heapOffset.toNat ≤ u.toNat
  offset_eq : offset.toNat = roundUp 4096 s.heapOffset.toNat + 4096
  left : pagesLeft s = pagesLeft { s with heapOffset := offset } + 1

theorem pageTableAlloc_taken (hs : HeapZero s) :
    (pagesLeft s = 0 ∧ pageTableAlloc s = (0#64, s)) ∨
      ∃ u offset, pageTableAlloc s = (u, { s with heapOffset := offset }) ∧ u ≠ 0#64 ∧
        Taken s u offset := by
  rcases pageTableAlloc_cases hs with hfull | ⟨u, offset, halloc, hu0, hnew, hleft⟩
  · exact .inl hfull
  refine .inr ⟨u, offset, halloc, hu0, hnew, ?_, ?_, hleft⟩
  · rcases pageTableAlloc_spec hs with hfail | ⟨u', offset', halloc', -, habove, -⟩
    · rw [halloc] at hfail
      exact absurd hfail hu0
    · have hu : u = u' := congrArg Prod.fst (halloc.symm.trans halloc')
      rw [hu]
      exact habove
  · have hoff := hs.offset_le
    have hbound := roundUp_le (a := 4096) (n := s.heapOffset.toNat)
    have halign : PowerOfTwo AEGIS_PAGE_SIZE := ⟨12, rfl⟩
    have hpage : AEGIS_PAGE_SIZE.toNat = 4096 := rfl
    rw [heapSize_toNat] at hoff
    unfold pageTableAlloc at halloc
    rcases alloc_cases hs.offset_le AEGIS_PAGE_SIZE halign with
      ⟨-, hres⟩ | ⟨-, start, -, hres, hend⟩
    · rw [hres] at halloc
      exact absurd (congrArg Prod.fst halloc).symm hu0
    · rw [hres] at halloc
      have heq : offset = start + AEGIS_PAGE_SIZE :=
        (congrArg (fun r : Word × State => r.2.heapOffset) halloc).symm
      rw [hpage] at hend
      rw [heq]
      omega

/-- `page_table_get_entry` at an absent entry. -/
theorem pageTableGetEntry_taken (hs : HeapZero s) (h : presentEntry s.mem w i = none) :
    (pagesLeft s = 0 ∧ pageTableGetEntry s w i true = (0#64, s)) ∨
      ∃ u offset, pageTableGetEntry s w i true =
          (u, ({ s with heapOffset := offset } : State).setEntry w i (linkEntry u)) ∧
        u ≠ 0#64 ∧ Taken s u offset := by
  have habsent : ¬ s.entry w i &&& AEGIS_PTE_PRESENT ≠ 0#64 := by
    intro hpresent
    have hpresent : s.mem (w + 8#64 * i) &&& AEGIS_PTE_PRESENT ≠ 0#64 := hpresent
    unfold presentEntry at h
    dsimp only at h
    rw [if_pos hpresent] at h
    exact absurd h (by simp)
  unfold pageTableGetEntry
  dsimp only
  rw [if_neg habsent]
  rcases pageTableAlloc_taken hs with ⟨hfull, hres⟩ | ⟨u, offset, hres, hu0, htaken⟩
  · rw [hres]
    exact .inl ⟨hfull, rfl⟩
  · rw [hres]
    simp only [Bool.not_true, Bool.false_eq_true, if_false, if_neg hu0]
    exact .inr ⟨u, offset, rfl, hu0, htaken⟩

end Pages

section Shows

variable {D : Nat → Word → Prop} {t₀ t : Client} {a : Spaces} {k : Nat} {sp : Space} {pt : Word}

theorem Shows.table (h : Shows D t₀ t a) (hpt : t.tables[k]? = some pt) : Table t.state pt :=
  h.forest.closed k [] pt (key_nil D k) (node_nil.trans hpt)

/-- A table is handed out exactly when there is its space. -/
theorem Shows.getElem? (h : Shows D t₀ t a) (k : Nat) :
    (∃ pt, t.tables[k]? = some pt) ↔ ∃ sp, a.spaces[k]? = some sp := by
  have hlen := h.length
  constructor
  · rintro ⟨pt, hpt⟩
    have hk : k < a.spaces.length := by
      have hk := (List.getElem?_eq_some_iff.mp hpt).1
      omega
    exact ⟨_, List.getElem?_eq_getElem hk⟩
  · rintro ⟨sp, hsp⟩
    have hk : k < t.tables.length := by
      have hk := (List.getElem?_eq_some_iff.mp hsp).1
      omega
    exact ⟨_, List.getElem?_eq_getElem hk⟩

/-- The space of a table may be named by what it is already. -/
theorem Shows.set_self (h : Shows D t₀ t a) (hsp : a.spaces[k]? = some sp) :
    Shows D t₀ t ⟨a.left, a.spaces.set k sp⟩ := by
  have hself : a.spaces.set k sp = a.spaces := by
    obtain ⟨hk, rfl⟩ := List.getElem?_eq_some_iff.mp hsp
    exact List.set_getElem_self hk
  rw [hself]
  exact h

/-- A list with one element more. -/
theorem getElem?_concat {α : Type} (xs : List α) (x : α) (k : Nat) :
    (xs ++ [x])[k]? = if k = xs.length then some x else xs[k]? := by
  by_cases hk : k = xs.length
  · subst hk
    simp
  · rw [if_neg hk, List.getElem?_append]
    split
    · rfl
    · rw [List.getElem?_eq_none (by simp; omega), List.getElem?_eq_none (by omega)]

/-- One of the spaces has changed. -/
theorem getElem?_set_cases {spaces : List Space} {sp' sp'' : Space} {k' : Nat}
    (h : (spaces.set k sp')[k']? = some sp'') :
    k' = k ∧ sp'' = sp' ∨ k' ≠ k ∧ spaces[k']? = some sp'' := by
  rw [List.getElem?_set] at h
  split at h
  · rename_i hk
    split at h
    · exact .inl ⟨hk.symm, (Option.some.inj h).symm⟩
    · exact absurd h (by simp)
  · rename_i hk
    exact .inr ⟨Ne.symm hk, h⟩

/-- One node more: `u`, a page just taken, at the path `ps` of table `k`. -/
structure Grown (D : Nat → Word → Prop) (t t' : Client) (k : Nat) (ps : List Word) (u : Word) :
    Prop where
  heap : HeapZero t'.state
  table : Table t'.state u
  fresh : ∀ w, Table t.state w → w ≠ u
  keeps : ∀ w, Table t.state w → Table t'.state w
  above : t.state.heapArea.toNat + t.state.heapOffset.toNat ≤ u.toNat
  node : ∀ k' is, Key D k' is →
    t'.node k' is = if k' = k ∧ is = ps then some u else t.node k' is

section Grown

variable {t' : Client} {ps : List Word} {i w u offset : Word} {s' : State}

theorem Shows.forest_grown (h : Shows D t₀ t a) (hg : Grown D t t' k ps u) :
    Forest (child t'.state.mem) (fun k => t'.tables[k]?) (Key D) (Table t'.state) :=
  h.forest.grow (fun hu => hg.fresh u hu rfl) hg.table hg.keeps hg.node

theorem Frame.nodes_grown (h : Frame D t₀ t) (hg : Grown D t t' k ps u) :
    ∀ k is u, Key D k is → t'.node k is = some u →
      t₀.node k is = some u ∨ t₀.state.heapArea.toNat + t₀.state.heapOffset.toNat ≤ u.toNat := by
  refine h.nodes_step fun k' is u' hk' hu' => ?_
  rw [hg.node k' is hk'] at hu'
  split at hu'
  · exact .inr (Option.some.inj hu' ▸ hg.above)
  · exact .inl hu'

/-- The new path is one of the space. -/
theorem Shows.paths_grown (h : Shows D t₀ t a) (hsp : a.spaces[k]? = some sp)
    (hg : Grown D t t' k ps u) {k' : Nat} {sp' : Space} {is : List Word}
    (hsp' : (a.spaces.set k (sp.extend ps))[k']? = some sp') (hk' : Key D k' is) (his : is ≠ []) :
    (∃ u, t'.node k' is = some u) ↔ is ∈ sp'.paths := by
  rw [hg.node k' is hk']
  rcases getElem?_set_cases hsp' with ⟨rfl, rfl⟩ | ⟨hne, hsp'⟩
  · rw [Space.extend, List.mem_cons, ← h.paths k' sp is hsp hk' his]
    by_cases hplace : is = ps
    · rw [if_pos ⟨rfl, hplace⟩]
      exact ⟨fun _ => .inl hplace, fun _ => ⟨u, rfl⟩⟩
    · rw [if_neg fun hp => hplace hp.2]
      exact ⟨.inr, fun hp => hp.resolve_left hplace⟩
  · rw [if_neg fun hp => hne hp.1]
    exact h.paths k' sp' is hsp' hk' his

/-- A page is linked at an absent entry. -/
theorem Shows.grown_linked (h : Shows D t₀ t a) (hkey : Key D k (ps ++ [i]))
    (hw : t.node k ps = some w) (habsent : presentEntry t.state.mem w i = none)
    (hlinked : Linked t.state s' w i u)
    (habove : t.state.heapArea.toNat + t.state.heapOffset.toNat ≤ u.toNat) :
    Grown D t { t with state := s' } k (ps ++ [i]) u := by
  have hnew : child s'.mem w i = some u := by
    unfold child
    rw [presentEntry_link hlinked.entry, Option.map_some, linkEntry_table hlinked.table.aligned]
  have hempty : ∀ k is j, Key D k (is ++ [j]) → child s'.mem u j = none := by
    intro k is j hk
    rw [child, presentEntry_zero (hlinked.empty j hk.last), Option.map_none]
  refine ⟨hlinked.heap, hlinked.table, hlinked.fresh, hlinked.keeps, habove, fun k' is hk' => ?_⟩
  refine node_link h.forest (fun k is i hk => hk.initial) hkey.initial hw ?_ hnew hempty ?_ hk'
  · rw [child, habsent, Option.map_none]
  · exact fun k is j w' hk hw' hne => child_congr (hlinked.other w' j hw' hk.last hne)

/-- A page is handed out as a table. -/
theorem Shows.grown_create (h : Shows D t₀ t a) (hnew : Taken t.state u offset) :
    Grown D t ⟨{ t.state with heapOffset := offset }, t.tables ++ [u]⟩ t.tables.length [] u := by
  have hempty : ∀ k is j, Key D k (is ++ [j]) → child t.state.mem u j = none := by
    intro k is j hk
    rw [child, presentEntry_zero (hnew.empty j hk.last), Option.map_none]
  exact ⟨hnew.heap, hnew.table, hnew.fresh, hnew.keeps, hnew.above, fun k' is hk' =>
    node_plant (fun k is i hk => hk.initial) h.forest (List.getElem?_eq_none (Nat.le_refl _))
      (fun k' => getElem?_concat t.tables u k') hempty (fun _ _ _ _ _ _ => rfl) hk'⟩

end Grown

/-- One more table. -/
theorem Shows.linked (h : Shows D t₀ t a) (hsp : a.spaces[k]? = some sp) {ps : List Word}
    {i w u offset : Word} {s' : State} {left' : Nat} (hkey : Key D k (ps ++ [i]))
    (hw : t.node k ps = some w) (habsent : presentEntry t.state.mem w i = none)
    (htaken : Taken t.state u offset)
    (hs' : s' = ({ t.state with heapOffset := offset } : State).setEntry w i (linkEntry u))
    (hleft : pagesLeft s' = left') :
    Shows D t₀ { t with state := s' } ⟨left', a.spaces.set k (sp.extend (ps ++ [i]))⟩ ∧
      (Client.node { t with state := s' } k (ps ++ [i])) = some u := by
  have htable := h.forest.closed k ps w hkey.initial hw
  have hlinked : Linked t.state s' w i u := hs' ▸ htaken.linked htable hkey.last
  have hg := h.grown_linked hkey hw habsent hlinked htaken.above
  refine ⟨⟨hlinked.heap, h.forest_grown hg, ?_, hleft,
    fun k' sp' is hsp' hk' his => h.paths_grown hsp hg hsp' hk' his, ?_, ?_, ?_⟩, ?_⟩
  · rw [List.length_set]
    exact h.length
  · intro k' pt' sp' j hpt' hsp' hj hD
    -- the entry is no link: it is not the one that was set
    have hother : ¬ (pt' = w ∧ j = i) := by
      rintro ⟨rfl, rfl⟩
      obtain ⟨rfl, rfl⟩ := h.forest.distinct k' [] k ps pt' (key_nil D k') hkey.initial
        (node_nil.trans hpt') hw
      exact hD (key_root hkey)
    have hsame : s'.entry pt' j = t.state.entry pt' j :=
      hlinked.other pt' j (h.table hpt') hj hother
    rcases getElem?_set_cases hsp' with ⟨rfl, rfl⟩ | ⟨hne, hsp'⟩
    · exact hsame.trans (h.entries k' pt' sp j hpt' hsp hj hD)
    · exact hsame.trans (h.entries k' pt' sp' j hpt' hsp' hj hD)
  · intro k' is u' j hk' hlen hu' hj
    rw [hg.node k' is hk'] at hu'
    split at hu'
    · obtain rfl := Option.some.inj hu'
      exact hlinked.empty j hj
    · have hother : ¬ (u' = w ∧ j = i) := by
        rintro ⟨rfl, rfl⟩
        obtain ⟨rfl, rfl⟩ := h.forest.distinct k' is k ps u' hk' hkey.initial hu' hw
        have hshort := hkey.short
        rw [List.length_append, hlen] at hshort
        exact absurd hshort (by simp)
      have hsame : s'.entry u' j = t.state.entry u' j :=
        hlinked.other u' j (h.forest.closed k' is u' hk' hu') hj hother
      exact hsame.trans (h.last k' is u' j hk' hlen hu' hj)
  · have hnodes := h.frame.nodes_grown hg
    subst hs'
    exact ⟨h.frame.area, h.frame.offset_taken htaken.left htaken.offset_eq, hnodes,
      h.frame.mem_setEntry h.heap hkey.initial hw htable hkey.last⟩
  · rw [hg.node k _ hkey, if_pos ⟨rfl, rfl⟩]

/-- An entry is stored in a top-level table, at an index that is none of its
directory. -/
theorem Shows.stored (h : Shows D t₀ t a) (hpt : t.tables[k]? = some pt)
    (hsp : a.spaces[k]? = some sp) {i : Word} (hi : Index i) (hD : ¬ D k i) (value : Word) :
    Shows D t₀ { t with state := t.state.setEntry pt i value }
      ⟨a.left, a.spaces.set k (sp.store i value)⟩ := by
  have htable := h.table hpt
  have hroot : ∀ k' is w, Key D k' is → t.node k' is = some w → w = pt → k' = k ∧ is = [] := by
    rintro k' is w hk' hw rfl
    exact h.forest.distinct k' is k [] w hk' (key_nil D k) hw (node_nil.trans hpt)
  have hnode : ∀ k' is, Key D k' is →
      Client.node { t with state := t.state.setEntry pt i value } k' is = t.node k' is := by
    intro k' is hk'
    refine node_congr (fun k is i hk => hk.initial) (fun k' is j w hk' hw => ?_) hk'
    refine child_congr (Table.setEntry_of_ne h.heap htable
      (h.forest.closed k' is w hk'.initial hw) hi hk'.last ?_ value)
    rintro ⟨hwpt, rfl⟩
    obtain ⟨rfl, rfl⟩ := hroot k' is w hk'.initial hw hwpt
    exact hD (key_root hk')
  refine ⟨h.heap.setEntry htable hi value, ⟨?_, ?_⟩, ?_, h.left, ?_, ?_, ?_, ?_⟩
  · intro k' is w hk' hw
    have hw : t.node k' is = some w := (hnode k' is hk').symm.trans hw
    exact (h.forest.closed k' is w hk' hw).setEntry value
  · intro k₁ is₁ k₂ is₂ w hk₁ hk₂ hw₁ hw₂
    exact h.forest.distinct k₁ is₁ k₂ is₂ w hk₁ hk₂ ((hnode k₁ is₁ hk₁).symm.trans hw₁)
      ((hnode k₂ is₂ hk₂).symm.trans hw₂)
  · rw [List.length_set]
    exact h.length
  · intro k' sp' is hsp' hk' his
    rw [hnode k' is hk']
    rcases getElem?_set_cases hsp' with ⟨rfl, rfl⟩ | ⟨-, hsp'⟩
    · exact h.paths k' sp is hsp hk' his
    · exact h.paths k' sp' is hsp' hk' his
  · intro k' pt' sp' j hpt' hsp' hj hDj
    have hother : ∀ hne : ¬ (pt' = pt ∧ j = i),
        (t.state.setEntry pt i value).entry pt' j = t.state.entry pt' j :=
      fun hne => Table.setEntry_of_ne h.heap htable (h.table hpt') hi hj hne value
    rcases getElem?_set_cases hsp' with ⟨rfl, rfl⟩ | ⟨hne, hsp'⟩
    · obtain rfl : pt' = pt := Option.some.inj (hpt'.symm.trans hpt)
      by_cases hij : j = i
      · subst hij
        exact (Table.setEntry_self value).trans (sp.store_self j value).symm
      · refine (hother fun hp => hij hp.2).trans ?_
        exact (h.entries k' pt' sp j hpt' hsp hj hDj).trans (sp.store_of_ne hij value).symm
    · refine (hother ?_).trans (h.entries k' pt' sp' j hpt' hsp' hj hDj)
      rintro ⟨hp, -⟩
      exact hne (hroot k' [] pt' (key_nil D k') (node_nil.trans hpt') hp).1
  · intro k' is u j hk' hlen hu hj
    rw [hnode k' is hk'] at hu
    have hne : ¬ (u = pt ∧ j = i) := by
      rintro ⟨hp, -⟩
      obtain ⟨-, rfl⟩ := hroot k' is u hk' hu hp
      exact absurd hlen (by simp)
    have hsame : (t.state.setEntry pt i value).entry u j = t.state.entry u j :=
      Table.setEntry_of_ne h.heap htable (h.forest.closed k' is u hk' hu) hi hj hne value
    exact hsame.trans (h.last k' is u j hk' hlen hu hj)
  · refine ⟨h.frame.area, h.frame.offset, ?_, ?_⟩
    · intro k' is u hk' hu
      exact h.frame.nodes k' is u hk' ((hnode k' is hk').symm.trans hu)
    · exact h.frame.mem_setEntry h.heap (key_nil D k) (node_nil.trans hpt) htable hi

/-- What has changed may be counted from here on. -/
theorem Shows.rebase (h : Shows D t₀ t a) : Shows D t t a :=
  { h with frame := frame_refl D t }

/-- What is written to no table, and what is taken from the heap, leaves the spaces as
they are. -/
theorem Shows.elsewhere (h : Shows D t₀ t a) {s' : State} (hheap : HeapZero s')
    (harea : s'.heapArea = t.state.heapArea)
    (hoff : t.state.heapOffset.toNat ≤ s'.heapOffset.toNat)
    (hmem : ∀ x, TableWord D t x → s'.mem x = t.state.mem x) :
    Shows D { t with state := s' } { t with state := s' } ⟨pagesLeft s', a.spaces⟩ := by
  have hentry : ∀ k is u j, Key D k is → t.node k is = some u → Index j →
      s'.entry u j = t.state.entry u j := fun k is u j hk hu hj =>
    hmem _ ⟨k, is, u, j, hk, hu, hj, rfl⟩
  have hnode : ∀ k is, Key D k is → Client.node { t with state := s' } k is = t.node k is :=
    fun k is hk => node_congr (fun k is i hk => hk.initial) (fun k is i u hk hu =>
      child_congr (hentry k is u i hk.initial hu hk.last)) hk
  refine ⟨hheap, ⟨?_, ?_⟩, h.length, rfl, ?_, ?_, ?_, frame_refl D _⟩
  · intro k is u hk hu
    have htable := h.forest.closed k is u hk ((hnode k is hk).symm.trans hu)
    refine ⟨htable.aligned, ?_, ?_⟩
    · rw [harea]
      exact htable.lower
    · rw [harea]
      exact htable.upper.trans (Nat.add_le_add_left hoff _)
  · intro k₁ is₁ k₂ is₂ u hk₁ hk₂ hu₁ hu₂
    exact h.forest.distinct k₁ is₁ k₂ is₂ u hk₁ hk₂ ((hnode k₁ is₁ hk₁).symm.trans hu₁)
      ((hnode k₂ is₂ hk₂).symm.trans hu₂)
  · intro k sp is hsp hk his
    rw [hnode k is hk]
    exact h.paths k sp is hsp hk his
  · intro k pt sp i hpt hsp hi hD
    exact (hentry k [] pt i (key_nil D k) (node_nil.trans hpt) hi).trans
      (h.entries k pt sp i hpt hsp hi hD)
  · intro k is u j hk hlen hu hj
    have hu := (hnode k is hk).symm.trans hu
    exact (hentry k is u j hk hu hj).trans (h.last k is u j hk hlen hu hj)

end Shows

end AegisKernel.Mm
