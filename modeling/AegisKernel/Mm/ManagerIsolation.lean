import AegisKernel.Mm.SpaceIsolation
import AegisKernel.Mm.Manager

/-!
# Memory management — the list of regions and the page tables do not interfere

Through the manager the calls on page tables and those on the list of regions have only
the size of the rest of the heap in common. So if the heap lasts, the calls of each kind
are answered as if there had been none of the other.

* `Lasting` — an answer that does not say that the heap is full.
* `TablesAlike`, `RegionsAlike` — two managers that a caller of one kind cannot tell apart.
* `memory_manager_isolated` — the result.
-/

namespace AegisKernel.Mm

open Library

def MmOp.isTable : MmOp → Bool
  | .table _ => true
  | _ => false

/-- The ranges that are added as long as there is room. -/
def ProperRange (start stop : Word) : Prop :=
  start < stop ∧ AEGIS_PAGE_SIZE.toNat ∣ start.toNat ∧ AEGIS_PAGE_SIZE.toNat ∣ stop.toNat

/-- The answer does not say that the heap is full. -/
def Lasting : MmOp → MmResult → Prop
  | .table op, .table r => Served op r
  | .region (.add start stop _), .added code => ProperRange start stop → code = 0
  | _, _ => True

-- ---------------------------------------------------------------------------
-- The calls on page tables
-- ---------------------------------------------------------------------------

section Tables

variable {a b : Spaces} {m m' : Manager} {op : TableOp}

theorem spaces_step_le (a : Spaces) (op : TableOp) : (a.step op).left ≤ a.left := by
  obtain ⟨left, spaces⟩ := a
  cases op with
  | create =>
    cases left with
    | zero => exact Nat.le_refl 0
    | succ left => exact Nat.le_succ left
  | on k call =>
    unfold Spaces.step Spaces.serve
    dsimp only
    cases hsp : spaces[k]? with
    | none => exact Nat.le_refl left
    | some sp => exact perform_le sp left call

/-- With more pages a call that was served is answered the same. -/
theorem spaces_step_mono (hserved : Served op (a.answer op)) (hle : a.left ≤ b.left)
    (hspaces : a.spaces = b.spaces) :
    a.answer op = b.answer op ∧ (a.step op).left ≤ (b.step op).left ∧
      (a.step op).spaces = (b.step op).spaces := by
  obtain ⟨left, spaces⟩ := a
  obtain ⟨left', spaces'⟩ := b
  dsimp only at hle hspaces
  subst hspaces
  cases op with
  | create =>
    cases left with
    | zero => exact absurd rfl hserved
    | succ left =>
      obtain ⟨left'', rfl⟩ : ∃ n, left' = n + 1 := ⟨left' - 1, by omega⟩
      exact ⟨rfl, Nat.le_of_succ_le_succ hle, rfl⟩
  | on k call =>
    unfold Spaces.answer Spaces.step Spaces.serve at *
    dsimp only at hserved ⊢
    cases hsp : spaces[k]? with
    | none => exact ⟨rfl, hle, rfl⟩
    | some sp =>
      rw [hsp] at hserved
      obtain ⟨hresult, hspace, hleft⟩ := perform_mono hserved hle
      exact ⟨congrArg some hresult.symm, hleft, congrArg (spaces.set k) hspace.symm⟩

/-- The pages left are those the tables left. -/
theorem left_withTables (h : a.left ≤ m.left) : (m.withTables a).left = a.left := by
  unfold Manager.left at h
  unfold Manager.withTables Manager.left withPages roundUp
  dsimp only
  split
  · omega
  · omega

/-- The calls on page tables cannot tell them apart; the second has no fewer pages. -/
structure TablesAlike (m m' : Manager) : Prop where
  left : m.left ≤ m'.left
  spaces : m.spaces = m'.spaces

theorem TablesAlike.table (h : TablesAlike m m') (hserved : Served op (m.tables.answer op)) :
    m.tables.answer op = m'.tables.answer op ∧
      TablesAlike (m.withTables (m.tables.step op)) (m'.withTables (m'.tables.step op)) := by
  obtain ⟨hanswer, hleft, hspaces⟩ := spaces_step_mono (b := m'.tables) hserved h.left h.spaces
  refine ⟨hanswer, ?_, hspaces⟩
  rw [left_withTables (spaces_step_le m.tables op), left_withTables (spaces_step_le m'.tables op)]
  exact hleft

/-- A call on the list may take from the heap, and nothing more. -/
theorem offset_le_step (v : Regions) (op : VmaOp) : v.offset ≤ (v.step op).offset := by
  cases op with
  | add start stop flags =>
    rw [Regions.step]
    split
    · exact Nat.le_add_right_of_le (le_roundUp (by omega))
    · exact Nat.le_refl _
  | remove start => exact Nat.le_refl _

theorem TablesAlike.region (h : TablesAlike m m') (op : VmaOp) :
    TablesAlike { m with regions := m.regions.step op } m' := by
  refine ⟨Nat.le_trans ?_ h.left, h.spaces⟩
  have hle := offset_le_step m.regions op
  unfold Manager.left
  dsimp only
  omega

end Tables

-- ---------------------------------------------------------------------------
-- The calls on the list
-- ---------------------------------------------------------------------------

def Region.area (r : Region) : Word × Word × Word := (r.start, r.stop, r.flags)

/-- The calls on the list cannot tell them apart; the second has no less room. -/
structure RegionsAlike (m m' : Manager) : Prop where
  offset : m'.regions.offset ≤ m.regions.offset
  live : m.regions.live.map Region.area = m'.regions.live.map Region.area

section Regions

variable {m m' : Manager} {start stop flags : Word}

theorem regions_accepts_iff (v : Regions) (start stop : Word) : v.Accepts start stop ↔
    ProperRange start stop ∧ roundUp 8 v.offset + vmaSize.toNat ≤ KERNEL_HEAP_SIZE.toNat := by
  unfold Regions.Accepts ProperRange
  rw [and_assoc, and_assoc]

/-- A range that is added as the heap lasts is added when there is more room. -/
theorem RegionsAlike.accepts_iff (h : RegionsAlike m m')
    (hlasting : ProperRange start stop → m.regions.Accepts start stop) :
    m.regions.Accepts start stop ↔ m'.regions.Accepts start stop := by
  have hmono := roundUp_mono (a := 8) (by omega) h.offset
  rw [regions_accepts_iff] at hlasting ⊢
  rw [regions_accepts_iff]
  constructor
  · rintro ⟨hproper, hfit⟩
    exact ⟨hproper, by omega⟩
  · rintro ⟨hproper, -⟩
    exact hlasting hproper

theorem RegionsAlike.add (h : RegionsAlike m m')
    (hlasting : ProperRange start stop → m.regions.Accepts start stop) :
    RegionsAlike { m with regions := m.regions.step (.add start stop flags) }
      { m' with regions := m'.regions.step (.add start stop flags) } := by
  have hiff := h.accepts_iff hlasting
  have hmono := roundUp_mono (a := 8) (by omega) h.offset
  rw [Regions.step, Regions.step]
  by_cases hok : m.regions.Accepts start stop
  · rw [if_pos hok, if_pos (hiff.mp hok)]
    refine ⟨Nat.add_le_add_right hmono _, ?_⟩
    dsimp only
    rw [List.map_cons, List.map_cons, h.live]
    rfl
  · rw [if_neg hok, if_neg fun hok' => hok (hiff.mpr hok')]
    exact h

theorem RegionsAlike.remove (h : RegionsAlike m m') (start : Word) :
    RegionsAlike { m with regions := m.regions.step (.remove start) }
      { m' with regions := m'.regions.step (.remove start) } := by
  have herase : ∀ live : List Region, (live.eraseP fun r => r.start = start).map Region.area =
      (live.map Region.area).eraseP fun x => x.1 = start := by
    intro live
    rw [List.eraseP_map]
    rfl
  refine ⟨h.offset, ?_⟩
  change (m.regions.live.eraseP _).map _ = (m'.regions.live.eraseP _).map _
  rw [herase, herase, h.live]

theorem RegionsAlike.find (h : RegionsAlike m m') (addr : Word) :
    (m.regions.live.find? fun r => r.Covers addr).map Region.area =
      (m'.regions.live.find? fun r => r.Covers addr).map Region.area := by
  have hfind : ∀ live : List Region, (live.find? fun r => r.Covers addr).map Region.area =
      (live.map Region.area).find? fun x => x.1 ≤ addr ∧ addr < x.2.1 := by
    intro live
    rw [List.find?_map]
    rfl
  rw [hfind, hfind, h.live]

theorem RegionsAlike.table (h : RegionsAlike m m') (a : Spaces) :
    RegionsAlike (m.withTables a) m' :=
  ⟨h.offset.trans (le_withPages _ _), h.live⟩

end Regions

-- ---------------------------------------------------------------------------
-- Two runs
-- ---------------------------------------------------------------------------

section Runs

variable {m m' : Manager} {ops : List MmOp} {s : State} {list : Word} {fuel : Nat}

/-- No answer of the run says that the heap is full. -/
abbrev Lasts (m : Manager) (ops : List MmOp) : Prop :=
  Meets Manager.step (fun m op => Lasting op (m.answer op)) m ops

theorem lasts_iff : (∀ x ∈ m.callAll ops, Lasting x.1 x.2) ↔ Lasts m ops := by
  unfold Manager.callAll
  rw [forall_outputs_iff_meets]
  simp

theorem TablesAlike.project (h : TablesAlike m m') (hlasts : Lasts m ops) :
    (m.callAll ops).filter (fun x => x.1.isTable) = m'.callAll (ops.filter MmOp.isTable) := by
  unfold Manager.callAll
  rw [filter_outputs]
  refine outputs_project (fun m m' op hR hop hp => ?_) (fun m m' op hR hop hp => ?_) h hlasts
  · cases op with
    | table op =>
      obtain ⟨hanswer, halike⟩ := hR.table hop
      exact ⟨congrArg (fun r => some (MmOp.table op, MmResult.table r)) hanswer, halike⟩
    | region op => exact absurd hp (by simp [MmOp.isTable])
    | find addr => exact absurd hp (by simp [MmOp.isTable])
  · cases op with
    | table op => exact absurd hp (by simp [MmOp.isTable])
    | region op =>
      refine ⟨rfl, ?_⟩
      cases op with
      | add start stop flags => exact hR.region (.add start stop flags)
      | remove start => exact hR.region (.remove start)
    | find addr => exact ⟨rfl, hR⟩

theorem RegionsAlike.project (h : RegionsAlike m m') (hlasts : Lasts m ops) :
    (m.callAll ops).filter (fun x => !x.1.isTable) =
      m'.callAll (ops.filter fun op => !op.isTable) := by
  unfold Manager.callAll
  rw [filter_outputs]
  refine outputs_project (fun m m' op hR hop hp => ?_) (fun m m' op hR hop hp => ?_) h hlasts
  · cases op with
    | table op => exact absurd hp (by simp [MmOp.isTable])
    | region op =>
      cases op with
      | add start stop flags =>
        have haccepts : ProperRange start stop → m.regions.Accepts start stop := by
          intro hproper
          by_contra hno
          exact absurd (hop hproper) (by simp [hno])
        refine ⟨?_, hR.add haccepts⟩
        have hsame : m.answer (.region (.add start stop flags)) =
            m'.answer (.region (.add start stop flags)) := by
          simp only [Manager.answer, Manager.serve, hR.accepts_iff haccepts]
        exact congrArg (fun r => some (MmOp.region (.add start stop flags), r)) hsame
      | remove start => exact ⟨rfl, hR.remove start⟩
    | find addr =>
      exact ⟨congrArg (fun r => some (MmOp.find addr, MmResult.area r)) (hR.find addr), hR⟩
  · cases op with
    | table op => exact ⟨rfl, hR.table _⟩
    | region op => exact absurd hp (by simp [MmOp.isTable])
    | find addr => exact absurd hp (by simp [MmOp.isTable])

theorem split_filter (p : MmOp → Bool) (h : Split (tableOps ops)) :
    Split (tableOps (ops.filter p)) := by
  have hsub : ∀ op ∈ tableOps (ops.filter p), op ∈ tableOps ops := by
    intro op hop
    obtain ⟨op', hop', heq⟩ := List.mem_filterMap.mp hop
    exact List.mem_filterMap.mpr ⟨op', List.mem_of_mem_filter hop', heq⟩
  exact fun k call hcall call' hcall' => h k call (hsub _ hcall) call' (hsub _ hcall')

/-- Some of the calls of a run, by themselves. -/
theorem callAll_filter (p : MmOp → Bool) (hs : HeapZero s) (hoff : OffHeap list s.heapArea)
    (hempty : s.mem list = 0#64) (hsplit : Split (tableOps ops)) (hfuel : ops.length < fuel) :
    ∃ t, Client.callAll fuel list ⟨s, []⟩ (ops.filter p) =
      some (Manager.callAll (.start s) (ops.filter p), t) := by
  have hstart := manages_start (Directory (tableOps (ops.filter p))) hs hoff hempty
  have hlive : (Manager.start s).regions.live.length = 0 := rfl
  have hlen := List.length_filter_le p ops
  obtain ⟨t, hcall, -⟩ := hstart.callAll (ops.filter p) (keeps_of_split (split_filter p hsplit))
    (show (Manager.start s).regions.live.length + (ops.filter p).length < fuel by omega)
  exact ⟨t, hcall⟩

/-- **The list of regions and the page tables are isolated.** In a run of the memory
manager in which no index of a table is both a top-level and a last-level index, and no
call fails because the heap is full, the calls on page tables have the answers of the run
of these calls alone, and so have the calls on the list. -/
theorem memory_manager_isolated (s : State) (list : Word) (ops : List MmOp) {fuel : Nat}
    (hs : HeapZero s) (hoff : OffHeap list s.heapArea) (hempty : s.mem list = 0#64)
    (hsplit : Split (tableOps ops)) (hfuel : ops.length < fuel)
    {answers : List (MmOp × MmResult)} {t : Client}
    (hcall : Client.callAll fuel list ⟨s, []⟩ ops = some (answers, t))
    (hlasting : ∀ x ∈ answers, Lasting x.1 x.2) :
    (∃ t', Client.callAll fuel list ⟨s, []⟩ (ops.filter MmOp.isTable) =
        some (answers.filter fun x => x.1.isTable, t')) ∧
      ∃ t', Client.callAll fuel list ⟨s, []⟩ (ops.filter fun op => !op.isTable) =
        some (answers.filter fun x => !x.1.isTable, t') := by
  have hall : ∃ t, Client.callAll fuel list ⟨s, []⟩ ops =
      some (Manager.callAll (.start s) ops, t) := by
    have hfilter := callAll_filter (fun _ => true) hs hoff hempty hsplit hfuel
    rwa [List.filter_true] at hfilter
  obtain ⟨t₁, hall⟩ := hall
  obtain ⟨rfl, -⟩ := Prod.mk.injEq .. ▸ Option.some.inj (hcall.symm.trans hall)
  have hlasts := lasts_iff.mp hlasting
  have htables : TablesAlike (.start s) (.start s) := ⟨Nat.le_refl _, rfl⟩
  have hregions : RegionsAlike (.start s) (.start s) := ⟨Nat.le_refl _, rfl⟩
  rw [htables.project hlasts, hregions.project hlasts]
  exact ⟨callAll_filter MmOp.isTable hs hoff hempty hsplit hfuel,
    callAll_filter (fun op => !op.isTable) hs hoff hempty hsplit hfuel⟩

theorem memory_manager_isolated_mixed :
    let start : Client := ⟨boot 0x200000#64 fun _ => 0#64, []⟩
    ∃ answers t t₁ t₂, Client.callAll 8 0x1000#64 start mixed = some (answers, t) ∧
      Client.callAll 8 0x1000#64 start (mixed.filter MmOp.isTable) =
        some (answers.filter fun x => x.1.isTable, t₁) ∧
      Client.callAll 8 0x1000#64 start (mixed.filter fun op => !op.isTable) =
        some (answers.filter fun x => !x.1.isTable, t₂) := by
  intro start
  have hoff : OffHeap 0x1000#64 0x200000#64 := .inl (by decide)
  obtain ⟨t, hcall⟩ := callAll_filter (fun _ => true) heapZero_boot hoff rfl mixed_split
    (show mixed.length < 8 by decide)
  rw [List.filter_true] at hcall
  have hlasts : Lasts (.start (boot 0x200000#64 fun _ => 0#64)) mixed := by
    refine ⟨?_, fun _ => rfl, ?_, ?_, trivial, trivial, trivial, trivial⟩
    · change _ ≠ _
      decide
    · change _ ≠ _
      decide
    · change _ ≠ _
      decide
  obtain ⟨⟨t₁, htables⟩, t₂, hregions⟩ := memory_manager_isolated _ 0x1000#64 mixed heapZero_boot
    hoff rfl mixed_split (show mixed.length < 8 by decide) hcall (lasts_iff.mpr hlasts)
  exact ⟨_, t, t₁, t₂, hcall, htables, hregions⟩

end Runs

end AegisKernel.Mm
