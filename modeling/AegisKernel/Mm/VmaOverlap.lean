import AegisKernel.Mm.VmaList

/-!
# Memory management — when regions do not overlap

`mm_vma_find` reports one region for an address and `mm_vma_remove` takes one
region with a given start out, so the list is meant to hold regions that share
no address. `mm_vma_add` checks the range it is given, but not against the
regions that are there.

* `Separate` — what the list should be in every state: no two live regions
  share an address, the region found for an address is the only one, and after
  a removal no region starts there.
* `AddsApart` — the calls that keep it: an accepted range shares no address with
  a live region.

`vmas_separate_iff` says that along a run these are the same thing.
-/

namespace AegisKernel.Mm

open Library

-- ---------------------------------------------------------------------------
-- Regions that share no address
-- ---------------------------------------------------------------------------

/-- The `vma_t` at `p` contains the address. -/
def State.InVma (s : State) (p addr : Word) : Prop := s.vmaStart p ≤ addr ∧ addr < s.vmaEnd p

instance (s : State) (p addr : Word) : Decidable (s.InVma p addr) :=
  inferInstanceAs (Decidable (_ ∧ _))

/-- The list as it should be. -/
structure Separate (fuel : Nat) (list : Word) (s : State) : Prop where
  disjoint : ∃ nodes, CellChain 0#64 vmaLink s.mem list nodes ∧
    nodes.Pairwise fun p q => ∀ addr, ¬ (s.InVma p addr ∧ s.InVma q addr)
  only : ∃ nodes, CellChain 0#64 vmaLink s.mem list nodes ∧
    ∀ addr p, mmVmaFind fuel s (s.mem list) addr = some p → p ≠ 0#64 →
      ∀ q ∈ nodes, s.InVma q addr → q = p
  removed : ∀ start, ∃ s' nodes, mmVmaRemove fuel s list start = some s' ∧
    CellChain 0#64 vmaLink s'.mem list nodes ∧ ∀ p ∈ nodes, s'.vmaStart p ≠ start

/-- No two live regions share an address. -/
def Regions.NoOverlap (v : Regions) : Prop :=
  v.live.Pairwise fun r r' => ∀ addr, ¬ (r.Covers addr ∧ r'.Covers addr)

/-- A range that is accepted shares no address with a live region. -/
def Regions.AddsApart (v : Regions) : VmaOp → Prop
  | .add start stop _ => v.Accepts start stop →
      ∀ r ∈ v.live, ∀ addr, ¬ ((start ≤ addr ∧ addr < stop) ∧ r.Covers addr)
  | .remove _ => True

/-- No live region is empty. -/
def Regions.Proper (v : Regions) : Prop := ∀ r ∈ v.live, r.start < r.stop

section Step

variable {v : Regions} {op : VmaOp}

theorem Regions.Proper.step (h : v.Proper) : (v.step op).Proper := by
  cases op with
  | add start stop flags =>
    rw [Regions.step]
    split
    · rename_i hok
      intro r hr
      rcases List.mem_cons.mp hr with rfl | hr
      · exact hok.1
      · exact h r hr
    · exact h
  | remove start => exact fun r hr => h r (List.eraseP_sublist.subset hr)

/-- What keeps the regions apart. -/
theorem noOverlap_step_iff (h : v.NoOverlap) : (v.step op).NoOverlap ↔ v.AddsApart op := by
  cases op with
  | add start stop flags =>
    rw [Regions.step, Regions.AddsApart]
    by_cases hok : v.Accepts start stop
    · rw [if_pos hok]
      constructor
      · exact fun hno _ => (List.pairwise_cons.mp hno).1
      · exact fun hapart => List.pairwise_cons.mpr ⟨hapart hok, h⟩
    · rw [if_neg hok]
      exact ⟨fun _ hok' => absurd hok' hok, fun _ => h⟩
  | remove start => exact ⟨fun _ => trivial, fun _ => List.Pairwise.sublist List.eraseP_sublist h⟩

/-- Regions that share no address have different starts, so a removal leaves none
with that start. -/
theorem start_removed {live : List Region}
    (h : live.Pairwise fun r r' => ∀ addr, ¬ (r.Covers addr ∧ r'.Covers addr))
    (hproper : ∀ r ∈ live, r.start < r.stop) (start : Word) :
    ∀ r ∈ live.eraseP (fun r => r.start = start), r.start ≠ start := by
  induction live with
  | nil => exact fun r hr => absurd hr List.not_mem_nil
  | cons r₀ live ih =>
    obtain ⟨hfirst, hrest⟩ := List.pairwise_cons.mp h
    by_cases h₀ : r₀.start = start
    · -- the others do not contain the start of the one that goes
      rw [List.eraseP_cons_of_pos (by simpa using h₀)]
      intro r hr heq
      have hcovers : ∀ r ∈ r₀ :: live, r.start = start → r.Covers start := by
        rintro r hr rfl
        exact ⟨BitVec.le_refl _, hproper r hr⟩
      exact hfirst r hr start ⟨hcovers r₀ (List.mem_cons_self ..) h₀,
        hcovers r (List.mem_cons_of_mem _ hr) heq⟩
    · rw [List.eraseP_cons_of_neg (by simpa using h₀)]
      intro r hr
      rcases List.mem_cons.mp hr with rfl | hr
      · exact h₀
      · exact ih hrest (fun r' hr' => hproper r' (List.mem_cons_of_mem _ hr')) r hr

/-- The region found is the only one. -/
theorem found_only (h : v.NoOverlap) {r r' : Region} {addr : Word} (hr : r ∈ v.live)
    (hr' : r' ∈ v.live) (hcovers : r.Covers addr) (hcovers' : r'.Covers addr) : r = r' := by
  refine List.Pairwise.forall_of_forall_of_flip (R := fun r r' : Region =>
    r.Covers addr ∧ r'.Covers addr → r = r') (fun _ _ _ => rfl)
    (h.imp fun hno hboth => absurd hboth (hno addr))
    (h.imp fun hno hboth => absurd hboth.symm (hno addr)) hr hr' ⟨hcovers, hcovers'⟩

end Step

section Memory

variable {s : State} {list : Word} {v : Regions} {fuel : Nat}

theorem Holds.inVma_iff (h : Holds list s v) {r : Region} (hr : r ∈ v.live) (addr : Word) :
    s.InVma r.node addr ↔ r.Covers addr := by
  have hstored := h.stored r hr
  rw [State.InVma, hstored.start, hstored.stop, Region.Covers]

/-- The list is as it should be exactly when no two live regions overlap. -/
theorem separate_iff (h : Holds list s v) (hproper : v.Proper) (hfuel : v.live.length < fuel) :
    Separate fuel list s ↔ v.NoOverlap := by
  constructor
  · intro hsep
    obtain ⟨nodes, hchain, hpair⟩ := hsep.disjoint
    obtain rfl := hchain.unique h.chain
    rw [List.pairwise_map] at hpair
    refine hpair.imp_of_mem fun {r r'} hr hr' hno addr hboth => hno addr ?_
    exact ⟨(h.inVma_iff hr addr).mpr hboth.1, (h.inVma_iff hr' addr).mpr hboth.2⟩
  · intro hno
    refine ⟨⟨_, h.chain, ?_⟩, ⟨_, h.chain, ?_⟩, fun start => ?_⟩
    · rw [List.pairwise_map]
      refine hno.imp_of_mem fun {r r'} hr hr' hno addr hboth => hno addr ?_
      exact ⟨(h.inVma_iff hr addr).mp hboth.1, (h.inVma_iff hr' addr).mp hboth.2⟩
    · intro addr p hfind hp q hq hcovers
      obtain ⟨r', hr', rfl⟩ := List.mem_map.mp hq
      rw [h.find addr hfuel, Option.some.injEq, Regions.find] at hfind
      cases hres : v.live.find? fun r => r.Covers addr with
      | none =>
        rw [hres] at hfind
        exact absurd hfind.symm hp
      | some r =>
        rw [hres] at hfind
        have hcovers' : r.Covers addr := by simpa using List.find?_some hres
        rw [← found_only hno (List.mem_of_find?_eq_some hres) hr' hcovers'
          ((h.inVma_iff hr' addr).mp hcovers)]
        exact hfind
    · obtain ⟨s', hremove, h'⟩ := h.remove start hfuel
      refine ⟨s', _, hremove, h'.chain, fun p hp => ?_⟩
      obtain ⟨r, hr, rfl⟩ := List.mem_map.mp hp
      rw [(h'.stored r hr).start]
      exact start_removed hno hproper start r hr

end Memory

/-- **Regions do not overlap.** In every state of a run from the empty list, the
list is as it should be, if and only if every range that is added along the run
shares no address with a region live at that point. -/
theorem vmas_separate_iff {s : State} {list : Word} (hp : Placed list s)
    (hempty : s.mem list = 0#64) (ops : List VmaOp) {fuel : Nat} (hfuel : ops.length + 1 < fuel) :
    (∀ pre, pre <+: ops → ∃ s', vmaRun fuel list s pre = some s' ∧ Separate fuel list s') ↔
      Meets Regions.step Regions.AddsApart (.empty s) ops := by
  have hruns : ∀ pre, pre <+: ops → ((∃ s', vmaRun fuel list s pre = some s' ∧
      Separate fuel list s') ↔ (run Regions.step (.empty s) pre).NoOverlap) := by
    intro pre hpre
    have hlen := hpre.length_le
    have hlive : (Regions.empty s).live.length = 0 := rfl
    obtain ⟨s', hrun, h, hlen'⟩ := vmaRun_holds (holds_empty hp hempty) pre
      (show (Regions.empty s).live.length + pre.length < fuel by omega)
    have hproper : (run Regions.step (.empty s) pre).Proper :=
      run_of_meets (C := fun _ _ => True) (fun _ _ hv _ => hv.step)
        (fun r hr => absurd hr List.not_mem_nil) (meets_of_forall fun _ _ _ => trivial)
    have hsep := separate_iff h hproper (show _ < fuel by omega)
    constructor
    · rintro ⟨s'', hrun', hsep'⟩
      rw [hrun] at hrun'
      obtain rfl := Option.some.inj hrun'
      exact hsep.mp hsep'
    · exact fun hno => ⟨s', hrun, hsep.mpr hno⟩
  have hstart : (Regions.empty s).NoOverlap := .nil
  calc (∀ pre, pre <+: ops → ∃ s', vmaRun fuel list s pre = some s' ∧ Separate fuel list s')
      ↔ ∀ pre, pre <+: ops → (run Regions.step (.empty s) pre).NoOverlap :=
        forall_congr' fun pre => forall_congr' fun hpre => hruns pre hpre
    _ ↔ Throughout Regions.step Regions.NoOverlap (.empty s) ops := throughout_iff_initial.symm
    _ ↔ Meets Regions.step Regions.AddsApart (.empty s) ops :=
        throughout_iff_meets (D := fun _ _ => True) (fun _ h => h)
          (fun _ _ h _ => noOverlap_step_iff h)
          (fun _ _ h _ hapart => (noOverlap_step_iff h).mpr hapart) hstart
          (meets_of_forall fun _ _ _ => trivial)

/-- Adjacent regions, one of them removed and added again. -/
theorem vmas_separate_adjacent :
    let s := boot 0x200000#64 fun _ => 0#64
    ∃ s', vmaRun 8 0x1000#64 s [.add 0x4000#64 0x6000#64 1#64, .add 0x6000#64 0x8000#64 1#64,
        .remove 0x4000#64, .add 0x5000#64 0x6000#64 2#64] = some s' ∧ Separate 8 0x1000#64 s' := by
  intro s
  have hp : Placed 0x1000#64 s := ⟨by decide, by decide, by decide, .inl (by decide)⟩
  refine (vmas_separate_iff hp rfl [.add 0x4000#64 0x6000#64 1#64, .add 0x6000#64 0x8000#64 1#64,
    .remove 0x4000#64, .add 0x5000#64 0x6000#64 2#64] (show 5 < 8 by decide)).mpr ?_ _
    List.prefix_rfl
  have hone : ((Regions.empty s).step (.add 0x4000#64 0x6000#64 1#64)).live =
      [⟨0x200000#64, 0x4000#64, 0x6000#64, 1#64⟩] := by decide
  have hother : ((((Regions.empty s).step (.add 0x4000#64 0x6000#64 1#64)).step
      (.add 0x6000#64 0x8000#64 1#64)).step (.remove 0x4000#64)).live =
      [⟨0x200020#64, 0x6000#64, 0x8000#64, 1#64⟩] := by decide
  refine ⟨fun _ r hr => absurd hr List.not_mem_nil, fun _ r hr addr hboth => ?_, trivial,
    fun _ r hr addr hboth => ?_, trivial⟩
  · rw [hone, List.mem_singleton] at hr
    rw [hr] at hboth
    exact BitVec.not_le.mpr hboth.2.2 hboth.1.1
  · rw [hother, List.mem_singleton] at hr
    rw [hr] at hboth
    exact BitVec.not_le.mpr hboth.1.2 hboth.2.1

/-- Two regions with the same start are both accepted; one removal leaves the other. -/
theorem regions_overlap :
    let s := boot 0x200000#64 fun _ => 0#64
    let ops : List VmaOp := [.add 0x4000#64 0x8000#64 1#64, .add 0x4000#64 0x5000#64 2#64]
    ∃ s', vmaRun 8 0x1000#64 s ops = some s' ∧ s'.mem 0x1000#64 = 0x200020#64 ∧
      s'.mem (vmaLink 0x200020#64) = 0x200000#64 ∧ s'.InVma 0x200020#64 0x4800#64 ∧
      s'.InVma 0x200000#64 0x4800#64 ∧ ¬ Separate 8 0x1000#64 s' := by
  intro s ops
  refine ⟨_, rfl, by decide, by decide, by decide, by decide, fun hsep => ?_⟩
  obtain ⟨nodes, hchain, hpair⟩ := hsep.disjoint
  have hnodes : CellChain 0#64 vmaLink
      (mmVmaAdd (mmVmaAdd s 0x1000#64 0x4000#64 0x8000#64 1#64).2 0x1000#64 0x4000#64 0x5000#64
        2#64).2.mem 0x1000#64 [0x200020#64, 0x200000#64] :=
    cellChain_cons_iff.mpr ⟨by decide, by decide, cellChain_cons_iff.mpr
      ⟨by decide, by decide, cellChain_nil_iff.mpr (by decide)⟩⟩
  obtain rfl := hchain.unique hnodes
  exact (List.pairwise_cons.mp hpair).1 _ (List.mem_singleton_self _) 0x4800#64
    ⟨by decide, by decide⟩

end AegisKernel.Mm
