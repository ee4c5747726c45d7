import AegisKernel.Library.Runs
import AegisKernel.Mm.Definitions

/-!
# Memory management — when heap blocks are disjoint

`mm_alloc` compares `start + size` with the heap size after the addition has
wrapped. A request whose true end lies between `2^64` and
`2^64 + KERNEL_HEAP_SIZE` is therefore granted, and moves `heap_offset` back
to the wrapped end.

* `align_up_least` — `align_up` is the least aligned upper bound.
* `alloc_cases` — what one call does, in terms of natural numbers: it fails, it
  grants a block above everything allocated so far, or it wraps.
* `BlockOk` — what a call should do: a granted block lies inside the heap and
  off every earlier block, `heap_offset` does not decrease, and a refused call
  leaves it alone.
* `NoWrap` — the calls whose end does not wrap into the heap.

`blocks_ok_iff` says that along a run these are the same thing.
-/

namespace AegisKernel.Mm

open Library

/-- A request to `mm_alloc`. -/
structure Request where
  size : Word
  align : Word

/-- The state of `mm.c` and the blocks granted so far, as pairs of start and
end. -/
structure History where
  state : State
  blocks : List (Nat × Nat)

namespace History

/-- Perform one request and record the block it grants. -/
def step (h : History) (r : Request) : History :=
  match mmAlloc h.state r.size r.align with
  | (none, s) => { h with state := s }
  | (some start, s) =>
    { state := s, blocks := (start.toNat, start.toNat + r.size.toNat) :: h.blocks }

end History

/-- Two blocks share no byte. -/
def Disjoint (b c : Nat × Nat) : Prop := ∀ x, b.1 ≤ x → x < b.2 → ¬ (c.1 ≤ x ∧ x < c.2)

/-- What a call of `mm_alloc` should do. -/
structure BlockOk (h : History) (r : Request) : Prop where
  inside : ∀ start, (mmAlloc h.state r.size r.align).1 = some start →
    start.toNat + r.size.toNat ≤ KERNEL_HEAP_SIZE.toNat
  disjoint : ∀ start, (mmAlloc h.state r.size r.align).1 = some start →
    ∀ b ∈ h.blocks, Disjoint (start.toNat, start.toNat + r.size.toNat) b
  mono : h.state.heapOffset.toNat ≤ (mmAlloc h.state r.size r.align).2.heapOffset.toNat
  failed : (mmAlloc h.state r.size r.align).1 = none →
    (mmAlloc h.state r.size r.align).2.heapOffset = h.state.heapOffset

/-- The end of the requested block, without wrapping. -/
def blockEnd (h : History) (r : Request) : Nat :=
  roundUp r.align.toNat h.state.heapOffset.toNat + r.size.toNat

/-- The end of the block does not wrap around, or wraps to a place behind the
heap. -/
def NoWrap (h : History) (r : Request) : Prop :=
  blockEnd h r < 2 ^ 64 ∨ 2 ^ 64 + KERNEL_HEAP_SIZE.toNat < blockEnd h r

def PowerOfTwo (align : Word) : Prop := ∃ k, align.toNat = 2 ^ k

/-- Every block granted so far ends at or below `heap_offset`, which is inside
the heap. -/
structure HeapInv (h : History) : Prop where
  offset_le : h.state.heapOffset.toNat ≤ KERNEL_HEAP_SIZE.toNat
  below : ∀ b ∈ h.blocks, b.2 ≤ h.state.heapOffset.toNat

section Calls

variable {s : State} {h : History} {r : Request}

theorem heapSize_toNat : KERNEL_HEAP_SIZE.toNat = 262144 := rfl

theorem PowerOfTwo.pos {align : Word} (ha : PowerOfTwo align) : 0 < align.toNat := by
  obtain ⟨k, hk⟩ := ha
  rw [hk]
  exact Nat.two_pow_pos k

theorem PowerOfTwo.dvd_two_pow {align : Word} (ha : PowerOfTwo align) : align.toNat ∣ 2 ^ 64 := by
  obtain ⟨k, hk⟩ := ha
  have hlt := align.isLt
  rw [hk] at hlt ⊢
  exact Nat.pow_dvd_pow 2 ((Nat.pow_lt_pow_iff_right (by omega)).mp hlt).le

/-- `align_up` rounds up, as long as the sum does not wrap. -/
theorem alignUp_eq {value align : Word} (ha : PowerOfTwo align)
    (hsum : value.toNat + align.toNat - 1 < 2 ^ 64) :
    (alignUp value align).toNat = roundUp align.toNat value.toNat := by
  obtain ⟨k, hk⟩ := ha
  exact toNat_add_sub_one_and_not value align hk hsum

/-- What is rounded up can be rounded up again: the last multiple of `align` is `align`
below `2^64`. -/
theorem PowerOfTwo.sum_lt {value align : Word} (ha : PowerOfTwo align)
    (hv : align.toNat ∣ value.toNat) : value.toNat + align.toNat - 1 < 2 ^ 64 := by
  have hpos := ha.pos
  have hlt := value.isLt
  have hgap : align.toNat ≤ 2 ^ 64 - value.toNat :=
    Nat.le_of_dvd (by omega) (Nat.dvd_sub ha.dvd_two_pow hv)
  omega

/-- **`align_up` gives the least multiple of the alignment that is not below the value**,
as long as the sum does not wrap. It is monotone and idempotent. -/
theorem align_up_least (value align : Word) (ha : PowerOfTwo align)
    (hsum : value.toNat + align.toNat - 1 < 2 ^ 64) :
    align.toNat ∣ (alignUp value align).toNat ∧
      value ≤ alignUp value align ∧
      (alignUp value align).toNat < value.toNat + align.toNat ∧
      (∀ m : Nat, align.toNat ∣ m → value.toNat ≤ m → (alignUp value align).toNat ≤ m) ∧
      (∀ value', value' ≤ value → alignUp value' align ≤ alignUp value align) ∧
      alignUp (alignUp value align) align = alignUp value align := by
  have hpos := ha.pos
  have hup := alignUp_eq ha hsum
  have hdvd : align.toNat ∣ (alignUp value align).toNat := by
    rw [hup]
    exact dvd_roundUp _ _
  refine ⟨hdvd, ?_, ?_, fun m hm hle => ?_, fun value' hle => ?_, ?_⟩
  · rw [BitVec.le_def, hup]
    exact le_roundUp hpos
  · rw [hup]
    exact roundUp_lt hpos
  · rw [hup]
    exact roundUp_least hm hle
  · rw [BitVec.le_def] at hle ⊢
    rw [hup, alignUp_eq ha (by omega)]
    exact roundUp_mono hpos hle
  · rw [← BitVec.toNat_inj, alignUp_eq ha (ha.sum_lt hdvd)]
    exact roundUp_eq_self hpos hdvd

/-- One byte behind a page. -/
theorem align_up_least_page :
    4096 ∣ (alignUp 4097#64 4096#64).toNat ∧
      4097#64 ≤ alignUp 4097#64 4096#64 ∧
      (alignUp 4097#64 4096#64).toNat < 4097 + 4096 ∧
      (∀ m : Nat, 4096 ∣ m → 4097 ≤ m → (alignUp 4097#64 4096#64).toNat ≤ m) ∧
      (∀ value', value' ≤ 4097#64 → alignUp value' 4096#64 ≤ alignUp 4097#64 4096#64) ∧
      alignUp (alignUp 4097#64 4096#64) 4096#64 = alignUp 4097#64 4096#64 :=
  align_up_least 4097#64 4096#64 ⟨12, rfl⟩ (by simp)

/-- With `heap_offset` inside the heap, the alignment step cannot wrap. -/
theorem alignUp_toNat {value align : Word} (hv : value.toNat ≤ KERNEL_HEAP_SIZE.toNat)
    (ha : PowerOfTwo align) : (alignUp value align).toNat = roundUp align.toNat value.toNat := by
  have hpos := ha.pos
  -- a power of two below 2^64 is at most 2^63
  have hk63 : align.toNat ≤ 2 ^ 63 := by
    obtain ⟨k, hk⟩ := ha
    have hlt := align.isLt
    rw [hk] at hlt ⊢
    have hk' : k < 64 := (Nat.pow_lt_pow_iff_right (by omega)).mp hlt
    exact Nat.pow_le_pow_right (by omega) (by omega)
  rw [heapSize_toNat] at hv
  exact alignUp_eq ha (by omega)

/-- What one call does. -/
theorem alloc_cases (hv : s.heapOffset.toNat ≤ KERNEL_HEAP_SIZE.toNat) (size : Word)
    {align : Word} (ha : PowerOfTwo align) :
    let stop := roundUp align.toNat s.heapOffset.toNat + size.toNat
    (KERNEL_HEAP_SIZE.toNat < stop % 2 ^ 64 ∧ mmAlloc s size align = (none, s)) ∨
    (stop % 2 ^ 64 ≤ KERNEL_HEAP_SIZE.toNat ∧ ∃ start : Word,
      start.toNat = roundUp align.toNat s.heapOffset.toNat ∧
      mmAlloc s size align = (some start, { s with heapOffset := start + size }) ∧
      (start + size).toNat = stop % 2 ^ 64) := by
  intro stop
  have hstart := alignUp_toNat hv ha
  have hsum : (alignUp s.heapOffset align + size).toNat = stop % 2 ^ 64 := by
    rw [BitVec.toNat_add, hstart]
  unfold mmAlloc
  dsimp only
  by_cases hgt : alignUp s.heapOffset align + size > KERNEL_HEAP_SIZE
  · refine .inl ⟨?_, if_pos hgt⟩
    rw [← hsum]
    exact hgt
  · refine .inr ⟨?_, alignUp s.heapOffset align, hstart, if_neg hgt, hsum⟩
    rw [← hsum]
    exact Nat.le_of_not_lt hgt

/-- Where the block of a small request lies in memory. -/
theorem alloc_block (hv : s.heapOffset.toNat ≤ KERNEL_HEAP_SIZE.toNat)
    (harea : s.heapArea.toNat + KERNEL_HEAP_SIZE.toNat ≤ 2 ^ 64) {size align : Word}
    (ha : PowerOfTwo align) (hpos : 0 < size.toNat) (hsize : size.toNat ≤ 2 ^ 32)
    (halign : align.toNat ≤ 2 ^ 32) :
    mmAlloc s size align = (none, s) ∨
    ∃ start : Word, mmAlloc s size align = (some start, { s with heapOffset := start + size }) ∧
      s.heapArea.toNat + s.heapOffset.toNat ≤ (s.heapArea + start).toNat ∧
      (s.heapArea + start).toNat + size.toNat = s.heapArea.toNat + (start + size).toNat ∧
      (start + size).toNat ≤ KERNEL_HEAP_SIZE.toNat := by
  rcases alloc_cases hv size ha with ⟨-, hres⟩ | ⟨hfit, start, hstart, hres, hstop⟩
  · exact .inl hres
  · have hle := le_roundUp (n := s.heapOffset.toNat) ha.pos
    have hup := roundUp_le (a := align.toNat) (n := s.heapOffset.toNat)
    rw [heapSize_toNat] at hv harea hfit
    rw [← hstart] at hle hup hfit hstop
    refine .inr ⟨start, hres, ?_, ?_, ?_⟩
    · rw [BitVec.toNat_add]
      omega
    · rw [BitVec.toNat_add, hstop]
      omega
    · rw [hstop, heapSize_toNat]
      omega

/-- Where a page lies in memory. -/
theorem alloc_page (hv : s.heapOffset.toNat ≤ KERNEL_HEAP_SIZE.toNat)
    (harea : s.heapArea.toNat + KERNEL_HEAP_SIZE.toNat ≤ 2 ^ 64) :
    mmAlloc s AEGIS_PAGE_SIZE AEGIS_PAGE_SIZE = (none, s) ∨
    ∃ start : Word, mmAlloc s AEGIS_PAGE_SIZE AEGIS_PAGE_SIZE =
        (some start, { s with heapOffset := start + AEGIS_PAGE_SIZE }) ∧
      s.heapArea.toNat + s.heapOffset.toNat ≤ (s.heapArea + start).toNat ∧
      (s.heapArea + start).toNat + 4096 =
        s.heapArea.toNat + (start + AEGIS_PAGE_SIZE).toNat ∧
      (start + AEGIS_PAGE_SIZE).toNat ≤ KERNEL_HEAP_SIZE.toNat :=
  alloc_block hv harea ⟨12, rfl⟩ (by decide) (by decide) (by decide)

theorem refused_ok (hI : HeapInv h) (hres : mmAlloc h.state r.size r.align = (none, h.state)) :
    BlockOk h r ∧ HeapInv (h.step r) := by
  refine ⟨⟨?_, ?_, ?_, ?_⟩, ?_⟩
  · simp [hres]
  · simp [hres]
  · simp [hres]
  · simp [hres]
  · have hstep : h.step r = h := by simp [History.step, hres]
    rw [hstep]
    exact hI

/-- A block above everything allocated so far, and inside of the heap. -/
theorem granted_ok (hI : HeapInv h) {start : Word}
    (hres : mmAlloc h.state r.size r.align =
      (some start, { h.state with heapOffset := start + r.size }))
    (hle : h.state.heapOffset.toNat ≤ start.toNat)
    (hstop : (start + r.size).toNat = start.toNat + r.size.toNat)
    (hin : start.toNat + r.size.toNat ≤ KERNEL_HEAP_SIZE.toNat) :
    BlockOk h r ∧ HeapInv (h.step r) := by
  refine ⟨⟨?_, ?_, ?_, ?_⟩, ?_⟩
  · intro start' hs
    rw [hres] at hs
    obtain rfl := Option.some.inj hs
    exact hin
  -- old blocks end at or below `heap_offset`, the new one starts there or above
  · intro start' hs b hb x hx _ hbx
    rw [hres] at hs
    obtain rfl := Option.some.inj hs
    have hold := hI.below b hb
    dsimp only at hx
    omega
  · rw [hres]
    dsimp only
    omega
  · simp [hres]
  · have hoffset' : (h.step r).state.heapOffset = start + r.size := by
      simp [History.step, hres]
    have hblocks : (h.step r).blocks =
        (start.toNat, start.toNat + r.size.toNat) :: h.blocks := by
      simp [History.step, hres]
    refine ⟨by rw [hoffset', hstop]; exact hin, fun b hb => ?_⟩
    rw [hblocks] at hb
    rw [hoffset', hstop]
    rcases List.mem_cons.mp hb with rfl | hb
    · exact le_refl _
    · have hold := hI.below b hb
      omega

/-- A call that does not wrap does what it should, and keeps the invariant. -/
theorem noWrap_ok (hI : HeapInv h) (ha : PowerOfTwo r.align) (hno : NoWrap h r) :
    BlockOk h r ∧ HeapInv (h.step r) := by
  have hoff := hI.offset_le
  have hle := le_roundUp (n := h.state.heapOffset.toNat) ha.pos
  rcases alloc_cases hoff r.size ha with ⟨hgt, hres⟩ | ⟨hfit, start, hstart, hres, hsum⟩
  · exact refused_ok hI hres
  · -- granted: the end is below 2^64, so the comparison was exact
    unfold NoWrap blockEnd at hno
    have hsize := r.size.isLt
    have halign := r.align.isLt
    have hoffset := roundUp_le (a := r.align.toNat) (n := h.state.heapOffset.toNat)
    rw [heapSize_toNat] at hoff hfit hno
    -- `NoWrap` excludes sums that come back inside the heap
    have hstop : (start + r.size).toNat = start.toNat + r.size.toNat := by
      omega
    have hin : start.toNat + r.size.toNat ≤ KERNEL_HEAP_SIZE.toNat := by
      rw [heapSize_toNat]
      omega
    exact granted_ok hI hres (by omega) hstop hin

/-- A call that wraps into the heap grants a block that does not fit. -/
theorem wrap_not_ok (hI : HeapInv h) (ha : PowerOfTwo r.align) (hwrap : ¬ NoWrap h r) :
    ¬ BlockOk h r := by
  intro hok
  have hsize := r.size.isLt
  unfold NoWrap blockEnd at hwrap
  rw [heapSize_toNat] at hwrap
  rcases alloc_cases hI.offset_le r.size ha with ⟨hgt, hres⟩ | ⟨hfit, start, hstart, hres, hsum⟩
  · rw [heapSize_toNat] at hgt
    omega
  · have hin := hok.inside start (by rw [hres])
    rw [heapSize_toNat] at hin
    omega

end Calls

/-- **Heap blocks along a run.** From boot, with power-of-two alignments, every
call of a run does what it should if and only if no call wraps into the heap. -/
theorem blocks_ok_iff (heapArea : Word) (mem : Word → Word) (rs : List Request)
    (hAlign : ∀ r ∈ rs, PowerOfTwo r.align) :
    Meets History.step BlockOk ⟨boot heapArea mem, []⟩ rs ↔
      Meets History.step NoWrap ⟨boot heapArea mem, []⟩ rs := by
  have hInv : HeapInv ⟨boot heapArea mem, []⟩ := by
    refine ⟨by simp [boot], fun b hb => ?_⟩
    simp at hb
  refine meets_congr (D := fun _ r => PowerOfTwo r.align) (fun h r hI ha => ?_)
    (fun h r hI ha hno => ?_) hInv (meets_of_forall fun r hr _ => hAlign r hr)
  · constructor
    · intro hok
      by_contra hwrap
      exact wrap_not_ok hI ha hwrap hok
    · exact fun hno => (noWrap_ok hI ha hno).1
  · exact (noWrap_ok hI ha hno).2

/-- Two page-sized blocks, and one that is too large, on a fresh heap. -/
theorem blocks_ok_pages :
    Meets History.step BlockOk ⟨boot 0x200000#64 (fun _ => 0#64), []⟩
      [⟨4096#64, 4096#64⟩, ⟨24#64, 8#64⟩, ⟨4096#64, 4096#64⟩, ⟨262144#64, 1#64⟩] := by
  rw [blocks_ok_iff]
  · refine ⟨.inl (by decide), .inl (by decide), .inl (by decide), .inl (by decide), trivial⟩
  · intro r hr
    simp only [List.mem_cons, List.not_mem_nil, or_false] at hr
    rcases hr with rfl | rfl | rfl | rfl
    · exact ⟨12, rfl⟩
    · exact ⟨3, rfl⟩
    · exact ⟨12, rfl⟩
    · exact ⟨0, rfl⟩

/-- After one page, a request of `2^64 - 4096` bytes is granted: its end wraps
to 0, and `heap_offset` goes back to 0. -/
theorem huge_request_granted :
    let h := History.step ⟨boot 0x200000#64 (fun _ => 0#64), []⟩ ⟨4096#64, 4096#64⟩
    let r : Request := ⟨0xFFFFFFFFFFFFF000#64, 4096#64⟩
    (mmAlloc h.state r.size r.align).1 = some 4096#64 ∧
      (mmAlloc h.state r.size r.align).2.heapOffset = 0#64 ∧ ¬ BlockOk h r := by
  intro h r
  have hres : (mmAlloc h.state r.size r.align).1 = some 4096#64 := by decide
  refine ⟨hres, by decide, fun hok => ?_⟩
  have hin := hok.inside _ hres
  revert hin
  decide

end AegisKernel.Mm
