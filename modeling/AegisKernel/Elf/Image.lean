import AegisKernel.Elf.Segments

/-!
# ELF loader — images whose headers stay as they are

The loader reads each program header when it comes to it. When no segment is written
over bytes it still reads, what it comes to is what the image says.

* `loads` — the `PT_LOAD` headers of an image.
* `tableBytes`, `sourceBytes` — the bytes of the headers the loop reads, and the
  file bytes of the segments.
* `Spares m elfData bs` — no segment of the image is written to one of the bytes.
* `visits_spec` — if the segments spare the table, the visits are to the program
  headers of the image, in order, and each finds its header as it was.
-/

namespace AegisKernel.Elf

open Library

/-- The program headers of an image. -/
def headers (m : Memory) (elfData : Word) : List Phdr :=
  (List.range (phnum m elfData)).map fun i => phdrAt m (phdrAddr (elfData + phoff m elfData) i)

/-- The `PT_LOAD` headers of an image. -/
def loads (m : Memory) (elfData : Word) : List Phdr :=
  (headers m elfData).filter fun h => h.Loads

/-- The address is among those the segment is written to. -/
def Phdr.Covers (h : Phdr) (a : Word) : Prop :=
  (a - h.vaddr).toNat < max h.filesz.toNat h.memsz.toNat

instance (h : Phdr) (a : Word) : Decidable (h.Covers a) := inferInstanceAs (Decidable (_ < _))

/-- The bytes of the headers that the loop reads. -/
def tableBytes (m : Memory) (elfData : Word) : List Word :=
  span (elfData + 56#64) 2 ++ (List.range (phnum m elfData)).flatMap fun i =>
    span (phdrAddr (elfData + phoff m elfData) i) 4 ++
      fieldBytes (phdrAddr (elfData + phoff m elfData) i)

/-- The file bytes of the segments. -/
def sourceBytes (m : Memory) (elfData : Word) : List Word :=
  (loads m elfData).flatMap fun h => span (elfData + h.offset) h.filesz.toNat

/-- No segment of the image is written to one of the bytes. -/
def Spares (m : Memory) (elfData : Word) (bs : List Word) : Prop :=
  ∀ h ∈ loads m elfData, ∀ a ∈ bs, ¬ h.Covers a

instance (m : Memory) (elfData : Word) (bs : List Word) : Decidable (Spares m elfData bs) :=
  decidable_of_iff ((loads m elfData).all fun h => bs.all fun a => ¬ h.Covers a) (by
    simp only [List.all_eq_true, decide_eq_true_eq, Spares])

section Fields

variable {m m' : Memory} {elfData p a : Word}

theorem mem_fieldBytes :
    a ∈ fieldBytes p ↔ a ∈ span (p + 8#64) 8 ∨ a ∈ span (p + 16#64) 8 ∨
      a ∈ span (p + 32#64) 8 ∨ a ∈ span (p + 40#64) 8 := by
  rw [fieldBytes, List.mem_append, List.mem_append, List.mem_append, or_assoc, or_assoc]

theorem mem_tableBytes : a ∈ tableBytes m elfData ↔
    a ∈ span (elfData + 56#64) 2 ∨ ∃ i < phnum m elfData,
      a ∈ span (phdrAddr (elfData + phoff m elfData) i) 4 ∨
        a ∈ fieldBytes (phdrAddr (elfData + phoff m elfData) i) := by
  simp only [tableBytes, List.mem_append, List.mem_flatMap, List.mem_range]

theorem phdrAt_congr (htype : ∀ a ∈ span p 4, m' a = m a)
    (hfields : ∀ a ∈ fieldBytes p, m' a = m a) : phdrAt m' p = phdrAt m p := by
  have hword : ∀ q, (∀ a ∈ span q 8, a ∈ fieldBytes p) → wordAt m' q = wordAt m q := by
    intro q hq
    unfold wordAt
    rw [fetch_congr fun a ha => hfields a (hq a ha)]
  unfold phdrAt
  rw [fetch_congr htype, hword (p + 8#64) fun a ha => mem_fieldBytes.mpr (.inl ha),
    hword (p + 16#64) fun a ha => mem_fieldBytes.mpr (.inr (.inl ha)),
    hword (p + 32#64) fun a ha => mem_fieldBytes.mpr (.inr (.inr (.inl ha))),
    hword (p + 40#64) fun a ha => mem_fieldBytes.mpr (.inr (.inr (.inr ha)))]

theorem phnum_lt (m : Memory) (elfData : Word) : phnum m elfData < 65536 := by
  have h : phnum m elfData < 256 ^ 2 := fetch_lt
  omega

/-- Distance from a later point. -/
theorem sub_add_toNat (a p k : Word) :
    (a - (p + k)).toNat = ((a - p).toNat + 2 ^ 64 - k.toNat) % 2 ^ 64 := by
  have ha := a.isLt
  have hp := p.isLt
  have hk := k.isLt
  rw [BitVec.toNat_sub, BitVec.toNat_sub, BitVec.toNat_add]
  omega

end Fields

-- ---------------------------------------------------------------------------
-- One visit
-- ---------------------------------------------------------------------------

section Visits

variable {m : Memory} {elfData a : Word} {bs : List Word} {v : Visit}

theorem Visit.bssSize_le (elfData : Word) (v : Visit) : v.bssSize elfData ≤ 2 ^ 64 := by
  unfold bssSize
  split <;> omega

/-- With the header as it was before the copy, zeros follow up to the size in
memory. -/
theorem Visit.bssSize_eq (h : v.hdr' elfData = v.hdr) :
    v.bssSize elfData = v.hdr.memsz.toNat - v.hdr.filesz.toNat := by
  unfold bssSize
  rw [h]
  split
  · rename_i hgt
    exact BitVec.toNat_sub_of_le (BitVec.le_of_lt hgt)
  · rename_i hle
    have hle' := BitVec.not_lt.mp hle
    rw [BitVec.le_def] at hle'
    omega

/-- The segment is then written to the addresses it covers. -/
theorem mem_target_iff (h : v.hdr' elfData = v.hdr) : a ∈ v.target elfData ↔ v.hdr.Covers a := by
  have hf := v.hdr.filesz.isLt
  have hd := (a - v.hdr.vaddr).isLt
  unfold Visit.target Phdr.Covers
  rw [List.mem_append, mem_span_iff hf.le, mem_span_iff (v.bssSize_le elfData),
    v.bssSize_eq h, Visit.bss, h, sub_add_toNat]
  omega

/-- A visit to a header of the image, in a memory that still has the bytes. -/
structure Undisturbed (m : Memory) (elfData : Word) (bs : List Word) (v : Visit) : Prop where
  index : ∃ i < phnum m elfData, v.addr = phdrAddr (elfData + phoff m elfData) i
  agree : ∀ a ∈ bs, v.mem a = m a

theorem Undisturbed.hdr_eq (hbs : tableBytes m elfData ⊆ bs)
    (h : Undisturbed m elfData bs v) : v.hdr = phdrAt m v.addr := by
  obtain ⟨i, hi, haddr⟩ := h.index
  refine phdrAt_congr (fun a ha => h.agree a (hbs ?_)) fun a ha => h.agree a (hbs ?_)
  · exact mem_tableBytes.mpr (.inr ⟨i, hi, .inl (haddr ▸ ha)⟩)
  · exact mem_tableBytes.mpr (.inr ⟨i, hi, .inr (haddr ▸ ha)⟩)

/-- The header is one of the image's. -/
theorem Undisturbed.mem_loads (hbs : tableBytes m elfData ⊆ bs)
    (h : Undisturbed m elfData bs v) (hloads : v.hdr.Loads) : v.hdr ∈ loads m elfData := by
  obtain ⟨i, hi, haddr⟩ := h.index
  refine List.mem_filter.mpr ⟨?_, by simpa using hloads⟩
  rw [h.hdr_eq hbs, haddr]
  exact List.mem_map_of_mem (List.mem_range.mpr hi)

/-- The copy leaves the bytes, and with them the header. -/
theorem Undisturbed.copied_agree (hbs : tableBytes m elfData ⊆ bs)
    (hspares : Spares m elfData bs) (h : Undisturbed m elfData bs v) (hloads : v.hdr.Loads) :
    ∀ a ∈ bs, v.copied elfData a = m a := by
  intro a ha
  have hout : a ∉ span v.hdr.vaddr v.hdr.filesz.toNat := by
    intro hmem
    refine hspares v.hdr (h.mem_loads hbs hloads) a ha ?_
    have hdist := (mem_span_iff (v.hdr.filesz.isLt.le)).mp hmem
    exact Nat.lt_of_lt_of_le hdist (Nat.le_max_left _ _)
  exact (copyUp_outside hout).trans (h.agree a ha)

theorem Undisturbed.hdr'_eq (hbs : tableBytes m elfData ⊆ bs)
    (hspares : Spares m elfData bs) (h : Undisturbed m elfData bs v) (hloads : v.hdr.Loads) :
    v.hdr' elfData = v.hdr := by
  have hagree := h.copied_agree hbs hspares hloads
  obtain ⟨i, hi, haddr⟩ := h.index
  rw [h.hdr_eq hbs]
  refine phdrAt_congr (fun a ha => hagree a (hbs ?_)) fun a ha => hagree a (hbs ?_)
  · exact mem_tableBytes.mpr (.inr ⟨i, hi, .inl (haddr ▸ ha)⟩)
  · exact mem_tableBytes.mpr (.inr ⟨i, hi, .inr (haddr ▸ ha)⟩)

/-- Memory after the visit still has the bytes. -/
theorem Undisturbed.memAfter_agree (hbs : tableBytes m elfData ⊆ bs)
    (hspares : Spares m elfData bs) (h : Undisturbed m elfData bs v) :
    ∀ a ∈ bs, v.memAfter elfData a = m a := by
  intro a ha
  unfold Visit.memAfter
  by_cases hloads : v.hdr.Loads
  · have hhdr := h.hdr'_eq hbs hspares hloads
    have hout : a ∉ span (v.bss elfData) (v.bssSize elfData) := by
      intro hmem
      refine hspares v.hdr (h.mem_loads hbs hloads) a ha ((mem_target_iff hhdr).mp ?_)
      exact List.mem_append_right _ hmem
    rw [if_pos hloads, fillUp_outside hout]
    exact h.copied_agree hbs hspares hloads a ha
  · rw [if_neg hloads]
    exact h.agree a ha

end Visits

-- ---------------------------------------------------------------------------
-- All visits
-- ---------------------------------------------------------------------------

section Walk

variable {m m' : Memory} {elfData : Word} {bs : List Word} {n : Nat}

theorem phnum_agree (hbs : tableBytes m elfData ⊆ bs) (hagree : ∀ a ∈ bs, m' a = m a) :
    phnum m' elfData = phnum m elfData :=
  fetch_congr fun a ha => hagree a (hbs (mem_tableBytes.mpr (.inl ha)))

/-- The visits from `i = 65535 - n` on. -/
theorem visits_spec (heap : Mm.State) (hbs : tableBytes m elfData ⊆ bs)
    (hspares : Spares m elfData bs) (hn : n ≤ 65535) (hagree : ∀ a ∈ bs, m' a = m a) :
    (visits elfData (elfData + phoff m elfData) n m' heap).map Visit.addr =
        (List.range' (65535 - n) (phnum m elfData - (65535 - n))).map
          (phdrAddr (elfData + phoff m elfData)) ∧
      ∀ v ∈ visits elfData (elfData + phoff m elfData) n m' heap, Undisturbed m elfData bs v := by
  have hlt := phnum_lt m elfData
  induction n generalizing m' heap with
  | zero =>
    rw [show phnum m elfData - (65535 - 0) = 0 by omega]
    exact ⟨rfl, fun v hv => absurd hv List.not_mem_nil⟩
  | succ n ih =>
    rw [visits, phnum_agree hbs hagree]
    by_cases hi : 65535 - (n + 1) < phnum m elfData
    · set v : Visit := ⟨phdrAddr (elfData + phoff m elfData) (65535 - (n + 1)), m', heap⟩ with hv
      have hund : Undisturbed m elfData bs v := ⟨⟨_, hi, rfl⟩, hagree⟩
      obtain ⟨haddrs, hall⟩ := ih v.heapAfter (by omega) (hund.memAfter_agree hbs hspares)
      rw [if_pos hi]
      refine ⟨?_, List.forall_mem_cons.mpr ⟨hund, hall⟩⟩
      rw [List.map_cons, haddrs, show phnum m elfData - (65535 - (n + 1)) =
          (phnum m elfData - (65535 - n)) + 1 by omega, List.range'_succ, List.map_cons,
        show 65535 - (n + 1) + 1 = 65535 - n by omega]
    · rw [if_neg hi, show phnum m elfData - (65535 - (n + 1)) = 0 by omega]
      exact ⟨rfl, fun v hv => absurd hv List.not_mem_nil⟩

/-- The loader visits the program headers of the image, in order. -/
theorem loadVisits_spec (heap : Mm.State) (hbs : tableBytes m elfData ⊆ bs)
    (hspares : Spares m elfData bs) :
    (loadVisits m heap elfData).map Visit.addr =
        (List.range (phnum m elfData)).map (phdrAddr (elfData + phoff m elfData)) ∧
      (∀ v ∈ loadVisits m heap elfData, Undisturbed m elfData bs v) ∧
      (loadVisits m heap elfData).map Visit.hdr = headers m elfData := by
  obtain ⟨haddrs, hall⟩ := visits_spec heap hbs hspares (Nat.le_refl 65535) (fun a _ => rfl)
  rw [Nat.sub_self, Nat.sub_zero, ← List.range_eq_range', ← loadVisits] at haddrs
  refine ⟨haddrs, hall, ?_⟩
  calc (loadVisits m heap elfData).map Visit.hdr
      = (loadVisits m heap elfData).map (fun v => phdrAt m v.addr) :=
        List.map_congr_left fun v hv => (hall v hv).hdr_eq hbs
    _ = ((loadVisits m heap elfData).map Visit.addr).map (phdrAt m) := by rw [List.map_map]; rfl
    _ = headers m elfData := by rw [haddrs, List.map_map]; rfl

/-- The first visit, if there is a program header. -/
theorem first_visit (heap : Mm.State) (h : 0 < phnum m elfData) :
    ⟨phdrAddr (elfData + phoff m elfData) 0, m, heap⟩ ∈ loadVisits m heap elfData := by
  rw [loadVisits, visits, Nat.sub_self, if_pos h]
  exact List.mem_cons_self

end Walk

-- ---------------------------------------------------------------------------
-- A small image
-- ---------------------------------------------------------------------------

/-- An image of 121 bytes: the ELF header, one `PT_LOAD` header and the byte `0xC3`. -/
def smallImage (offset vaddr filesz memsz : Nat) : Bytes :=
  [0x7F, 0x45, 0x4C, 0x46, 2, 1] ++ List.replicate 10 0 ++
    le 2 ELF_TYPE_EXEC ++ le 2 ELF_MACHINE_X86_64 ++ le 4 1 ++
    le 8 vaddr ++ le 8 ehdrSize ++ le 8 0 ++ -- `e_entry`, `e_phoff`, `e_shoff`
    le 4 0 ++ le 2 ehdrSize ++ le 2 phdrSize ++ le 2 1 ++ List.replicate 6 0 ++
    le 4 ELF_PT_LOAD ++ le 4 5 ++ le 8 offset ++ le 8 vaddr ++ le 8 vaddr ++
    le 8 filesz ++ le 8 memsz ++ le 8 4096 ++ [0xC3]

/-- The image at `0x1000`. -/
def small (offset vaddr filesz memsz : Nat) : Memory :=
  bytesAt 0x1000#64 (smallImage offset vaddr filesz memsz)

theorem loads_small :
    loads (small 120 0x400000 1 2) 0x1000#64 = [⟨1, 120#64, 0x400000#64, 1#64, 2#64⟩] := by
  decide

/-- `mm.c` with so much of its heap in use. -/
def heapUsed (offset : Word) : Mm.State := ⟨0x100000#64, offset, 0#64, 0#64, 0#64, fun _ => 0#64⟩

end AegisKernel.Elf
