import AegisKernel.Library.Overlay
import AegisKernel.Elf.Image

/-!
# ELF loader — segments as an overlay

Where no segment is written over image bytes the loader still reads, loading lays
the segments over memory one after the other: file bytes first, then zeros up to
the size in memory.

* `Phdr.byteAt` — the byte a segment has at an address.
* `Undisturbed.memAfter_eq` — one visit covers memory with its segment.
* `elf_load_overlay` — the memory `elf_load` leaves: at each address the byte of
  the last segment there.
-/

namespace AegisKernel.Elf

open Library

/-- The byte a segment has at an address: of the file, or zero. -/
def Phdr.byteAt (m : Memory) (elfData : Word) (h : Phdr) (a : Word) : Option UInt8 :=
  if (a - h.vaddr).toNat < h.filesz.toNat then some (m (elfData + h.offset + (a - h.vaddr)))
  else if (a - h.vaddr).toNat < h.memsz.toNat then some 0
  else none

/-- No segment is written over bytes of the image that the loop reads. -/
def Apart (m : Memory) (elfData : Word) : Prop :=
  Spares m elfData (tableBytes m elfData ++ sourceBytes m elfData)

/-- The program header of an event. -/
def Event.header : Event → Option Word
  | .phdr p => some p
  | _ => none

section Overlay

variable {m m' : Memory} {elfData a : Word} {bs : List Word} {v : Visit} {n : Nat}

/-- A visit to a `PT_LOAD` header covers memory with the segment. -/
theorem Undisturbed.memAfter_eq (hbs : tableBytes m elfData ⊆ bs)
    (hsource : sourceBytes m elfData ⊆ bs) (hspares : Spares m elfData bs)
    (h : Undisturbed m elfData bs v) (hloads : v.hdr.Loads) :
    v.memAfter elfData = cover (Phdr.byteAt m elfData) v.mem v.hdr := by
  funext a
  have hf := v.hdr.filesz.isLt
  have hmem := h.mem_loads hbs hloads
  have hhdr := h.hdr'_eq hbs hspares hloads
  -- the source is not written to
  have hfile : ∀ x ∈ span (elfData + v.hdr.offset) v.hdr.filesz.toNat, x ∈ bs := fun x hx =>
    hsource (List.mem_flatMap.mpr ⟨v.hdr, hmem, hx⟩)
  have hcopied := copyUp_eq (m := v.mem) hf.le (fun x hx hmem' => hspares v.hdr hmem x (hfile x hx)
    (Nat.lt_of_lt_of_le ((mem_span_iff hf.le).mp hmem') (Nat.le_max_left _ _))) a
  unfold Visit.memAfter cover Phdr.byteAt
  rw [if_pos hloads, fillUp_eq (v.bssSize_le elfData), v.bssSize_eq hhdr, Visit.bss, hhdr,
    sub_add_toNat, Visit.copied, hcopied]
  by_cases hd : (a - v.hdr.vaddr).toNat < v.hdr.filesz.toNat
  · -- a byte of the file
    have hin : elfData + v.hdr.offset + (a - v.hdr.vaddr) ∈
        span (elfData + v.hdr.offset) v.hdr.filesz.toNat := by
      rw [mem_span_iff hf.le, BitVec.add_comm, BitVec.add_sub_cancel]
      exact hd
    rw [if_neg (by omega), if_pos hd, if_pos hd, h.agree _ (hfile _ hin)]
    rfl
  · rw [if_neg hd, if_neg hd]
    by_cases hz : (a - v.hdr.vaddr).toNat < v.hdr.memsz.toNat
    · rw [if_pos hz, if_pos (by omega)]
      rfl
    · rw [if_neg hz, if_neg (by omega)]
      rfl

/-- The visits lay the segments of their headers over memory. -/
theorem visits_overlay (heap : Mm.State) (hbs : tableBytes m elfData ⊆ bs)
    (hsource : sourceBytes m elfData ⊆ bs) (hspares : Spares m elfData bs)
    (hn : n ≤ 65535) (hagree : ∀ a ∈ bs, m' a = m a) :
    let vs := visits elfData (elfData + phoff m elfData) n m' heap
    memAfterAll elfData m' vs =
      overlay (Phdr.byteAt m elfData) m' ((vs.map Visit.hdr).filter fun h => h.Loads) := by
  induction n generalizing m' heap with
  | zero => rfl
  | succ n ih =>
    intro vs
    have hvs : vs = visits elfData (elfData + phoff m elfData) (n + 1) m' heap := rfl
    rw [visits, phnum_agree hbs hagree] at hvs
    by_cases hi : 65535 - (n + 1) < phnum m elfData
    · rw [if_pos hi] at hvs
      set v : Visit := ⟨phdrAddr (elfData + phoff m elfData) (65535 - (n + 1)), m', heap⟩ with hv
      have hund : Undisturbed m elfData bs v := ⟨⟨_, hi, rfl⟩, hagree⟩
      have hrest := ih v.heapAfter (by omega) (hund.memAfter_agree hbs hspares)
      rw [hvs, List.map_cons]
      refine Eq.trans hrest ?_
      by_cases hloads : v.hdr.Loads
      · rw [List.filter_cons_of_pos (by simpa using hloads), overlay_cons,
          ← hund.memAfter_eq hbs hsource hspares hloads]
      · rw [List.filter_cons_of_neg (by simpa using hloads), Visit.memAfter, if_neg hloads]
    · rw [if_neg hi] at hvs
      rw [hvs]
      rfl

theorem header_copyEvents {dst src : Word} {n : Nat} :
    (copyEvents dst src n).filterMap Event.header = [] := by
  induction n generalizing dst src with
  | zero => rfl
  | succ n ih => simpa [copyEvents, Event.header] using ih

theorem header_read (as : List Word) : (as.map Event.read).filterMap Event.header = [] := by
  rw [List.filterMap_map]
  exact List.filterMap_eq_nil_iff.mpr fun _ _ => rfl

theorem header_write (as : List Word) : (as.map Event.write).filterMap Event.header = [] := by
  rw [List.filterMap_map]
  exact List.filterMap_eq_nil_iff.mpr fun _ _ => rfl

/-- A visit is to one program header. -/
theorem header_events (elfData : Word) (v : Visit) :
    (v.events elfData).filterMap Event.header = [v.addr] := by
  have hsegment : (v.segmentEvents elfData).filterMap Event.header = [] := by
    simp only [Visit.segmentEvents, List.filterMap_append, header_read, header_write,
      header_copyEvents, List.append_nil, List.nil_append]
    rfl
  unfold Visit.events
  rw [List.filterMap_append, List.filterMap_append, header_read]
  split
  · rw [hsegment]
    rfl
  · rfl

theorem header_loopEvents (elfData : Word) (vs : List Visit) :
    (loopEvents elfData vs).filterMap Event.header = vs.map Visit.addr := by
  rw [loopEvents, List.filterMap_append, phnumReads, header_read, List.append_nil]
  induction vs with
  | nil => rfl
  | cons v vs ih =>
    rw [List.flatMap_cons, List.filterMap_append, ih, List.filterMap_append, header_read,
      header_events, List.map_cons, List.nil_append, List.singleton_append]

theorem byteAt_of_not_covers {h : Phdr} (hc : ¬ h.Covers a) : h.byteAt m elfData a = none := by
  unfold Phdr.Covers at hc
  unfold Phdr.byteAt
  rw [if_neg (by omega), if_neg (by omega)]

theorem byteAt_of_covers {h : Phdr} (hc : h.Covers a) :
    h.byteAt m elfData a = some (if (a - h.vaddr).toNat < h.filesz.toNat then
      m (elfData + h.offset + (a - h.vaddr)) else 0) := by
  unfold Phdr.Covers at hc
  unfold Phdr.byteAt
  by_cases hd : (a - h.vaddr).toNat < h.filesz.toNat
  · rw [if_pos hd, if_pos hd]
  · rw [if_neg hd, if_neg hd, if_pos (by omega)]

end Overlay

-- ---------------------------------------------------------------------------
-- What `elf_load` leaves
-- ---------------------------------------------------------------------------

/-- The loader goes through the program headers in order and leaves at every address
the byte of the last segment there, or what was there where no segment is. -/
theorem elf_load_overlay (m : Memory) (heap : Mm.State) (entryPoint elfData : Word)
    (hapart : Apart m elfData) (hok : (elfLoad (start m heap entryPoint) elfData).1 = 0) :
    let s := (elfLoad (start m heap entryPoint) elfData).2
    s.log.filterMap Event.header =
        (List.range (phnum m elfData)).map (phdrAddr (elfData + phoff m elfData)) ∧
      (∀ a pre h post, loads m elfData = pre ++ h :: post → h.Covers a →
        (∀ h' ∈ post, ¬ h'.Covers a) →
        s.mem a = if (a - h.vaddr).toNat < h.filesz.toNat then
          m (elfData + h.offset + (a - h.vaddr)) else 0) ∧
      (∀ a, (∀ h ∈ loads m elfData, ¬ h.Covers a) → s.mem a = m a) ∧
      s.entryPoint = entry m elfData := by
  have hacc : Accepted m elfData := by
    by_contra hno
    rw [elfLoad_code, if_neg hno] at hok
    exact absurd hok (by omega)
  obtain ⟨haddrs, -, hhdrs⟩ := loadVisits_spec heap (List.subset_append_left _ _) hapart
  have hmem : memAfterAll elfData m (loadVisits m heap elfData) =
      overlay (Phdr.byteAt m elfData) m (loads m elfData) := by
    rw [loads, ← hhdrs]
    exact visits_overlay heap (List.subset_append_left _ _) (List.subset_append_right _ _) hapart
      (Nat.le_refl 65535) fun a _ => rfl
  rw [elfLoad_accepted hacc]
  refine ⟨?_, fun a pre h post hsplit hc hpost => ?_, fun a hnone => ?_, rfl⟩
  · rw [List.filterMap_append, header_read, header_loopEvents, haddrs, List.nil_append]
  · show memAfterAll elfData m (loadVisits m heap elfData) a = _
    rw [hmem, hsplit]
    exact overlay_last (byteAt_of_covers hc) fun h' hh' => byteAt_of_not_covers (hpost h' hh')
  · show memAfterAll elfData m (loadVisits m heap elfData) a = _
    rw [hmem]
    exact overlay_of_none fun h hh => byteAt_of_not_covers (hnone h hh)

/-- A `PT_LOAD` header. -/
def loadHeader (offset vaddr filesz memsz : Nat) : Bytes :=
  le 4 ELF_PT_LOAD ++ le 4 5 ++ le 8 offset ++ le 8 vaddr ++ le 8 vaddr ++ le 8 filesz ++
    le 8 memsz ++ le 8 4096

/-- An image at `0x1000` with a segment of two bytes and two zeros, and one of a byte and
a zero in the middle of it. -/
def overlapping : Memory :=
  bytesAt 0x1000#64 ([0x7F, 0x45, 0x4C, 0x46, 2, 1] ++ List.replicate 10 0 ++
    le 2 ELF_TYPE_EXEC ++ le 2 ELF_MACHINE_X86_64 ++ le 4 1 ++
    le 8 0x400000 ++ le 8 ehdrSize ++ le 8 0 ++ -- `e_entry`, `e_phoff`, `e_shoff`
    le 4 0 ++ le 2 ehdrSize ++ le 2 phdrSize ++ le 2 2 ++ List.replicate 6 0 ++
    loadHeader 176 0x400000 2 4 ++ loadHeader 178 0x400001 1 2 ++ [0xC3, 0x90, 0x55])

/-- The byte of the second segment, and its zero, are over those of the first. -/
theorem elf_load_overlay_two :
    let s := (elfLoad (start overlapping (heapUsed 0#64) 0#64) 0x1000#64).2
    s.mem 0x400000#64 = 0xC3 ∧ s.mem 0x400001#64 = 0x55 ∧ s.mem 0x400002#64 = 0 ∧
      s.mem 0x400003#64 = 0 ∧ s.mem 0x400004#64 = overlapping 0x400004#64 ∧
      s.entryPoint = 0x400000#64 := by
  have hapart : Apart overlapping 0x1000#64 := by
    unfold Apart
    decide +kernel
  have hcode : (elfLoad (start overlapping (heapUsed 0#64) 0#64) 0x1000#64).1 = 0 := by
    rw [elfLoad_code, if_pos (by decide +kernel)]
  have hloads : loads overlapping 0x1000#64 =
      [⟨1, 176#64, 0x400000#64, 2#64, 4#64⟩, ⟨1, 178#64, 0x400001#64, 1#64, 2#64⟩] := by
    decide +kernel
  obtain ⟨-, hlast, hnone, hentry⟩ :=
    elf_load_overlay overlapping (heapUsed 0#64) 0#64 0x1000#64 hapart hcode
  refine ⟨(hlast _ [] _ _ hloads (by decide) (by decide)).trans (by decide +kernel),
    (hlast _ [_] _ [] hloads (by decide) (by simp)).trans (by decide +kernel),
    (hlast _ [_] _ [] hloads (by decide) (by simp)).trans (by decide),
    (hlast _ [] _ _ hloads (by decide) (by decide)).trans (by decide), hnone _ ?_,
    hentry.trans (by decide +kernel)⟩
  rw [hloads]
  decide

end AegisKernel.Elf
