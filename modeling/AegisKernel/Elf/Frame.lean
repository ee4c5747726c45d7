import AegisKernel.Elf.Image

/-!
# ELF loader — writes outside of the segments

A segment declares `p_memsz` bytes of memory, and `elf_load` asks `mm_alloc` for that
many. It copies `p_filesz` bytes, and looks at which of the two is larger only to
fill up the rest.

* `Declared` — the address is in the memory of a segment.
* `WritesDeclared` — the image is rejected and nothing written, or only such
  addresses are; an image with too many file bytes is rejected.
* `mem_unwritten` — the log is complete: memory is unchanged where it has no write.
* `writes_declared_iff` — when the loader keeps to declared memory. Where no segment
  is written over the headers, that is when no `p_filesz` is above its `p_memsz`, or
  the image is rejected.
-/

namespace AegisKernel.Elf

open Library

/-- The address is in the memory of a segment; the addresses go around. -/
def Declared (m : Memory) (elfData a : Word) : Prop :=
  ∃ h ∈ loads m elfData, (a - h.vaddr).toNat < h.memsz.toNat

/-- `elf_load` returns -1 and writes nothing, or writes declared memory only; and it
returns -1 where a segment has more file bytes than memory. -/
def WritesDeclared (s : State) (elfData : Word) : Prop :=
  (((elfLoad s elfData).1 = -1 ∧ ∀ a, .write a ∉ (elfLoad s elfData).2.log) ∨
      ∀ a, .write a ∈ (elfLoad s elfData).2.log → Declared s.mem elfData a) ∧
    ((∃ h ∈ loads s.mem elfData, h.memsz.toNat < h.filesz.toNat) → (elfLoad s elfData).1 = -1)

section Writes

variable {m : Memory} {heap : Mm.State} {entryPoint elfData a : Word} {v : Visit}

theorem write_mem_log_iff (h : Accepted m elfData) :
    .write a ∈ (elfLoad (start m heap entryPoint) elfData).2.log ↔
      ∃ v ∈ loadVisits m heap elfData, v.Writes elfData a := by
  rw [elfLoad_accepted h, List.mem_append, write_mem_loopEvents_iff, List.mem_map]
  simp only [reduceCtorEq, and_false, exists_false, false_or]

/-- A rejected image makes the loader write nothing. -/
theorem write_not_mem_log (h : ¬ Accepted m elfData) :
    .write a ∉ (elfLoad (start m heap entryPoint) elfData).2.log := by
  rw [elfLoad_rejected h, List.mem_map]
  rintro ⟨b, -, hb⟩
  exact absurd hb (by simp)

theorem Visit.memAfter_unwritten (h : ¬ v.Writes elfData a) : v.memAfter elfData a = v.mem a := by
  unfold Visit.memAfter
  by_cases hloads : v.hdr.Loads
  · have hout := not_and.mp h hloads
    rw [Visit.target, List.mem_append, not_or] at hout
    rw [if_pos hloads, fillUp_outside hout.2, Visit.copied, copyUp_outside hout.1]
  · rw [if_neg hloads]

theorem visits_unwritten {phdrs : Word} {n : Nat}
    (h : ∀ v ∈ visits elfData phdrs n m heap, ¬ v.Writes elfData a) :
    memAfterAll elfData m (visits elfData phdrs n m heap) a = m a := by
  induction n generalizing m heap with
  | zero => rfl
  | succ n ih =>
    rw [visits] at h ⊢
    split at h
    · rename_i hi
      obtain ⟨hv, hrest⟩ := List.forall_mem_cons.mp h
      rw [if_pos hi]
      exact (ih hrest).trans (Visit.memAfter_unwritten hv)
    · rename_i hi
      rw [if_neg hi]
      rfl

/-- Memory is as it was at every address without a write in the log. -/
theorem mem_unwritten (m : Memory) (heap : Mm.State) (entryPoint elfData : Word)
    (h : .write a ∉ (elfLoad (start m heap entryPoint) elfData).2.log) :
    (elfLoad (start m heap entryPoint) elfData).2.mem a = m a := by
  by_cases hacc : Accepted m elfData
  · rw [write_mem_log_iff hacc] at h
    rw [elfLoad_accepted hacc]
    exact visits_unwritten fun v hv hw => h ⟨v, hv, hw⟩
  · rw [elfLoad_rejected hacc]
    rfl

/-- Where the headers stay as they are, a visit writes the addresses a segment of the
image covers. -/
theorem visit_covers (hspares : Spares m elfData (tableBytes m elfData))
    (hv : Undisturbed m elfData (tableBytes m elfData) v) (h : v.Writes elfData a) :
    ∃ h ∈ loads m elfData, h.Covers a :=
  ⟨v.hdr, hv.mem_loads (List.Subset.refl _) h.1,
    (mem_target_iff (hv.hdr'_eq (List.Subset.refl _) hspares h.1)).mp h.2⟩

end Writes

-- ---------------------------------------------------------------------------
-- When the loader keeps to declared memory
-- ---------------------------------------------------------------------------

/-- `elf_load` keeps to declared memory if and only if it rejects the image, or no
segment has more file bytes than memory and what the program headers make it write, as
it finds them, is declared. Where no segment is written over the headers, the sizes
alone decide. -/
theorem writes_declared_iff (m : Memory) (heap : Mm.State) (entryPoint elfData : Word) :
    (WritesDeclared (start m heap entryPoint) elfData ↔
      ¬ Accepted m elfData ∨ ((∀ h ∈ loads m elfData, h.filesz.toNat ≤ h.memsz.toNat) ∧
        ∀ v ∈ loadVisits m heap elfData, ∀ a, v.Writes elfData a → Declared m elfData a)) ∧
    (Spares m elfData (tableBytes m elfData) →
      (WritesDeclared (start m heap entryPoint) elfData ↔
        ¬ Accepted m elfData ∨ ∀ h ∈ loads m elfData, h.filesz.toNat ≤ h.memsz.toNat)) := by
  have hall : WritesDeclared (start m heap entryPoint) elfData ↔
      ¬ Accepted m elfData ∨ ((∀ h ∈ loads m elfData, h.filesz.toNat ≤ h.memsz.toNat) ∧
        ∀ v ∈ loadVisits m heap elfData, ∀ a, v.Writes elfData a → Declared m elfData a) := by
    unfold WritesDeclared
    rw [elfLoad_code]
    by_cases hacc : Accepted m elfData
    · rw [if_pos hacc]
      simp only [write_mem_log_iff hacc]
      constructor
      · rintro ⟨hwrites, hsizes⟩
        refine .inr ⟨fun h hh => ?_, fun v hv a ha => ?_⟩
        · by_contra hgt
          exact absurd (hsizes ⟨h, hh, by omega⟩) (by omega)
        · rcases hwrites with ⟨hcode, -⟩ | hwrites
          · exact absurd hcode (by omega)
          · exact hwrites a ⟨v, hv, ha⟩
      · rintro (hno | ⟨hsizes, hvisits⟩)
        · exact absurd hacc hno
        · refine ⟨.inr fun a ⟨v, hv, ha⟩ => hvisits v hv a ha, ?_⟩
          rintro ⟨h, hh, hgt⟩
          exact absurd (hsizes h hh) (by omega)
    · rw [if_neg hacc]
      refine ⟨fun _ => .inl hacc, fun _ => ⟨.inl ⟨rfl, fun a => ?_⟩, fun _ => rfl⟩⟩
      exact write_not_mem_log hacc
  refine ⟨hall, fun hspares => hall.trans (or_congr_right ⟨fun h => h.1, fun hsizes => ?_⟩)⟩
  obtain ⟨-, hund, -⟩ := loadVisits_spec heap (List.Subset.refl _) hspares
  refine ⟨hsizes, fun v hv a ha => ?_⟩
  obtain ⟨h, hh, hcovers⟩ := visit_covers hspares (hund v hv) ha
  have hle := hsizes h hh
  unfold Phdr.Covers at hcovers
  exact ⟨h, hh, by omega⟩

/-- A segment with a zero behind its file byte. -/
theorem writes_declared_small :
    WritesDeclared (start (small 120 0x400000 1 2) (heapUsed 0#64) 0#64) 0x1000#64 := by
  refine ((writes_declared_iff _ (heapUsed 0#64) 0#64 _).2 (by decide)).mpr (.inr ?_)
  rw [loads_small]
  exact fun h hh => (List.mem_singleton.mp hh) ▸ by decide

/-- A segment with a file byte and no memory: the byte is written all the same. -/
theorem filesz_above_memsz :
    let m := small 120 0x400000 1 0
    let s := start m (heapUsed 0#64) 0#64
    (elfLoad s 0x1000#64).1 = 0 ∧ .write 0x400000#64 ∈ (elfLoad s 0x1000#64).2.log ∧
      ¬ Declared m 0x1000#64 0x400000#64 ∧ ¬ WritesDeclared s 0x1000#64 := by
  intro m s
  have hacc : Accepted m 0x1000#64 := by decide
  have hloads : loads m 0x1000#64 = [⟨1, 120#64, 0x400000#64, 1#64, 0#64⟩] := by decide
  have hcode : (elfLoad s 0x1000#64).1 = 0 := (elfLoad_code ..).trans (if_pos hacc)
  have hwrite : .write 0x400000#64 ∈ (elfLoad s 0x1000#64).2.log :=
    (write_mem_log_iff hacc).mpr ⟨_, first_visit _ (by decide), by decide, by decide⟩
  have hundeclared : ¬ Declared m 0x1000#64 0x400000#64 := by
    rintro ⟨h, hh, hlt⟩
    rw [hloads, List.mem_singleton] at hh
    rw [hh] at hlt
    exact absurd hlt (by decide)
  refine ⟨hcode, hwrite, hundeclared, fun hwrites => ?_⟩
  rcases hwrites.1 with ⟨hrejected, -⟩ | hdeclared
  · exact elfLoad_ne_of_accepted hacc hrejected
  · exact hundeclared (hdeclared _ hwrite)

end AegisKernel.Elf
