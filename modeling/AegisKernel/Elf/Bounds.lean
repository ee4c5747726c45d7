import AegisKernel.Elf.Image
import AegisKernel.Ramdisk.Lookup

/-!
# ELF loader — reads outside of the file

`elf_load` is not told how long the file is. Its caller gets the size from
`ramdisk_load_file` and does not pass it on, so the offsets and sizes in the headers
are used as they are.

* `StaysInFile` — the image is rejected, or what is read lies in the file.
* `FileHolds` — the headers and the file bytes of all segments lie in the file.
* `reads_in_file_iff` — when `elf_load` stays inside of the file. Where no segment is
  written over the headers, that is when `FileHolds` or the image is rejected.
-/

namespace AegisKernel.Elf

open Library

/-- The address is in the `size` bytes of the file. -/
def InFile (elfData size a : Word) : Prop := (a - elfData).toNat < size.toNat

instance (elfData size a : Word) : Decidable (InFile elfData size a) :=
  inferInstanceAs (Decidable (_ < _))

/-- A range that lies in the file, if there is anything in it. -/
def Fits (size : Word) (offset len : Nat) : Prop := len = 0 ∨ offset + len ≤ size.toNat

instance (size : Word) (offset len : Nat) : Decidable (Fits size offset len) :=
  inferInstanceAs (Decidable (_ ∨ _))

/-- The file holds the ELF header, the program headers and the segments. -/
structure FileHolds (m : Memory) (elfData size : Word) : Prop where
  header : ehdrSize ≤ size.toNat
  table : Fits size (phoff m elfData).toNat (phdrSize * phnum m elfData)
  segments : ∀ h ∈ loads m elfData, Fits size h.offset.toNat h.filesz.toNat

/-- The program header a visit comes to, as far as it is read, and its file bytes are in
the file. -/
def Visit.FitsIn (elfData size : Word) (v : Visit) : Prop :=
  (∀ a ∈ span v.addr 4, InFile elfData size a) ∧
    (v.hdr.Loads → (∀ a ∈ fieldBytes v.addr, InFile elfData size a) ∧
      Fits size v.hdr.offset.toNat v.hdr.filesz.toNat)

/-- `elf_load` returns -1, or all it reads and is to read lies in the file. -/
def StaysInFile (s : State) (elfData size : Word) : Prop :=
  (elfLoad s elfData).1 = -1 ∨
    ((∀ a, .read a ∈ (elfLoad s elfData).2.log → InFile elfData size a) ∧
      FileHolds s.mem elfData size)

section Reads

variable {m : Memory} {heap : Mm.State} {entryPoint elfData size a : Word} {v : Visit}

/-- The checks read the ELF header. -/
theorem mem_checkReads {cs : List Check} (h : a ∈ checkReads m elfData cs) :
    ∃ c ∈ cs, a ∈ span (elfData + BitVec.ofNat 64 c.offset) c.size := by
  induction cs with
  | nil => exact absurd h List.not_mem_nil
  | cons c cs ih =>
    rw [checkReads, List.mem_append] at h
    obtain hc | hrest := h
    · exact ⟨c, List.mem_cons_self, hc⟩
    · split at hrest
      · obtain ⟨c', hc', ha⟩ := ih hrest
        exact ⟨c', List.mem_cons_of_mem _ hc', ha⟩
      · exact absurd hrest List.not_mem_nil

/-- Besides the program headers and the segments, the ELF header is read. -/
theorem ehdr_in_file (hsize : ehdrSize ≤ size.toNat)
    (h : a ∈ checkReads m elfData headerChecks ∨ a ∈ startReads elfData ∨
      a ∈ span (elfData + 56#64) 2) : InFile elfData size a := by
  have hb := size.isLt.le
  unfold ehdrSize at hsize
  rcases h with h | h | h
  · obtain ⟨c, hc, ha⟩ := mem_checkReads h
    have hend : ∀ c ∈ headerChecks, c.offset + c.size ≤ 64 := by decide
    exact sub_lt_of_mem_span hb ((hend c hc).trans hsize) ha
  · rcases List.mem_append.mp h with ha | ha
    · exact sub_lt_of_mem_span (k := 24) hb (by omega) ha
    · exact sub_lt_of_mem_span (k := 32) hb (by omega) ha
  · exact sub_lt_of_mem_span (k := 56) hb (by omega) h

/-- All that an accepted image makes the loader read. -/
theorem read_mem_log_iff (h : Accepted m elfData) :
    .read a ∈ (elfLoad (start m heap entryPoint) elfData).2.log ↔
      (a ∈ checkReads m elfData headerChecks ∨ a ∈ startReads elfData ∨
        a ∈ span (elfData + 56#64) 2) ∨ ∃ v ∈ loadVisits m heap elfData, v.Reads elfData a := by
  rw [elfLoad_accepted h, List.mem_append, read_mem_loopEvents_iff, List.map_append,
    List.mem_append, List.mem_map, List.mem_map]
  simp only [Event.read.injEq, exists_eq_right, or_assoc]

/-- A field of the program header at index `i`, counted from the start of the file. -/
theorem field_addr (i k : Nat) :
    phdrAddr (elfData + phoff m elfData) i + BitVec.ofNat 64 k =
      elfData + BitVec.ofNat 64 ((phoff m elfData).toNat + (phdrSize * i + k)) := by
  unfold phdrAddr
  rw [BitVec.ofNat_add, BitVec.ofNat_add, BitVec.ofNat_toNat, BitVec.setWidth_eq,
    BitVec.add_assoc, BitVec.add_assoc]

/-- The headers of a table in the file are read inside of it. -/
theorem table_in_file (htable : Fits size (phoff m elfData).toNat (phdrSize * phnum m elfData))
    {i : Nat} (hi : i < phnum m elfData)
    (h : a ∈ span (phdrAddr (elfData + phoff m elfData) i) 4 ∨
      a ∈ fieldBytes (phdrAddr (elfData + phoff m elfData) i)) : InFile elfData size a := by
  have hend : ∀ k n, k + n ≤ phdrSize →
      (phoff m elfData).toNat + (phdrSize * i + k) + n ≤ size.toNat := by
    intro k n hk
    unfold Fits at htable
    unfold phdrSize at htable hk ⊢
    omega
  have hfield : ∀ k n, k + n ≤ phdrSize →
      a ∈ span (phdrAddr (elfData + phoff m elfData) i + BitVec.ofNat 64 k) n →
      InFile elfData size a := by
    intro k n hk ha
    rw [field_addr] at ha
    exact sub_lt_of_mem_span size.isLt.le (hend k n hk) ha
  rcases h with ha | ha
  · exact hfield 0 4 (by decide) (by rwa [BitVec.add_zero])
  · rcases mem_fieldBytes.mp ha with ha | ha | ha | ha
    · exact hfield 8 8 (by decide) ha
    · exact hfield 16 8 (by decide) ha
    · exact hfield 32 8 (by decide) ha
    · exact hfield 40 8 (by decide) ha

/-- File bytes are read inside of the file exactly when their range fits. -/
theorem source_in_file_iff (offset : Word) {len : Nat} :
    (∀ a ∈ span (elfData + offset) len, InFile elfData size a) ↔ Fits size offset.toNat len := by
  have ho := offset.isLt
  have hs := size.isLt
  -- the byte `k` behind the offset
  have hdist : ∀ k, offset.toNat + k < 2 ^ 64 →
      (elfData + offset + BitVec.ofNat 64 k - elfData).toNat = offset.toNat + k := by
    intro k hk
    rw [BitVec.add_assoc, BitVec.add_comm, BitVec.add_sub_cancel, BitVec.toNat_add,
      BitVec.toNat_ofNat, Nat.add_mod_mod, Nat.mod_eq_of_lt hk]
  constructor
  · intro hall
    by_contra hno
    unfold Fits at hno
    -- the first byte of the range that is not in the file
    have hk : size.toNat - offset.toNat < len := by omega
    have hin := hall _ (mem_span.mpr ⟨_, hk, rfl⟩)
    rw [InFile, hdist _ (by omega)] at hin
    omega
  · rintro (hzero | hend) a ha
    · rw [hzero] at ha
      exact absurd ha List.not_mem_nil
    · refine sub_lt_of_mem_span (k := offset.toNat) hs.le hend ?_
      rwa [BitVec.ofNat_toNat, BitVec.setWidth_eq]

theorem visit_in_file_iff :
    (∀ a, v.Reads elfData a → InFile elfData size a) ↔ v.FitsIn elfData size := by
  unfold Visit.FitsIn
  rw [← source_in_file_iff]
  constructor
  · intro hreads
    exact ⟨fun a ha => hreads a (.inl ha), fun hloads =>
      ⟨fun a ha => hreads a (.inr ⟨hloads, .inl ha⟩),
        fun a ha => hreads a (.inr ⟨hloads, .inr ha⟩)⟩⟩
  · rintro ⟨htype, hsegment⟩ a (ha | ⟨hloads, ha | ha⟩)
    · exact htype a ha
    · exact (hsegment hloads).1 a ha
    · exact (hsegment hloads).2 a ha

/-- Where the headers stay as they are, the headers found fit in a file that holds the
image. -/
theorem visit_fits (hholds : FileHolds m elfData size)
    (hv : Undisturbed m elfData (tableBytes m elfData) v) : v.FitsIn elfData size := by
  obtain ⟨i, hi, haddr⟩ := hv.index
  refine ⟨fun a ha => ?_, fun hloads => ⟨fun a ha => ?_, ?_⟩⟩
  · exact table_in_file hholds.table hi (.inl (haddr ▸ ha))
  · exact table_in_file hholds.table hi (.inr (haddr ▸ ha))
  · exact hholds.segments v.hdr (hv.mem_loads (List.Subset.refl _) hloads)

end Reads

-- ---------------------------------------------------------------------------
-- When the loader stays inside of the file
-- ---------------------------------------------------------------------------

/-- `elf_load` stays inside of its file if and only if it rejects the image, or the
file holds the image and every program header as the loop finds it. Where no segment is
written over the headers, the image itself decides. -/
theorem reads_in_file_iff (m : Memory) (heap : Mm.State) (entryPoint elfData size : Word) :
    (StaysInFile (start m heap entryPoint) elfData size ↔
      ¬ Accepted m elfData ∨ (FileHolds m elfData size ∧
        ∀ v ∈ loadVisits m heap elfData, v.FitsIn elfData size)) ∧
    (Spares m elfData (tableBytes m elfData) →
      (StaysInFile (start m heap entryPoint) elfData size ↔
        ¬ Accepted m elfData ∨ FileHolds m elfData size)) := by
  have hall : StaysInFile (start m heap entryPoint) elfData size ↔
      ¬ Accepted m elfData ∨ (FileHolds m elfData size ∧
        ∀ v ∈ loadVisits m heap elfData, v.FitsIn elfData size) := by
    unfold StaysInFile
    rw [elfLoad_code]
    by_cases hacc : Accepted m elfData
    · rw [if_pos hacc]
      simp only [read_mem_log_iff hacc]
      constructor
      · rintro (hcode | ⟨hreads, hholds⟩)
        · exact absurd hcode (by omega)
        · refine .inr ⟨hholds, fun v hv => visit_in_file_iff.mp fun a ha => ?_⟩
          exact hreads a (.inr ⟨v, hv, ha⟩)
      · rintro (hno | ⟨hholds, hvisits⟩)
        · exact absurd hacc hno
        · refine .inr ⟨fun a ha => ?_, hholds⟩
          rcases ha with ha | ⟨v, hv, ha⟩
          · exact ehdr_in_file hholds.header ha
          · exact visit_in_file_iff.mpr (hvisits v hv) a ha
    · rw [if_neg hacc]
      exact ⟨fun _ => .inl hacc, fun _ => .inl rfl⟩
  refine ⟨hall, fun hspares => hall.trans (or_congr_right ⟨fun h => h.1, fun hholds => ?_⟩)⟩
  obtain ⟨-, hund, -⟩ := loadVisits_spec heap (List.Subset.refl _) hspares
  exact ⟨hholds, fun v hv => visit_fits hholds (hund v hv)⟩

/-- A file that holds its segment. -/
theorem reads_in_file_small :
    StaysInFile (start (small 120 0x400000 1 2) (heapUsed 0#64) 0#64) 0x1000#64 121#64 := by
  refine ((reads_in_file_iff _ (heapUsed 0#64) 0#64 _ _).2 (by decide)).mpr (.inr ⟨?_, ?_, ?_⟩)
  · decide
  · decide
  · rw [loads_small]
    exact fun h hh => (List.mem_singleton.mp hh) ▸ by decide

/-- The name `init.elf` -/
def initElf : Bytes := [0x69, 0x6E, 0x69, 0x74, 0x2E, 0x65, 0x6C, 0x66]

/-- A ramdisk at `0x1000` whose one file is an ELF image of 121 bytes. -/
def initRamdisk (image : Bytes) : Memory :=
  bytesAt 0x1000#64 (le 4 Ramdisk.RAMDISK_MAGIC ++ le 4 1 ++ le 8 221 ++
    Ramdisk.nameField initElf ++ le 8 100 ++ le 8 121 ++ le 4 0 ++ image)

open Ramdisk.Pointers in
/-- A segment of two bytes of which one is in the file: `elf_load` loads what
`ramdisk_load_file` gives it and copies the byte behind the file. -/
theorem file_read_past_end :
    let m := initRamdisk (smallImage 120 0x400000 2 2)
    let s := start m (heapUsed 0#64) 0#64
    ramdiskLoadFile m (ramdiskInit m boot 0x1000#64) initElf = (0, some 0x1064#64, some 121) ∧
      (elfLoad s 0x1064#64).1 = 0 ∧ .read 0x10DD#64 ∈ (elfLoad s 0x1064#64).2.log ∧
      ¬ StaysInFile s 0x1064#64 121#64 := by
  intro m s
  have hacc : Accepted m 0x1064#64 := by decide
  have hcode : (elfLoad s 0x1064#64).1 = 0 := (elfLoad_code ..).trans (if_pos hacc)
  have hread : .read 0x10DD#64 ∈ (elfLoad s 0x1064#64).2.log :=
    (read_mem_log_iff hacc).mpr (.inr ⟨_, first_visit _ (by decide), .inr (by decide)⟩)
  refine ⟨by decide, hcode, hread, fun hstays => ?_⟩
  rcases hstays with hrejected | ⟨hreads, -⟩
  · exact elfLoad_ne_of_accepted hacc hrejected
  · exact absurd (hreads _ hread) (by decide)

end AegisKernel.Elf
