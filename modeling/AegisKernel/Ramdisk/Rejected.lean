import AegisKernel.Ramdisk.Lookup

/-!
# Ramdisk — when a rejected image has no effect

The two static variables belong together: the header has the count and is what
offsets are counted from, the entries have the names. `ramdisk_init` sets the
header before it looks at the magic, so a rejected image leaves its own header
with the entries of the last image that was accepted.

`rejected_no_effect_iff` says when that cannot be seen: no image was accepted
yet, the rejected image was also the last one before, both headers count no
files, or no byte of memory is a NUL, so that no name ends.
-/

namespace AegisKernel.Ramdisk.Pointers

open Library

/-- The variables after a sequence of `ramdisk_init` calls from boot on. -/
def inits (m : Memory) (images : List Address) : State := images.foldl (ramdiskInit m) boot

/-- A place for an image: not NULL, and its header does not wrap around memory. -/
def Place (image : Address) : Prop := image ≠ 0#64 ∧ image.toNat + headerSize < 2 ^ 64

/-- The call leaves the result for every name as it was; without an accepted image
that is NULL. -/
structure Unaffected (m : Memory) (prior : List Address) (image : Address) : Prop where
  pointer : ∀ name, 0 ∉ name →
    (ramdiskFindFile m (inits m (prior ++ [image])) name).pointer =
      (ramdiskFindFile m (inits m prior) name).pointer
  size : ∀ name, 0 ∉ name →
    (ramdiskFindFile m (inits m (prior ++ [image])) name).size =
      (ramdiskFindFile m (inits m prior) name).size
  null : (∀ a ∈ prior, magic m a ≠ RAMDISK_MAGIC) → ∀ name, 0 ∉ name →
    (ramdiskFindFile m (inits m (prior ++ [image])) name).pointer = 0#64

section Pairs

variable {m : Memory} {s : State} {image : Address} {prior : List Address} {name : Bytes}

theorem inits_concat (m : Memory) (prior : List Address) (image : Address) :
    inits m (prior ++ [image]) = ramdiskInit m (inits m prior) image := List.foldl_concat ..

@[simp] theorem ramdiskInit_header (m : Memory) (s : State) (image : Address) :
    (ramdiskInit m s image).header = image := by
  unfold ramdiskInit
  dsimp only
  split <;> rfl

/-- A rejected image replaces the header only. -/
theorem ramdiskInit_rejected (h : magic m image ≠ RAMDISK_MAGIC) (s : State) :
    ramdiskInit m s image = { s with header := image } := if_pos h

/-- The header is the last image, accepted or not. -/
theorem inits_header (m : Memory) (prior : List Address) :
    (inits m prior).header = prior.getLastD 0#64 := by
  rcases List.eq_nil_or_concat prior with rfl | ⟨prior, image, rfl⟩
  · rfl
  · rw [List.concat_eq_append, inits_concat, ramdiskInit_header, List.getLastD_concat]

/-- The entries are set once an image has been accepted. -/
theorem inits_entries_eq_zero_iff (hplace : ∀ a ∈ prior, Place a) :
    (inits m prior).entries = 0#64 ↔ ∀ a ∈ prior, magic m a ≠ RAMDISK_MAGIC := by
  induction prior using List.reverseRecOn with
  | nil => simp [inits, boot]
  | append_singleton prior image ih =>
    have hprior : ∀ a ∈ prior, Place a := fun a ha => hplace a (by simp [ha])
    rw [inits_concat]
    by_cases hmagic : magic m image = RAMDISK_MAGIC
    · have hne : (ramdiskInit m (inits m prior) image).entries ≠ 0#64 := by
        rw [ramdiskInit_image hmagic]
        have hheader := (hplace image (by simp)).2
        intro h0
        have hnat := congrArg BitVec.toNat h0
        unfold installed at hnat
        unfold headerSize at hnat hheader
        rw [BitVec.toNat_add, BitVec.toNat_ofNat, BitVec.toNat_ofNat] at hnat
        omega
      exact ⟨fun h => absurd h hne, fun h => absurd hmagic (h image (by simp))⟩
    · rw [ramdiskInit_rejected hmagic, ih hprior]
      constructor
      · intro h a ha
        rcases List.mem_append.mp ha with ha | ha
        · exact h a ha
        · rwa [List.mem_singleton.mp ha]
      · exact fun h a ha => h a (by simp [ha])

/-- Nothing is found without entries, without files, or when the name is in no
entry. -/
theorem find_nothing (hname : 0 ∉ name)
    (h : s.entries = 0#64 ∨ fileCount m s.header = 0 ∨ ∀ i, ¬ Named m (entryAt s i) name) :
    (ramdiskFindFile m s name).pointer = 0#64 ∧ (ramdiskFindFile m s name).size = none := by
  unfold ramdiskFindFile
  split
  · exact ⟨rfl, rfl⟩
  · rename_i hset
    rcases h with h | h | h
    · exact absurd (.inr h) hset
    · rw [h]
      exact ⟨rfl, rfl⟩
    · exact findLoop_absent hname fun j _ => h (0 + j)

/-- The name of the first entry is found there, if there is a file at all. -/
theorem find_first (hname : 0 ∉ name) (hset : ¬ (s.header = 0#64 ∨ s.entries = 0#64))
    (hcount : 0 < fileCount m s.header) (hnamed : Named m (entryAt s 0) name) :
    (ramdiskFindFile m s name).pointer = s.header + BitVec.ofNat 64 (offset m (entryAt s 0)) ∧
      (ramdiskFindFile m s name).size = some (size m (entryAt s 0)) := by
  unfold ramdiskFindFile
  rw [if_neg hset, findLoop_found hname (i := 0) hcount hnamed fun j hj => absurd hj (by omega)]
  exact ⟨rfl, rfl⟩

/-- With a NUL somewhere in memory, the string at an entry ends. -/
theorem exists_named (entry : Address) (hnul : ∃ a, m a = 0) :
    ∃ name, 0 ∉ name ∧ Named m entry name := by
  obtain ⟨a, ha⟩ := hnul
  have hex : ∃ i, m (entry + BitVec.ofNat 64 i) = 0 := by
    refine ⟨(a - entry).toNat, ?_⟩
    rw [BitVec.ofNat_toNat, BitVec.setWidth_eq, BitVec.add_comm, BitVec.sub_add_cancel]
    exact ha
  refine ⟨(span entry (Nat.find hex)).map m, fun hmem => ?_, ?_⟩
  · obtain ⟨b, hb, hzero⟩ := List.mem_map.mp hmem
    obtain ⟨i, hi, rfl⟩ := mem_span.mp hb
    exact Nat.find_min hex hi hzero
  · unfold Named
    rw [List.length_map, length_span, span_eq_map, List.range_succ, List.map_append,
      List.map_append, ← span_eq_map]
    simp [Nat.find_spec hex]

/-- With another header over the same entries, some name has another result. -/
theorem exists_affected (hset : ¬ (s.header = 0#64 ∨ s.entries = 0#64)) (himage : image ≠ 0#64)
    (hother : s.header ≠ image)
    (hcounts : ¬ (fileCount m image = 0 ∧ fileCount m s.header = 0)) (hnul : ∃ a, m a = 0) :
    ∃ name, 0 ∉ name ∧
      ¬ ((ramdiskFindFile m { s with header := image } name).pointer =
            (ramdiskFindFile m s name).pointer ∧
          (ramdiskFindFile m { s with header := image } name).size =
            (ramdiskFindFile m s name).size) := by
  -- the first entry, looked up with either header
  obtain ⟨name, hname, hnamed⟩ := exists_named (entryAt s 0) hnul
  set t : State := { s with header := image } with ht
  have hset' : ¬ (t.header = 0#64 ∨ t.entries = 0#64) :=
    not_or.mpr ⟨himage, (not_or.mp hset).2⟩
  refine ⟨name, hname, fun ⟨hpointer, hsize⟩ => ?_⟩
  rcases Nat.eq_zero_or_pos (fileCount m t.header) with h0 | hpos
  · have hpos' : 0 < fileCount m s.header := Nat.pos_of_ne_zero fun h0' => hcounts ⟨h0, h0'⟩
    rw [(find_first hname hset hpos' hnamed).2, (find_nothing hname (.inr (.inl h0))).2] at hsize
    exact absurd hsize (by simp)
  · have hfound := find_first hname hset' hpos hnamed
    rcases Nat.eq_zero_or_pos (fileCount m s.header) with h0' | hpos'
    · rw [hfound.2, (find_nothing hname (.inr (.inl h0'))).2] at hsize
      exact absurd hsize (by simp)
    · rw [hfound.1, (find_first hname hset hpos' hnamed).1] at hpointer
      exact hother (BitVec.add_left_inj _ |>.mp hpointer).symm

/-- Either header finds nothing, or they are the same. -/
theorem same_of_rejected (h : s.entries = 0#64 ∨ s.header = image ∨
      (fileCount m image = 0 ∧ fileCount m s.header = 0) ∨ ∀ a, m a ≠ 0) (hname : 0 ∉ name) :
    (ramdiskFindFile m { s with header := image } name).pointer =
        (ramdiskFindFile m s name).pointer ∧
      (ramdiskFindFile m { s with header := image } name).size =
        (ramdiskFindFile m s name).size := by
  set t : State := { s with header := image } with ht
  have hnothing : (t.entries = 0#64 ∨ fileCount m t.header = 0 ∨
        ∀ i, ¬ Named m (entryAt t i) name) →
      (s.entries = 0#64 ∨ fileCount m s.header = 0 ∨ ∀ i, ¬ Named m (entryAt s i) name) →
      (ramdiskFindFile m t name).pointer = (ramdiskFindFile m s name).pointer ∧
        (ramdiskFindFile m t name).size = (ramdiskFindFile m s name).size := by
    intro h₁ h₂
    have hl := find_nothing hname h₁
    have hr := find_nothing hname h₂
    exact ⟨hl.1.trans hr.1.symm, hl.2.trans hr.2.symm⟩
  rcases h with h | h | ⟨h, h'⟩ | h
  · exact hnothing (.inl h) (.inl h)
  · rw [ht, ← h]
    exact ⟨rfl, rfl⟩
  · exact hnothing (.inr (.inl h)) (.inr (.inl h'))
  · -- no string ends
    have hno : ∀ e, ¬ Named m e name := by
      intro e hnamed
      have hend : (0 : UInt8) ∈ (span e (name.length + 1)).map m := by
        rw [show (span e (name.length + 1)).map m = name ++ [0] from hnamed]
        simp
      obtain ⟨a, -, ha⟩ := List.mem_map.mp hend
      exact h a ha
    exact hnothing (.inr (.inr fun _ => hno _)) (.inr (.inr fun _ => hno _))

end Pairs

/-- **A rejected image has no effect** on what is found if and only if no image was
accepted before it, or it was also the last one before, or it and the last one
before count no files, or no byte of memory is a NUL. -/
theorem rejected_no_effect_iff {m : Memory} {prior : List Address} {image : Address}
    (hplace : ∀ a ∈ image :: prior, Place a) (hmagic : magic m image ≠ RAMDISK_MAGIC) :
    Unaffected m prior image ↔
      (∀ a ∈ prior, magic m a ≠ RAMDISK_MAGIC) ∨ prior.getLastD 0#64 = image ∨
        (fileCount m image = 0 ∧ fileCount m (prior.getLastD 0#64) = 0) ∨ ∀ a, m a ≠ 0 := by
  have hprior : ∀ a ∈ prior, Place a := fun a ha => hplace a (List.mem_cons_of_mem _ ha)
  have himage : image ≠ 0#64 := (hplace image (List.mem_cons_self ..)).1
  have hinit : inits m (prior ++ [image]) = { inits m prior with header := image } := by
    rw [inits_concat, ramdiskInit_rejected hmagic]
  rw [← inits_entries_eq_zero_iff hprior, ← inits_header m prior]
  constructor
  · intro h
    by_contra hnot
    rw [not_or, not_or, not_or] at hnot
    obtain ⟨hentries, hother, hcounts, hnul⟩ := hnot
    have hheader : (inits m prior).header ≠ 0#64 := by
      intro h0
      rw [inits_header] at h0
      rcases List.eq_nil_or_concat prior with rfl | ⟨rest, last, rfl⟩
      · exact hentries rfl
      · rw [List.concat_eq_append, List.getLastD_concat] at h0
        exact (hprior last (by simp)).1 h0
    obtain ⟨name, hname, hdiffer⟩ := exists_affected (not_or.mpr ⟨hheader, hentries⟩) himage
      hother hcounts (by simpa using hnul)
    rw [← hinit] at hdiffer
    exact hdiffer ⟨h.pointer name hname, h.size name hname⟩
  · intro h
    refine ⟨fun name hname => ?_, fun name hname => ?_, fun hnone name hname => ?_⟩
    · rw [hinit]
      exact (same_of_rejected h hname).1
    · rw [hinit]
      exact (same_of_rejected h hname).2
    · rw [hinit]
      refine (find_nothing hname (.inl ?_)).1
      exact (inits_entries_eq_zero_iff hprior).mpr hnone

/-- A valid image with one file, and after it one that is rejected. -/
def twoImages : Memory := fun a =>
  if a.toNat < 0x2000 then oneFile 100 4 104 a else 0

/-- The image that has just been rejected is rejected once more. -/
theorem rejected_again : Unaffected twoImages [0x1000#64, 0x2000#64] 0x2000#64 := by
  have hplace : ∀ a ∈ [0x2000#64, 0x1000#64, 0x2000#64], Place a := by
    intro a ha
    simp only [List.mem_cons, List.not_mem_nil, or_false] at ha
    rcases ha with rfl | rfl | rfl
    · exact ⟨by decide, by decide⟩
    · exact ⟨by decide, by decide⟩
    · exact ⟨by decide, by decide⟩
  exact (rejected_no_effect_iff hplace (by decide)).mpr (.inr (.inl rfl))

/-- A rejected image hides the file of the valid one before it. -/
theorem rejected_image_hides_file :
    (ramdiskFindFile twoImages (inits twoImages [0x1000#64]) [97]).pointer = 0x1064#64 ∧
      (ramdiskFindFile twoImages (inits twoImages [0x1000#64, 0x2000#64]) [97]).pointer = 0#64 ∧
      magic twoImages 0x2000#64 ≠ RAMDISK_MAGIC ∧
      ¬ Unaffected twoImages [0x1000#64] 0x2000#64 := by
  have hbefore : (ramdiskFindFile twoImages (inits twoImages [0x1000#64]) [97]).pointer =
      0x1064#64 := by decide
  have hafter : (ramdiskFindFile twoImages (inits twoImages [0x1000#64, 0x2000#64]) [97]).pointer =
      0#64 := by decide
  refine ⟨hbefore, hafter, by decide, fun h => ?_⟩
  have hsame := h.pointer [97] (by decide)
  rw [hbefore, show [0x1000#64] ++ [0x2000#64] = [0x1000#64, 0x2000#64] from rfl, hafter] at hsame
  exact absurd hsame (by decide)

end AegisKernel.Ramdisk.Pointers
