import AegisKernel.Ramdisk.RoundTrip
import AegisKernel.Ramdisk.CBuilder

/-!
# Ramdisk — the two builders

`mkramdisk.py` and `mkramdisk.c` are meant to write the same format. They start the
data behind headers of 16 and of 12 bytes, which the alignment makes one offset for an
even number of files only (`dataOffset_eq_promised_iff`); and the padding of the C
builder ends at the end of the data, so that there is none only if there is no data
(`gap_eq_zero_iff`).

* `image_eq_cImage_iff` — the two images are equal for an even number of empty files.
* `builders_agree_iff` — so the builders write the same image only for such.
-/

namespace AegisKernel.Ramdisk

open Library

section Images

variable {files : List File} {last : File}

theorem dataOffset_eq_promised_iff (count : Nat) :
    dataOffset count = promised count ↔ count % 2 = 0 := by
  unfold dataOffset promised roundUp headerSize entrySize
  omega

/-- For an even number of files there is no padding exactly when there is no data. -/
theorem gap_eq_zero_iff (heven : files.length % 2 = 0) :
    gap files = 0 ↔ totalDataSize files = 0 := by
  unfold gap promised roundUp headerSize entrySize
  omega

theorem padding_even {count : Nat} (heven : count % 2 = 0) : padding count = [] := by
  have hnone : dataOffset count - (headerSize + count * entrySize) = 0 := by
    unfold dataOffset roundUp headerSize entrySize
    omega
  rw [padding, hnone, List.replicate_zero]

theorem totalDataSize_eq_zero_iff : totalDataSize files = 0 ↔ ∀ f ∈ files, f.content = [] := by
  unfold totalDataSize File.size
  rw [List.sum_eq_zero_iff_forall_eq_nat]
  simp

/-- Two headers of one number of files. -/
theorem headerBytes_inj {count a b : Nat} (ha : a < 2 ^ 64) (hb : b < 2 ^ 64)
    (h : headerBytes count a = headerBytes count b) : a = b := by
  unfold headerBytes at h
  have hle : le 8 a = le 8 b := List.append_cancel_left h
  rw [← unle_le_of_lt (n := 8) ha, hle, unle_le_of_lt hb]

/-- Entries of empty files all point to one place. -/
theorem placed_empty (offset : Nat) (h : ∀ f ∈ files, f.content = []) :
    placed offset files = staleEntries 0 offset files := by
  induction files with
  | nil => rfl
  | cons f files ih =>
    have hsize : f.size = 0 := by rw [File.size, h f (List.mem_cons_self ..), List.length_nil]
    rw [placed, staleEntries, hsize, Nat.add_zero,
      ih fun g hg => h g (List.mem_cons_of_mem _ hg)]

theorem image_eq_cImage_iff (hlast : files.getLast? = some last)
    (hpy : dataOffset files.length + totalDataSize files < 2 ^ 64)
    (hc : promised files.length + totalDataSize files < 2 ^ 64) :
    image last.size files = cImage files ↔
      files.length % 2 = 0 ∧ ∀ f ∈ files, f.content = [] := by
  constructor
  · intro h
    -- the headers are the first 16 bytes of either
    have hheader : headerBytes files.length (dataOffset files.length + totalDataSize files) =
        headerBytes files.length (promised files.length + totalDataSize files) := by
      unfold image cImage at h
      rw [List.append_assoc, List.append_assoc] at h
      exact (List.append_inj h (by rw [length_headerBytes, length_headerBytes])).1
    have htotal := headerBytes_inj hpy hc hheader
    have heven := (dataOffset_eq_promised_iff files.length).mp (by omega)
    -- and so the images are only as long as each other without padding
    have hlen := congrArg List.length h
    have hdata : (files.flatMap File.content).length = totalDataSize files := sum_size.symm
    have htable := length_beforeData last.size files
      (dataOffset files.length + totalDataSize files)
    have hpad := padding_even heven
    have hgap : gap files = 0 := by
      rw [length_cImage] at hlen
      unfold image at hlen
      rw [hpad] at hlen htable
      simp only [List.length_append, length_headerBytes, length_entryTable, List.length_nil,
        hdata] at hlen
      omega
    exact ⟨heven, totalDataSize_eq_zero_iff.mp ((gap_eq_zero_iff heven).mp hgap)⟩
  · rintro ⟨heven, hempty⟩
    have hzero := totalDataSize_eq_zero_iff.mpr hempty
    have hoffset := (dataOffset_eq_promised_iff files.length).mpr heven
    have hgap := (gap_eq_zero_iff heven).mpr hzero
    have hsize : last.size = 0 := by
      rw [File.size, hempty last (List.mem_of_getLast? hlast), List.length_nil]
    unfold image cImage
    rw [hsize, entryTable_eq, placed_empty _ hempty, hgap, padding_even heven, hoffset,
      List.replicate_zero]
    rfl

end Images

/-- **The two builders.** For files with valid names, `mkramdisk.py` and `mkramdisk.c`
write the same image exactly for an even number of empty files whose table is shorter
than `2^31` bytes. -/
theorem builders_agree_iff (files : List File) (hne : files ≠ [])
    (hvalid : ∀ f ∈ files, ValidName f.name) :
    (∃ img, buildRamdisk files = some img ∧ mkramdisk files = some img) ↔
      files.length * entrySize < 2 ^ 31 ∧ files.length % 2 = 0 ∧
        ∀ f ∈ files, f.content = [] := by
  obtain ⟨last, hlast⟩ : ∃ last, files.getLast? = some last :=
    ⟨_, List.getLast?_eq_some_getLast hne⟩
  have hbounds := promised_bounds files.length
  constructor
  · rintro ⟨img, hpy, hc⟩
    obtain ⟨-, hfit, -, rfl⟩ := (build_spec hlast).mp hpy
    obtain ⟨hn, hgap, -, himg⟩ := (mkramdisk_spec hne hvalid).mp hc
    have hdata := (gap_le_iff files).mp hgap
    have hheader : headerSize = 16 := rfl
    exact ⟨hn, (image_eq_cImage_iff hlast hfit (by omega)).mp himg⟩
  · rintro ⟨hn, heven, hempty⟩
    have hzero := totalDataSize_eq_zero_iff.mpr hempty
    have hgap := (gap_eq_zero_iff heven).mpr hzero
    have hoffset := (dataOffset_eq_promised_iff files.length).mpr heven
    have hheader : headerSize = 16 := rfl
    have hsize : last.size = 0 := by
      rw [File.size, hempty last (List.mem_of_getLast? hlast), List.length_nil]
    have hfit : dataOffset files.length + totalDataSize files < 2 ^ 64 := by omega
    have himg := (image_eq_cImage_iff hlast hfit (by omega)).mpr ⟨heven, hempty⟩
    have hshort : files.length * 84 < 2 ^ 31 := hn
    refine ⟨image last.size files, (build_spec hlast).mpr ⟨by omega, hfit, ?_, rfl⟩,
      (mkramdisk_spec hne hvalid).mpr ⟨hn, by omega, ?_, himg⟩⟩
    · exact packEntries_of_lt _ _ _ (by rw [hsize]; omega)
    · rw [length_cImage, hgap, hzero]
      omega

/-- Two empty files. -/
theorem builders_agree_two :
    ∃ img, buildRamdisk [⟨[97], []⟩, ⟨[98], []⟩] = some img ∧
      mkramdisk [⟨[97], []⟩, ⟨[98], []⟩] = some img := by
  refine (builders_agree_iff [⟨[97], []⟩, ⟨[98], []⟩] (by simp) ?_).mpr
    ⟨by decide, rfl, by simp⟩
  intro f hf
  rcases List.mem_pair.mp hf with rfl | rfl
  · exact ⟨by simp, by decide, by decide⟩
  · exact ⟨by simp, by decide, by decide⟩

end AegisKernel.Ramdisk
