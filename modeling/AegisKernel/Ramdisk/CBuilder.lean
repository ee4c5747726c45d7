import AegisKernel.Ramdisk.Reader

/-!
# Ramdisk — `scripts/mkramdisk.c` and when its image reads back

The C builder writes the format of the kernel, but computes offsets from a
header of 12 bytes (three 32-bit fields) where it writes one of 16, and pads
the table up to the end of the data instead of its start. So the data is
written behind the place the table promises, and what the kernel finds there is
the padding.

The order of the files, their sizes and their contents come from `find`, `stat`
and `fread`. `none` is undefined behaviour (an `int` overflow, an `fwrite` that
reads past the object it names) or an image too long for a file.

* `mkramdisk_spec` — what is written, if it is defined.
* `content_read` — where the kernel looks there are zeros.
* `cRoundTrip_iff` — files read back exactly when they have at most eight bytes
  together, all of them zero.
-/

namespace AegisKernel.Ramdisk

open Library

abbrev Word := BitVec 64

/-- `(x + 7) & ~7` -/
def align8 (x : Word) : Word := (x + 7#64) &&& ~~~7#64

/-- `strncpy(dest, src, 63)` of the C library, into a field of 64 bytes whose
last byte is 0. -/
def copyName (src : Bytes) : Bytes := nameField (src.takeWhile (· ≠ 0))

/-- `files[i].size`, from `st.st_size` -/
def statSize (f : File) : Word := BitVec.ofNat 64 f.size

/-- The loop that writes the entries, and `current_offset` after it. -/
def writeEntries : Word → List File → Bytes × Word
  | currentOffset, [] => ([], currentOffset)
  | currentOffset, f :: fs =>
    -- the name went through `files[i].name` first
    let entry := copyName (copyName f.name) ++ le 8 currentOffset.toNat ++
      le 8 (statSize f).toNat ++ le 4 0
    let (entries, offset) := writeEntries (currentOffset + statSize f) fs
    (entry ++ entries, offset)

/-- `sizeof(uint32_t) * 3 + count * (64 + 8 + 8 + 4)`, aligned -/
def firstOffset (count : Nat) : Word := align8 (12#64 + BitVec.ofNat 64 (count * entrySize))

/-- `main` of `mkramdisk.c`: the bytes it writes. -/
def mkramdisk (files : List File) : Option Bytes :=
  if files.isEmpty then none
  -- `count * (64 + 8 + 8 + 4)` is computed in `int`
  else if 2 ^ 31 ≤ files.length * entrySize then none
  else
    let totalSize := files.foldl (fun size f => size + statSize f) (firstOffset files.length)
    let header := le 4 RAMDISK_MAGIC ++ le 4 files.length ++ le 8 totalSize.toNat
    let (entries, currentOffset) := writeEntries (firstOffset files.length) files
    let currentPos := BitVec.ofNat 64 (header ++ entries).length
    -- `current_offset` is the end of the data by now
    let dataStart := align8 currentOffset
    -- written from `uint8_t padding[8]`
    let padding := if dataStart > currentPos then (dataStart - currentPos).toNat else 0
    if padding > 8 then none
    else
      let img := header ++ entries ++ (List.replicate padding 0 ++ files.flatMap File.content)
      -- positions in a file are an `off_t`
      if img.length < 2 ^ 63 then some img else none

/-- The builder only reads what it may, and every file is found with its
content. -/
def CRoundTrip (s₀ : State) (files : List File) : Prop :=
  ∃ img s, mkramdisk files = some img ∧ ramdiskInit s₀ img = some s ∧
    ∀ f ∈ files, ∃ offset size, ramdiskFindFile s f.name = some (some (offset, size)) ∧
      slice img offset size = some f.content

-- ---------------------------------------------------------------------------
-- The entries
-- ---------------------------------------------------------------------------

/-- `total_data_size`: the size of all files together. -/
def totalDataSize (files : List File) : Nat := (files.map File.size).sum

/-- The entries, with the offsets the loop computes. -/
def placed : Nat → List File → List Entry
  | _, [] => []
  | offset, f :: fs => ⟨f.name, offset, f.size⟩ :: placed (offset + f.size) fs

@[simp] theorem length_placed (offset : Nat) (fs : List File) :
    (placed offset fs).length = fs.length := by
  induction fs generalizing offset with
  | nil => rfl
  | cons f fs ih => rw [placed, List.length_cons, ih, List.length_cons]

theorem placed_append (offset : Nat) (pre post : List File) :
    placed offset (pre ++ post) =
      placed offset pre ++ placed (offset + totalDataSize pre) post := by
  induction pre generalizing offset with
  | nil => rfl
  | cons f pre ih =>
    have hoff : offset + f.size + totalDataSize pre = offset + totalDataSize (f :: pre) := by
      simp only [totalDataSize, List.map_cons, List.sum_cons]
      omega
    rw [List.cons_append, placed, ih, placed, List.cons_append, hoff]

theorem totalDataSize_append (pre post : List File) :
    totalDataSize (pre ++ post) = totalDataSize pre + totalDataSize post := by
  simp [totalDataSize]

theorem name_mem_of_placed {offset : Nat} {fs : List File} {e : Entry} (h : e ∈ placed offset fs) :
    ∃ f ∈ fs, e.name = f.name := by
  induction fs generalizing offset with
  | nil => simp [placed] at h
  | cons f fs ih =>
    rw [placed, List.mem_cons] at h
    rcases h with rfl | h
    · exact ⟨f, List.mem_cons_self .., rfl⟩
    · obtain ⟨g, hg, hname⟩ := ih h
      exact ⟨g, List.mem_cons_of_mem _ hg, hname⟩

/-- They are good if the end of the data fits. -/
theorem placed_ok {offset : Nat} {fs : List File} (hvalid : ∀ f ∈ fs, ValidName f.name)
    (hfit : offset + totalDataSize fs < 2 ^ 64) : ∀ e ∈ placed offset fs, e.Ok := by
  induction fs generalizing offset with
  | nil => simp [placed]
  | cons f fs ih =>
    have htotal : totalDataSize (f :: fs) = f.size + totalDataSize fs := by
      simp [totalDataSize]
    rw [htotal] at hfit
    intro e he
    rw [placed, List.mem_cons] at he
    rcases he with rfl | he
    · have hoff : offset < 2 ^ 64 := by omega
      have hsize : f.size < 2 ^ 64 := by omega
      exact ⟨hvalid f (List.mem_cons_self ..), hoff, hsize⟩
    · exact ih (fun g hg => hvalid g (List.mem_cons_of_mem _ hg)) (by omega) e he

/-- A valid name goes through both copies unchanged. -/
theorem copyName_copyName {name : Bytes} (h : ValidName name) :
    copyName (copyName name) = nameField name := by
  have hall : name.takeWhile (· ≠ 0) = name := by
    rw [List.takeWhile_eq_self_iff]
    intro b hb
    simpa using fun h0 : b = 0 => h.nul_free (h0 ▸ hb)
  have hfirst : copyName name = nameField name := by rw [copyName, hall]
  -- the string in the field ends at the first 0 behind the name
  obtain ⟨k, hk⟩ := nameField_valid h
  have hstring : (nameField name).takeWhile (· ≠ 0) = name := by
    rw [hk, List.takeWhile_append_of_pos, List.takeWhile_cons_of_neg (by simp), List.append_nil]
    intro b hb
    simpa using fun h0 : b = 0 => h.nul_free (h0 ▸ hb)
  rw [hfirst, copyName, hstring]

/-- What the loop writes, and where it ends, as long as no offset wraps. -/
theorem writeEntries_spec {offset : Word} {fs : List File} (hvalid : ∀ f ∈ fs, ValidName f.name)
    (hfit : offset.toNat + totalDataSize fs < 2 ^ 64) :
    (writeEntries offset fs).1 = tableBytes (placed offset.toNat fs) ∧
      (writeEntries offset fs).2.toNat = offset.toNat + totalDataSize fs := by
  induction fs generalizing offset with
  | nil => exact ⟨rfl, rfl⟩
  | cons f fs ih =>
    have htotal : totalDataSize (f :: fs) = f.size + totalDataSize fs := by
      simp [totalDataSize]
    rw [htotal] at hfit ⊢
    have hsize : (statSize f).toNat = f.size := by
      rw [statSize, BitVec.toNat_ofNat, Nat.mod_eq_of_lt (by omega)]
    have hnext : (offset + statSize f).toNat = offset.toNat + f.size := by
      rw [BitVec.toNat_add, hsize, Nat.mod_eq_of_lt (by omega)]
    have hfit' : (offset + statSize f).toNat + totalDataSize fs < 2 ^ 64 := by
      rw [hnext]
      omega
    obtain ⟨hbytes, hend⟩ := ih (fun g hg => hvalid g (List.mem_cons_of_mem _ hg)) hfit'
    rw [hnext] at hbytes hend
    constructor
    · simp only [writeEntries, placed, tableBytes, List.flatMap_cons]
      rw [hbytes, hsize, copyName_copyName (hvalid f (List.mem_cons_self ..))]
      rfl
    · simp only [writeEntries]
      rw [hend]
      omega

/-- `total_size` is added up like `current_offset`. -/
theorem foldl_statSize (offset : Word) (fs : List File) :
    fs.foldl (fun size f => size + statSize f) offset = (writeEntries offset fs).2 := by
  induction fs generalizing offset with
  | nil => rfl
  | cons f fs ih => rw [List.foldl_cons, ih, writeEntries]

-- ---------------------------------------------------------------------------
-- The image
-- ---------------------------------------------------------------------------

/-- Where the entries say the data begins. -/
def promised (count : Nat) : Nat := roundUp 8 (12 + count * entrySize)

/-- How much padding is written behind the table. -/
def gap (files : List File) : Nat :=
  roundUp 8 (promised files.length + totalDataSize files) - (headerSize + files.length * entrySize)

/-- The image for these files. -/
def cImage (files : List File) : Bytes :=
  headerBytes files.length (promised files.length + totalDataSize files) ++
    tableBytes (placed (promised files.length) files) ++
    (List.replicate (gap files) 0 ++ files.flatMap File.content)

theorem align8_toNat {x : Word} (hx : x.toNat + 7 < 2 ^ 64) :
    (align8 x).toNat = roundUp 8 x.toNat := by
  have hsum : (x + 7#64).toNat = x.toNat + 7 := by
    rw [BitVec.toNat_add]
    exact Nat.mod_eq_of_lt hx
  rw [align8, toNat_and_not_mask _ _ 3 rfl, hsum]
  rfl

theorem firstOffset_toNat {count : Nat} (hn : count * entrySize < 2 ^ 31) :
    (firstOffset count).toNat = promised count := by
  have hsum : (12#64 + BitVec.ofNat 64 (count * entrySize)).toNat = 12 + count * entrySize := by
    rw [BitVec.toNat_add, BitVec.toNat_ofNat, BitVec.toNat_ofNat]
    omega
  rw [firstOffset, align8_toNat (by rw [hsum]; omega), hsum]
  rfl

/-- The header promised is four bytes short, or made good by the alignment. -/
theorem promised_bounds (count : Nat) :
    promised count % 8 = 0 ∧ promised count ≤ headerSize + count * entrySize ∧
      headerSize + count * entrySize ≤ promised count + 4 := by
  unfold promised roundUp headerSize entrySize
  omega

theorem length_cImage (files : List File) :
    (cImage files).length =
      headerSize + files.length * entrySize + gap files + totalDataSize files := by
  simp only [cImage, List.length_append, length_headerBytes, length_tableBytes, length_placed,
    List.length_replicate, ← sum_size]
  unfold totalDataSize
  omega

/-- No image is shorter than the data, or too long for a file. -/
theorem mkramdisk_length {files : List File} {img : Bytes} (h : mkramdisk files = some img) :
    totalDataSize files ≤ img.length ∧ img.length < 2 ^ 63 := by
  unfold mkramdisk at h
  split_ifs at h
  dsimp only at h
  rw [Option.ite_none_left_eq_some, Option.ite_none_right_eq_some] at h
  obtain ⟨-, hlen, himg⟩ := h
  obtain rfl := Option.some.inj himg
  refine ⟨?_, hlen⟩
  simp only [List.length_append, ← sum_size]
  unfold totalDataSize
  omega

/-- The padding, as the words compared give it. -/
theorem padding_words {start pos : Word} {a b : Nat} (hstart : start.toNat = a)
    (hpos : pos.toNat = b) : (if start > pos then (start - pos).toNat else 0) = a - b := by
  subst hstart hpos
  split
  · rename_i hgt
    have hgt : pos.toNat < start.toNat := hgt
    have := start.isLt
    rw [BitVec.toNat_sub]
    omega
  · rename_i hle
    have hle : ¬ pos.toNat < start.toNat := hle
    omega

/-- What `mkramdisk.c` writes when none of its words wraps. -/
theorem mkramdisk_eq {files : List File} (hne : files ≠ [])
    (hvalid : ∀ f ∈ files, ValidName f.name) (hn : files.length * entrySize < 2 ^ 31)
    (hdata : totalDataSize files < 2 ^ 63) :
    mkramdisk files =
      if gap files > 8 then none
      else if (cImage files).length < 2 ^ 63 then some (cImage files) else none := by
  have hfirst := firstOffset_toNat hn
  have hbounds := promised_bounds files.length
  have hheader : headerSize = 16 := rfl
  have hfit : (firstOffset files.length).toNat + totalDataSize files < 2 ^ 64 := by
    rw [hfirst]
    omega
  obtain ⟨hbytes, hend⟩ := writeEntries_spec hvalid hfit
  rw [hfirst] at hbytes hend
  have htable : (headerBytes files.length (promised files.length + totalDataSize files) ++
      tableBytes (placed (promised files.length) files)).length =
      headerSize + files.length * entrySize := by
    rw [List.length_append, length_headerBytes, length_tableBytes, length_placed]
  have hstart : (align8 (writeEntries (firstOffset files.length) files).2).toNat =
      roundUp 8 (promised files.length + totalDataSize files) := by
    rw [align8_toNat (by rw [hend]; omega), hend]
  have hpos : (BitVec.ofNat 64 (headerSize + files.length * entrySize)).toNat =
      headerSize + files.length * entrySize := by
    rw [BitVec.toNat_ofNat, Nat.mod_eq_of_lt (by omega)]
  unfold mkramdisk
  rw [if_neg (by simpa using hne), if_neg (by omega)]
  dsimp only
  rw [foldl_statSize, hbytes, hend, ← headerBytes, htable, padding_words hstart hpos]
  rfl

/-- What `mkramdisk.c` writes, and when it may. -/
theorem mkramdisk_spec {files : List File} (hne : files ≠ [])
    (hvalid : ∀ f ∈ files, ValidName f.name) {img : Bytes} :
    mkramdisk files = some img ↔
      files.length * entrySize < 2 ^ 31 ∧ gap files ≤ 8 ∧ (cImage files).length < 2 ^ 63 ∧
        img = cImage files := by
  by_cases hn : files.length * entrySize < 2 ^ 31
  · by_cases hdata : totalDataSize files < 2 ^ 63
    · rw [mkramdisk_eq hne hvalid hn hdata, Option.ite_none_left_eq_some,
        Option.ite_none_right_eq_some, Option.some.injEq, Nat.not_lt, eq_comm (b := img)]
      simp only [hn, true_and]
    · -- too much data for any image
      constructor
      · intro h
        have := mkramdisk_length h
        omega
      · rintro ⟨-, -, hlen, -⟩
        rw [length_cImage] at hlen
        omega
  · have hnone : mkramdisk files = none := by
      unfold mkramdisk
      rw [if_neg (by simpa using hne), if_pos (Nat.not_lt.mp hn)]
    simp only [hnone, reduceCtorEq, hn, false_and]

/-- The padding fits its array exactly when there is next to no data. -/
theorem gap_le_iff (files : List File) : gap files ≤ 8 ↔ totalDataSize files ≤ 8 := by
  have hbounds := promised_bounds files.length
  unfold gap roundUp
  omega

-- ---------------------------------------------------------------------------
-- What the kernel reads
-- ---------------------------------------------------------------------------

/-- Table and padding meet in zeros: the flags of the last entry come first. -/
theorem cImage_split {files : List File} (hne : files ≠ []) :
    ∃ front, front.length = headerSize + files.length * entrySize - 4 ∧
      cImage files = front ++ List.replicate (4 + gap files) 0 ++ files.flatMap File.content := by
  set es := placed (promised files.length) files with hes
  have hlen : es.length = files.length := length_placed ..
  have hnil : es ≠ [] := by
    intro h
    rw [h] at hlen
    exact hne (List.length_eq_zero_iff.mp hlen.symm)
  obtain ⟨init, e, hsplit⟩ : ∃ init e, es = init ++ [e] :=
    ⟨es.dropLast, es.getLast hnil, (List.dropLast_append_getLast hnil).symm⟩
  have hflags : le 4 0 = List.replicate 4 0 := rfl
  have htable : tableBytes es =
      tableBytes init ++ (nameField e.name ++ le 8 e.offset ++ le 8 e.size) ++
        List.replicate 4 0 := by
    rw [hsplit, ← hflags]
    simp [tableBytes, entryBytes]
  refine ⟨headerBytes files.length (promised files.length + totalDataSize files) ++
    (tableBytes init ++ (nameField e.name ++ le 8 e.offset ++ le 8 e.size)), ?_, ?_⟩
  · have hinit : files.length = init.length + 1 := by
      rw [← hlen, hsplit, List.length_append, List.length_singleton]
    simp only [List.length_append, length_headerBytes, length_tableBytes, length_nameField,
      length_le, hinit]
    unfold entrySize
    omega
  · rw [cImage, ← hes, htable, List.replicate_add]
    simp only [List.append_assoc]

/-- Where the table promises data there are zeros. -/
theorem content_read {files : List File} (hne : files ≠ []) {k n : Nat}
    (hk : k + n ≤ totalDataSize files) :
    slice (cImage files) (promised files.length + k) n = some (List.replicate n 0) := by
  obtain ⟨front, hfront, hsplit⟩ := cImage_split hne
  obtain ⟨-, hle, hge⟩ := promised_bounds files.length
  have hend : promised files.length + totalDataSize files ≤
      roundUp 8 (promised files.length + totalDataSize files) := le_roundUp (by decide)
  have hgap : gap files = roundUp 8 (promised files.length + totalDataSize files) -
      (headerSize + files.length * entrySize) := rfl
  have hheader : headerSize = 16 := rfl
  rw [hsplit]
  exact slice_replicate front _ 0 (by omega) (by omega)

/-- Each file is found, with the place the table promises. -/
theorem lookup_placed {pre post : List File} {f : File} (offset : Nat)
    (hpre : ∀ g ∈ pre, g.name ≠ f.name) :
    lookupEntry f.name (placed offset (pre ++ f :: post)) =
      some (offset + totalDataSize pre, f.size) := by
  rw [placed_append, placed]
  refine lookupEntry_append _ _ ⟨f.name, offset + totalDataSize pre, f.size⟩ fun e he => ?_
  obtain ⟨g, hg, hname⟩ := name_mem_of_placed he
  rw [hname]
  exact hpre g hg

/-- The kernel accepts the image; for each file it finds zeros. -/
theorem read_cImage (s₀ : State) {files : List File} (hne : files ≠ [])
    (hvalid : ∀ f ∈ files, ValidName f.name) (hdistinct : (files.map File.name).Nodup)
    (hn : files.length * entrySize < 2 ^ 31) (hdata : totalDataSize files ≤ 8) :
    ramdiskInit s₀ (cImage files) = some ⟨some (cImage files), some (cImage files)⟩ ∧
      ∀ f ∈ files, ∃ offset,
        ramdiskFindFile ⟨some (cImage files), some (cImage files)⟩ f.name =
            some (some (offset, f.size)) ∧
          slice (cImage files) offset f.size = some (List.replicate f.size 0) := by
  have hbounds := promised_bounds files.length
  have hheader : headerSize = 16 := rfl
  have hcount : (placed (promised files.length) files).length < 2 ^ 32 := by
    rw [length_placed]
    unfold entrySize at hn
    omega
  have hfit : promised files.length + totalDataSize files < 2 ^ 64 := by omega
  have hok := placed_ok hvalid hfit
  obtain ⟨hinit, hfind⟩ := read_image s₀ hcount hok
    (promised files.length + totalDataSize files)
    (List.replicate (gap files) 0 ++ files.flatMap File.content)
    (by rw [length_placed]; rfl : cImage files = _)
  refine ⟨hinit, fun f hf => ?_⟩
  obtain ⟨pre, post, hfs, hpre⟩ := exists_split hdistinct hf
  have hlook : lookupEntry f.name (placed (promised files.length) files) =
      some (promised files.length + totalDataSize pre, f.size) := by
    nth_rewrite 2 [hfs]
    exact lookup_placed _ hpre
  refine ⟨_, by rw [hfind f.name (hvalid f hf).nul_free, hlook], content_read hne ?_⟩
  rw [hfs, totalDataSize_append]
  have hsum : totalDataSize (f :: post) = f.size + totalDataSize post := by
    simp [totalDataSize]
  omega

/-- **C builder round trip.** For files with valid, distinct names, the image
`mkramdisk.c` writes is well defined and reads back exactly when the table is
shorter than `2^31` bytes and the files have at most eight bytes together, all
of them zero. -/
theorem cRoundTrip_iff (s₀ : State) (files : List File) (hne : files ≠ [])
    (hvalid : ∀ f ∈ files, ValidName f.name) (hdistinct : (files.map File.name).Nodup) :
    CRoundTrip s₀ files ↔
      files.length * entrySize < 2 ^ 31 ∧ (files.map File.size).sum ≤ 8 ∧
        ∀ f ∈ files, ∀ b ∈ f.content, b = 0 := by
  constructor
  · rintro ⟨img, s, hbuild, hinit, hfiles⟩
    obtain ⟨hn, hgap, hlen, rfl⟩ := (mkramdisk_spec hne hvalid).mp hbuild
    have hdata := (gap_le_iff files).mp hgap
    obtain ⟨hread, hfound⟩ := read_cImage s₀ hne hvalid hdistinct hn hdata
    obtain rfl := Option.some.inj (hread.symm.trans hinit)
    refine ⟨hn, hdata, fun f hf => ?_⟩
    -- the content read is the zeros found
    obtain ⟨offset, size, hfind, hslice⟩ := hfiles f hf
    obtain ⟨offset', hfind', hzeros⟩ := hfound f hf
    have hplace := Option.some.inj (Option.some.inj (hfind.symm.trans hfind'))
    cases hplace
    have hcontent := Option.some.inj (hslice.symm.trans hzeros)
    intro b hb
    rw [hcontent] at hb
    exact List.eq_of_mem_replicate hb
  · rintro ⟨hn, hdata, hzero⟩
    obtain ⟨hread, hfound⟩ := read_cImage s₀ hne hvalid hdistinct hn hdata
    have hgap := (gap_le_iff files).mpr hdata
    have hlen : (cImage files).length < 2 ^ 63 := by
      rw [length_cImage]
      have hheader : headerSize = 16 := rfl
      have hdata' : totalDataSize files ≤ 8 := hdata
      omega
    refine ⟨cImage files, _, (mkramdisk_spec hne hvalid).mpr ⟨hn, hgap, hlen, rfl⟩, hread,
      fun f hf => ?_⟩
    obtain ⟨offset, hfind, hzeros⟩ := hfound f hf
    have hcontent : f.content = List.replicate f.size 0 :=
      List.eq_replicate_of_mem (hzero f hf)
    exact ⟨offset, f.size, hfind, hcontent ▸ hzeros⟩

/-- Two files of two and three zero bytes read back. -/
theorem zero_bytes_read_back :
    CRoundTrip ⟨none, none⟩ [⟨[97], [0, 0]⟩, ⟨[98], [0, 0, 0]⟩] := by
  rw [cRoundTrip_iff _ _ (by simp)]
  · refine ⟨by decide, by decide, fun f hf b hb => ?_⟩
    rcases List.mem_pair.mp hf with rfl | rfl
    · exact List.eq_of_mem_replicate (show b ∈ List.replicate 2 0 from hb)
    · exact List.eq_of_mem_replicate (show b ∈ List.replicate 3 0 from hb)
  · intro f hf
    rcases List.mem_pair.mp hf with rfl | rfl
    · exact ⟨by decide, by decide, by decide⟩
    · exact ⟨by decide, by decide, by decide⟩
  · decide

/-- A file of one byte 1 is found at offset 96; its byte is at 104. -/
theorem one_byte_misplaced :
    let files : List File := [⟨[97], [1]⟩]
    ((mkramdisk files).bind fun img => (ramdiskInit ⟨none, none⟩ img).bind fun s =>
        (ramdiskFindFile s [97]).map fun place => (place, slice img 96 1, slice img 104 1)) =
      some (some (96, 1), some [0], some [1]) ∧ ¬ CRoundTrip ⟨none, none⟩ files := by
  intro files
  have hfind : ((mkramdisk files).bind fun img => (ramdiskInit ⟨none, none⟩ img).bind fun s =>
      (ramdiskFindFile s [97]).map fun place => (place, slice img 96 1, slice img 104 1)) =
      some (some (96, 1), some [0], some [1]) := by decide +kernel
  refine ⟨hfind, ?_⟩
  rintro ⟨img, s, hbuild, hinit, hfiles⟩
  obtain ⟨offset, size, hres, hslice⟩ := hfiles ⟨[97], [1]⟩ (List.mem_singleton_self _)
  simp only [hbuild, hinit, Option.bind_some, hres, Option.map_some, Option.some.injEq,
    Prod.mk.injEq] at hfind
  obtain ⟨⟨rfl, rfl⟩, hzero, -⟩ := hfind
  exact absurd (hslice.symm.trans hzero) (by decide)

end AegisKernel.Ramdisk
