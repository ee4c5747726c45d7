import AegisKernel.Ramdisk.Reader

/-!
# Ramdisk — when an image reads back as it was built

The builder is right about the format and about the data, but fills every entry
with the size of the last file.

* `build_spec` — what `build_ramdisk` writes, if it finishes.
* `read_built` — what the kernel then finds: offsets that advance by the last
  file's size.
* `roundTrip_iff` — every file reads back exactly when all files have the same
  size and the image fits its header fields.
-/

namespace AegisKernel.Ramdisk

open Library

/-- Every file is found with its content, and no other name is found. -/
def RoundTrip (s₀ : State) (files : List File) : Prop :=
  ∃ img s, buildRamdisk files = some img ∧ ramdiskInit s₀ img = some s ∧
    (∀ f ∈ files, ∃ offset size, ramdiskFindFile s f.name = some (some (offset, size)) ∧
      slice img offset size = some f.content) ∧
    ∀ name, 0 ∉ name → name ∉ files.map File.name → ramdiskFindFile s name = some none

/-! ## The table -/

/-- The bytes of the table the entry loop writes. -/
def entryTable (lastSize : Nat) : Nat → List File → Bytes
  | _, [] => []
  | offset, f :: fs =>
    entryBytes f.name offset lastSize ++ entryTable lastSize (offset + lastSize) fs

/-- The entries of that table. -/
def staleEntries (lastSize : Nat) : Nat → List File → List Entry
  | _, [] => []
  | offset, f :: fs => ⟨f.name, offset, lastSize⟩ :: staleEntries lastSize (offset + lastSize) fs

theorem entryTable_eq (lastSize offset : Nat) (fs : List File) :
    entryTable lastSize offset fs = tableBytes (staleEntries lastSize offset fs) := by
  induction fs generalizing offset with
  | nil => rfl
  | cons f fs ih => rw [entryTable, staleEntries, tableBytes, List.flatMap_cons, ih]; rfl

@[simp] theorem length_staleEntries (lastSize offset : Nat) (fs : List File) :
    (staleEntries lastSize offset fs).length = fs.length := by
  induction fs generalizing offset with
  | nil => rfl
  | cons f fs ih => rw [staleEntries, List.length_cons, ih, List.length_cons]

theorem length_entryTable (lastSize offset : Nat) (fs : List File) :
    (entryTable lastSize offset fs).length = fs.length * entrySize := by
  rw [entryTable_eq, length_tableBytes, length_staleEntries]

/-- The entries are good if every offset fits. -/
theorem staleEntries_ok {lastSize offset : Nat} {fs : List File}
    (hvalid : ∀ f ∈ fs, ValidName f.name)
    (hfit : ∀ k < fs.length, offset + k * lastSize < 2 ^ 64) (hlast : lastSize < 2 ^ 64) :
    ∀ e ∈ staleEntries lastSize offset fs, e.Ok := by
  induction fs generalizing offset with
  | nil => simp [staleEntries]
  | cons f fs ih =>
    intro e he
    rw [staleEntries, List.mem_cons] at he
    rcases he with rfl | he
    · have hoff : offset < 2 ^ 64 := by
        have := hfit 0 (by simp)
        omega
      exact ⟨hvalid f (List.mem_cons_self ..), hoff, hlast⟩
    · refine ih (fun g hg => hvalid g (List.mem_cons_of_mem _ hg)) (fun k hk => ?_) e he
      have hk' := hfit (k + 1) (by simp only [List.length_cons]; omega)
      rw [Nat.add_mul] at hk'
      omega

theorem packEntry_eq {name : Bytes} {offset size : Nat} :
    packEntry name offset size =
      if offset < 2 ^ 64 ∧ size < 2 ^ 64 then some (entryBytes name offset size) else none := by
  unfold packEntry packQ
  by_cases ho : offset < 2 ^ 64
  · by_cases hs : size < 2 ^ 64
    · rw [if_pos ho, if_pos hs, if_pos ⟨ho, hs⟩]
      rfl
    · have hboth : ¬ (offset < 2 ^ 64 ∧ size < 2 ^ 64) := fun h => hs h.2
      rw [if_pos ho, if_neg hs, if_neg hboth]
      rfl
  · have hboth : ¬ (offset < 2 ^ 64 ∧ size < 2 ^ 64) := fun h => ho h.1
    rw [if_neg ho, if_neg hboth]
    rfl

/-- If the loop finishes, it has written the table and every offset fits. -/
theorem packEntries_some {lastSize offset : Nat} {fs : List File} {es : Bytes}
    (h : packEntries lastSize offset fs = some es) :
    es = entryTable lastSize offset fs ∧ ∀ k < fs.length, offset + k * lastSize < 2 ^ 64 := by
  induction fs generalizing offset es with
  | nil =>
    obtain rfl := Option.some.inj h
    exact ⟨rfl, fun k hk => absurd hk (by simp)⟩
  | cons f fs ih =>
    rw [packEntries, packEntry_eq] at h
    split at h
    · rename_i hfit
      simp only [Option.bind_eq_bind, Option.bind_some] at h
      obtain ⟨rest, hrest, hes⟩ := Option.bind_eq_some_iff.mp h
      obtain ⟨hrest, hbound⟩ := ih hrest
      refine ⟨by rw [← Option.some.inj hes, hrest]; rfl, fun k hk => ?_⟩
      cases k with
      | zero => simpa using hfit.1
      | succ k =>
        rw [List.length_cons] at hk
        have := hbound k (by omega)
        rw [Nat.add_mul]
        omega
    · simp at h

/-- It finishes when the last offset fits. -/
theorem packEntries_of_lt (lastSize offset : Nat) (fs : List File)
    (h : offset + fs.length * lastSize < 2 ^ 64) :
    packEntries lastSize offset fs = some (entryTable lastSize offset fs) := by
  induction fs generalizing offset with
  | nil => rfl
  | cons f fs ih =>
    rw [List.length_cons, Nat.add_mul, Nat.one_mul] at h
    have hrest := ih (offset + lastSize) (by omega)
    rw [packEntries, packEntry_eq, if_pos ⟨by omega, by omega⟩, hrest]
    rfl

/-! ## What the reader finds in a table -/

/-- The first file of that name, with the offset and size its entry has. -/
def lookup (lastSize : Nat) (name : Bytes) : Nat → List File → Option (Nat × Nat)
  | _, [] => none
  | offset, f :: fs =>
    if f.name = name then some (offset, lastSize)
    else lookup lastSize name (offset + lastSize) fs

theorem lookup_eq (lastSize offset : Nat) (fs : List File) (name : Bytes) :
    lookup lastSize name offset fs = lookupEntry name (staleEntries lastSize offset fs) := by
  induction fs generalizing offset with
  | nil => rfl
  | cons f fs ih =>
    rw [lookup, staleEntries, ih]
    unfold lookupEntry
    by_cases hfn : f.name = name
    · rw [if_pos hfn, List.find?_cons_of_pos (by simpa using hfn)]
      rfl
    · rw [if_neg hfn, List.find?_cons_of_neg (by simpa using hfn)]

/-- A file whose name does not occur before it is found. -/
theorem lookup_append (lastSize offset : Nat) (pre post : List File) (f : File)
    (hpre : ∀ g ∈ pre, g.name ≠ f.name) :
    lookup lastSize f.name offset (pre ++ f :: post) =
      some (offset + pre.length * lastSize, lastSize) := by
  induction pre generalizing offset with
  | nil => simp [lookup]
  | cons g pre ih =>
    have hg := hpre g (List.mem_cons_self ..)
    rw [List.cons_append, lookup, if_neg hg,
      ih _ fun g' hg' => hpre g' (List.mem_cons_of_mem _ hg'), List.length_cons]
    congr 2
    rw [Nat.add_mul]
    omega

theorem lookup_eq_none (lastSize offset : Nat) (fs : List File) (name : Bytes)
    (h : name ∉ fs.map File.name) : lookup lastSize name offset fs = none := by
  induction fs generalizing offset with
  | nil => rfl
  | cons f fs ih =>
    rw [List.map_cons, List.mem_cons, not_or] at h
    rw [lookup, if_neg (Ne.symm h.1)]
    exact ih _ h.2

/-! ## What the builder writes -/

/-- The padding between table and data. -/
def padding (count : Nat) : Bytes :=
  List.replicate (dataOffset count - (headerSize + count * entrySize)) 0

/-- The image for these files. -/
def image (lastSize : Nat) (files : List File) : Bytes :=
  headerBytes files.length (dataOffset files.length + (files.map File.size).sum) ++
    entryTable lastSize (dataOffset files.length) files ++
    (padding files.length ++ files.flatMap File.content)

theorem length_beforeData (lastSize : Nat) (files : List File) (total : Nat) :
    (headerBytes files.length total ++ entryTable lastSize (dataOffset files.length) files ++
      padding files.length).length = dataOffset files.length := by
  have hle : headerSize + files.length * entrySize ≤ dataOffset files.length :=
    le_roundUp (by decide)
  simp only [List.length_append, length_headerBytes, length_entryTable, padding,
    List.length_replicate]
  omega

/-- The table of an image is padded to a multiple of 8. -/
theorem padding_eq (lastSize : Nat) (files : List File) (total : Nat) :
    List.replicate
      (roundUp 8 (headerBytes files.length total ++
          entryTable lastSize (dataOffset files.length) files).length -
        (headerBytes files.length total ++
          entryTable lastSize (dataOffset files.length) files).length) (0 : UInt8) =
      padding files.length := by
  have hlen : (headerBytes files.length total ++
      entryTable lastSize (dataOffset files.length) files).length =
      headerSize + files.length * entrySize := by
    rw [List.length_append, length_headerBytes, length_entryTable]
  rw [hlen]
  rfl

/-- What `build_ramdisk` writes, and when it finishes. -/
theorem build_spec {files : List File} {last : File} (hlast : files.getLast? = some last)
    {img : Bytes} :
    buildRamdisk files = some img ↔
      files.length < 2 ^ 32 ∧ dataOffset files.length + (files.map File.size).sum < 2 ^ 64 ∧
      packEntries last.size (dataOffset files.length) files =
        some (entryTable last.size (dataOffset files.length) files) ∧
      img = image last.size files := by
  have hmagic : packI RAMDISK_MAGIC = some (le 4 RAMDISK_MAGIC) := rfl
  unfold buildRamdisk
  rw [hlast]
  dsimp only
  rw [hmagic]
  simp only [Option.bind_eq_bind, Option.bind_some]
  constructor
  · intro h
    obtain ⟨count, hcount, h⟩ := Option.bind_eq_some_iff.mp h
    obtain ⟨total, htotal, h⟩ := Option.bind_eq_some_iff.mp h
    obtain ⟨entries, hentries, h⟩ := Option.bind_eq_some_iff.mp h
    unfold packI at hcount
    unfold packQ at htotal
    split at hcount
    · rename_i hn
      split at htotal
      · rename_i ht
        obtain rfl := Option.some.inj hcount
        obtain rfl := Option.some.inj htotal
        obtain ⟨rfl, -⟩ := packEntries_some hentries
        refine ⟨hn, ht, hentries, ?_⟩
        rw [← Option.some.inj h]
        have hpad := padding_eq last.size files
          (dataOffset files.length + (files.map File.size).sum)
        unfold headerBytes at hpad
        rw [hpad, image, headerBytes, List.append_assoc]
      · simp at htotal
    · simp at hcount
  · rintro ⟨hn, ht, hentries, rfl⟩
    have hcount : packI files.length = some (le 4 files.length) := if_pos hn
    have htotal : packQ (dataOffset files.length + (files.map File.size).sum) =
        some (le 8 (dataOffset files.length + (files.map File.size).sum)) := if_pos ht
    rw [hcount, htotal, hentries]
    simp only [Option.bind_some]
    have hpad := padding_eq last.size files
      (dataOffset files.length + (files.map File.size).sum)
    unfold headerBytes at hpad
    rw [hpad, image, headerBytes, List.append_assoc]
    rfl

/-- The kernel accepts the image, and finds each name's first entry. -/
theorem read_built (s₀ : State) {lastSize : Nat} {files : List File}
    (hvalid : ∀ f ∈ files, ValidName f.name) (hn : files.length < 2 ^ 32)
    (hfit : ∀ k < files.length, dataOffset files.length + k * lastSize < 2 ^ 64)
    (hlast : lastSize < 2 ^ 64) :
    ramdiskInit s₀ (image lastSize files) =
        some ⟨some (image lastSize files), some (image lastSize files)⟩ ∧
      ∀ name, 0 ∉ name →
        ramdiskFindFile ⟨some (image lastSize files), some (image lastSize files)⟩ name =
          some (lookup lastSize name (dataOffset files.length) files) := by
  set es := staleEntries lastSize (dataOffset files.length) files with hes
  have hlen : es.length = files.length := length_staleEntries ..
  have himg : image lastSize files =
      headerBytes es.length (dataOffset files.length + (files.map File.size).sum) ++
        tableBytes es ++ (padding files.length ++ files.flatMap File.content) := by
    rw [hlen, image, entryTable_eq]
  have hcount : es.length < 2 ^ 32 := by
    rw [hlen]
    exact hn
  obtain ⟨hinit, hfind⟩ := read_image s₀ hcount (staleEntries_ok hvalid hfit hlast) _ _ himg
  refine ⟨hinit, fun name hname => ?_⟩
  rw [hfind name hname, lookup_eq]

/-- The content of a file lies behind the contents of the files before it. -/
theorem slice_content (lastSize : Nat) (pre post : List File) (f : File) :
    slice (image lastSize (pre ++ f :: post))
      (dataOffset (pre ++ f :: post).length + (pre.flatMap File.content).length) f.size =
      some f.content := by
  set files := pre ++ f :: post with hfiles
  have hdata : slice (files.flatMap File.content) (pre.flatMap File.content).length f.size =
      some f.content := by
    have hsplit : files.flatMap File.content =
        pre.flatMap File.content ++ f.content ++ post.flatMap File.content := by
      simp [hfiles]
    rw [hsplit]
    exact slice_append _ _ _ _ _ rfl rfl
  have hwhole := slice_of_inner
    (headerBytes files.length (dataOffset files.length + (files.map File.size).sum) ++
      entryTable lastSize (dataOffset files.length) files ++ padding files.length) _ [] hdata
  rw [length_beforeData, List.append_nil] at hwhole
  rw [← hwhole, image]
  simp

/-! ## The round trip -/

/-- Files of one size take up that size times their number. -/
theorem length_flatMap_content {size : Nat} {fs : List File} (h : ∀ f ∈ fs, f.size = size) :
    (fs.flatMap File.content).length = fs.length * size := by
  induction fs with
  | nil => simp
  | cons f fs ih =>
    have hf : f.content.length = size := h f (List.mem_cons_self ..)
    rw [List.flatMap_cons, List.length_append, hf,
      ih fun g hg => h g (List.mem_cons_of_mem _ hg), List.length_cons, Nat.add_mul]
    omega

/-- **Ramdisk round trip.** For files with valid, distinct names, the image
`build_ramdisk` writes reads back exactly when all files have the same size,
there are fewer than `2^32` of them, and the image is smaller than `2^64`. -/
theorem roundTrip_iff (s₀ : State) (files : List File) (hne : files ≠ [])
    (hvalid : ∀ f ∈ files, ValidName f.name) (hdistinct : (files.map File.name).Nodup) :
    RoundTrip s₀ files ↔
      (∀ f ∈ files, ∀ g ∈ files, f.size = g.size) ∧ files.length < 2 ^ 32 ∧
      dataOffset files.length + (files.map File.size).sum < 2 ^ 64 := by
  obtain ⟨last, hlast⟩ : ∃ last, files.getLast? = some last :=
    ⟨files.getLast hne, List.getLast?_eq_some_getLast hne⟩
  have hmem : last ∈ files := List.mem_of_getLast? hlast
  -- the one size every entry gets is that of a file, so it fits too
  have hlastle : last.size ≤ (files.map File.size).sum := by
    obtain ⟨pre, post, hfs⟩ := List.append_of_mem hmem
    rw [hfs, List.map_append, List.sum_append, List.map_cons, List.sum_cons]
    omega
  constructor
  · rintro ⟨img, s, hbuild, hinit, hfiles, -⟩
    obtain ⟨hn, htotal, hentries, rfl⟩ := (build_spec hlast).mp hbuild
    have hfit := (packEntries_some hentries).2
    obtain ⟨hread, hfound⟩ := read_built s₀ hvalid hn hfit (by omega)
    rw [hread] at hinit
    obtain rfl := Option.some.inj hinit
    -- the size found is the last file's, and it must be the length of the content
    have hsize : ∀ f ∈ files, f.size = last.size := by
      intro f hf
      obtain ⟨pre, post, hfs, hpre⟩ := exists_split hdistinct hf
      obtain ⟨offset, size, hfind, hslice⟩ := hfiles f hf
      rw [hfound f.name (hvalid f hf).nul_free] at hfind
      have hlook := lookup_append last.size (dataOffset files.length) pre post f hpre
      rw [← hfs, Option.some.inj hfind] at hlook
      have hpair := Option.some.inj hlook
      rw [← (Prod.mk.inj hpair).2]
      exact (length_of_slice hslice).1
    exact ⟨fun f hf g hg => (hsize f hf).trans (hsize g hg).symm, hn, htotal⟩
  · rintro ⟨hsame, hn, htotal⟩
    have hsize : ∀ f ∈ files, f.size = last.size := fun f hf => hsame f hf last hmem
    -- with equal sizes the stale size is the right one
    have hsum : (files.map File.size).sum = files.length * last.size := by
      rw [sum_size, length_flatMap_content hsize]
    have hentries := packEntries_of_lt last.size (dataOffset files.length) files (by omega)
    have hfit := (packEntries_some hentries).2
    obtain ⟨hread, hfound⟩ := read_built s₀ hvalid hn hfit (by omega)
    refine ⟨image last.size files, _, (build_spec hlast).mpr ⟨hn, htotal, hentries, rfl⟩,
      hread, fun f hf => ?_, fun name hname hno => ?_⟩
    · obtain ⟨pre, post, hfs, hpre⟩ := exists_split hdistinct hf
      refine ⟨dataOffset files.length + pre.length * last.size, last.size, ?_, ?_⟩
      · rw [hfound f.name (hvalid f hf).nul_free]
        have hlook := lookup_append last.size (dataOffset files.length) pre post f hpre
        rw [← hfs] at hlook
        rw [hlook]
      · have hcontent := slice_content last.size pre post f
        rw [← hfs] at hcontent
        have hbefore : (pre.flatMap File.content).length = pre.length * last.size :=
          length_flatMap_content fun g hg => hsize g (hfs ▸ List.mem_append_left _ hg)
        rw [hbefore, hsize f hf] at hcontent
        exact hcontent
    · rw [hfound name hname, lookup_eq_none _ _ _ _ hno]

/-- Two files of one size. -/
def sampleFiles : List File := [⟨[97], [1, 2, 3]⟩, ⟨[98], [4, 5, 6]⟩]

theorem roundTrip_same_size : RoundTrip ⟨none, none⟩ sampleFiles := by
  rw [roundTrip_iff _ sampleFiles (by decide)]
  · decide
  · intro f hf
    simp only [sampleFiles, List.mem_cons, List.not_mem_nil, or_false] at hf
    rcases hf with rfl | rfl
    · exact ⟨by decide, by decide, by decide⟩
    · exact ⟨by decide, by decide, by decide⟩
  · decide

/-- A file of three bytes before a file of one byte: it is found with size 1. -/
theorem shorter_last_file :
    let files : List File := [⟨[97], [1, 2, 3]⟩, ⟨[98], [4]⟩]
    ((buildRamdisk files).bind fun img =>
        (ramdiskInit ⟨none, none⟩ img).bind fun s => ramdiskFindFile s [97]) =
      some (some (184, 1)) ∧ ¬ RoundTrip ⟨none, none⟩ files := by
  intro files
  have hfind : ((buildRamdisk files).bind fun img =>
      (ramdiskInit ⟨none, none⟩ img).bind fun s => ramdiskFindFile s [97]) =
      some (some (184, 1)) := by decide +kernel
  refine ⟨hfind, ?_⟩
  rintro ⟨img, s, hbuild, hinit, hfiles, -⟩
  obtain ⟨offset, size, hres, hslice⟩ := hfiles ⟨[97], [1, 2, 3]⟩ (by decide)
  simp only [hbuild, hinit, Option.bind_some, hres, Option.some.injEq, Prod.mk.injEq] at hfind
  have hlen := (length_of_slice hslice).1
  rw [hfind.2] at hlen
  exact absurd hlen (by decide)

end AegisKernel.Ramdisk
