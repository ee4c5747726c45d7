import AegisKernel.Ramdisk.Definitions

/-!
# Ramdisk — what the kernel finds in an image

An image is a header, a table of entries, and the rest. The reader in
`ramdisk.c` only looks at the first two, so what it finds does not depend on the
builder: `findLoop_entries` is the search loop over any table, and `read_image`
the reader on any image of this form.
-/

namespace AegisKernel.Ramdisk

open Library

/-- A base name the format can hold. -/
structure ValidName (name : Bytes) : Prop where
  ne_nil : name ≠ []
  nul_free : 0 ∉ name
  short : name.length ≤ 63

-- ---------------------------------------------------------------------------
-- The bytes of header and table
-- ---------------------------------------------------------------------------

/-- What an entry of the table says. -/
structure Entry where
  name : Bytes
  offset : Nat
  size : Nat

/-- Its name is stored whole, and its numbers fit their fields. -/
structure Entry.Ok (e : Entry) : Prop where
  valid : ValidName e.name
  offset_lt : e.offset < 2 ^ 64
  size_lt : e.size < 2 ^ 64

/-- The bytes of one entry. -/
def entryBytes (name : Bytes) (offset size : Nat) : Bytes :=
  nameField name ++ le 8 offset ++ le 8 size ++ le 4 0

/-- The bytes of a table. -/
def tableBytes (es : List Entry) : Bytes := es.flatMap fun e => entryBytes e.name e.offset e.size

/-- The header of an image of `count` files. -/
def headerBytes (count total : Nat) : Bytes := le 4 RAMDISK_MAGIC ++ le 4 count ++ le 8 total

@[simp] theorem length_nameField (name : Bytes) : (nameField name).length = 64 := by
  simp only [nameField, List.length_append, List.length_take, List.length_replicate]
  omega

@[simp] theorem length_entryBytes (name : Bytes) (offset size : Nat) :
    (entryBytes name offset size).length = 84 := by
  simp [entryBytes]

theorem length_tableBytes (es : List Entry) :
    (tableBytes es).length = es.length * entrySize := by
  induction es with
  | nil => simp [tableBytes]
  | cons e es ih =>
    rw [tableBytes, List.flatMap_cons, List.length_append, length_entryBytes, ← tableBytes, ih,
      List.length_cons]
    unfold entrySize
    omega

@[simp] theorem length_headerBytes (count total : Nat) :
    (headerBytes count total).length = headerSize := by
  simp [headerBytes, headerSize]

/-- The sizes of files add up to the length of their contents. -/
theorem sum_size {fs : List File} :
    (fs.map File.size).sum = (fs.flatMap File.content).length := by
  rw [List.length_flatMap]
  rfl

/-- Among files of distinct names, a file's name does not occur before it. -/
theorem exists_split {files : List File} (hdistinct : (files.map File.name).Nodup) {f : File}
    (hf : f ∈ files) : ∃ pre post, files = pre ++ f :: post ∧ ∀ g ∈ pre, g.name ≠ f.name := by
  obtain ⟨pre, post, rfl⟩ := List.append_of_mem hf
  refine ⟨pre, post, rfl, fun g hg hgf => ?_⟩
  rw [List.map_append, List.map_cons] at hdistinct
  exact (List.nodup_append.mp hdistinct).2.2 g.name (List.mem_map_of_mem hg) f.name
    (List.mem_cons_self ..) hgf

/-- A valid name is stored whole, with at least one NUL behind it. -/
theorem nameField_valid {name : Bytes} (h : ValidName name) :
    ∃ k, nameField name = name ++ 0 :: List.replicate k 0 := by
  have htake : name.take 63 = name := List.take_of_length_le h.short
  refine ⟨63 - name.length, ?_⟩
  have hlen := h.short
  rw [nameField, htake, show 64 - name.length = 63 - name.length + 1 by omega,
    List.replicate_succ]

-- ---------------------------------------------------------------------------
-- The search
-- ---------------------------------------------------------------------------

/-- The comparison with a stored name says whether the names are equal. -/
theorem strcmp_stored (pre f name rest : Bytes) (hf : 0 ∉ f) (hname : 0 ∉ name) :
    ∃ c, strcmp (pre ++ (f ++ 0 :: rest)) pre.length name = some c ∧ (c = 0 ↔ f = name) := by
  induction name generalizing pre f with
  | nil =>
    cases f with
    | nil => exact ⟨0, by simp [strcmp], by simp⟩
    | cons b f =>
      have hb : b ≠ 0 := fun h => hf (by simp [h])
      refine ⟨b.toNat, by simp [strcmp], ?_⟩
      simpa using fun h : b.toNat = 0 => hb (UInt8.toNat_inj.mp h)
  | cons d name ih =>
    have hd : d ≠ 0 := fun h => hname (by simp [h])
    cases f with
    | nil =>
      refine ⟨0 - d.toNat, by simp [strcmp], ?_⟩
      simpa using fun h : d.toNat = 0 => hd (UInt8.toNat_inj.mp h)
    | cons b f =>
      have hb : b ≠ 0 := fun h => hf (by simp [h])
      by_cases hbd : b = d
      · -- equal so far: both strings move on by one byte
        subst hbd
        obtain ⟨c, hc, hiff⟩ := ih (pre ++ [b]) f (fun h => hf (List.mem_cons_of_mem _ h))
          (fun h => hname (List.mem_cons_of_mem _ h))
        refine ⟨c, ?_, by simpa using hiff⟩
        rw [List.length_append, List.length_singleton, List.append_assoc] at hc
        rw [strcmp]
        simpa [hb] using hc
      · refine ⟨b.toNat - d.toNat, by simp [strcmp, hbd], ?_⟩
        have hne : b.toNat ≠ d.toNat := fun h => hbd (UInt8.toNat_inj.mp h)
        constructor
        · intro h
          exact absurd (by omega) hne
        · intro h
          exact absurd (List.cons.inj h).1 hbd

/-- The fields of an entry are where the reader looks for them. -/
theorem readLe_entry (pre post name : Bytes) {offset size : Nat} (ho : offset < 2 ^ 64)
    (hs : size < 2 ^ 64) :
    readLe (pre ++ entryBytes name offset size ++ post) (pre.length + 64) 8 = some offset ∧
      readLe (pre ++ entryBytes name offset size ++ post) (pre.length + 72) 8 = some size := by
  have h256 : (2 : Nat) ^ 64 = 256 ^ 8 := by norm_num
  have hoff : slice (entryBytes name offset size) 64 8 = some (le 8 offset) := by
    have := slice_append (nameField name) (le 8 offset) (le 8 size ++ le 4 0)
      64 8 (by simp) (by simp)
    rwa [← List.append_assoc] at this
  have hsize : slice (entryBytes name offset size) 72 8 = some (le 8 size) :=
    slice_append (nameField name ++ le 8 offset) (le 8 size) (le 4 0) 72 8 (by simp) (by simp)
  unfold readLe
  rw [slice_of_inner _ _ _ hoff, slice_of_inner _ _ _ hsize]
  simp [unle_le_of_lt (h256 ▸ ho), unle_le_of_lt (h256 ▸ hs)]

/-- The first entry of that name. -/
def lookupEntry (name : Bytes) (es : List Entry) : Option (Nat × Nat) :=
  (es.find? fun e => e.name = name).map fun e => (e.offset, e.size)

/-- On an image with table `es` from entry `i` on, the search loop finds the
first entry of that name. -/
theorem findLoop_entries {name : Bytes} (hname : 0 ∉ name) (es : List Entry)
    (hok : ∀ e ∈ es, e.Ok) (pre post : Bytes) (i : Nat)
    (hpre : pre.length = headerSize + i * entrySize) :
    findLoop (pre ++ tableBytes es ++ post) name i es.length = some (lookupEntry name es) := by
  induction es generalizing pre i with
  | nil => rfl
  | cons e es ih =>
    have he := hok e (List.mem_cons_self ..)
    obtain ⟨k, hk⟩ := nameField_valid he.valid
    set tail := tableBytes es ++ post with htail
    -- the entry at hand is the first one of the rest of the table
    have himg : pre ++ tableBytes (e :: es) ++ post =
        pre ++ entryBytes e.name e.offset e.size ++ tail := by
      simp [tableBytes, htail]
    obtain ⟨c, hc, hciff⟩ := strcmp_stored pre e.name name
      (List.replicate k 0 ++ le 8 e.offset ++ le 8 e.size ++ le 4 0 ++ tail) he.valid.nul_free hname
    have hc' : strcmp (pre ++ entryBytes e.name e.offset e.size ++ tail) pre.length name =
        some c := by
      rw [← hc, entryBytes, hk]
      simp
    obtain ⟨hread, hread'⟩ := readLe_entry pre tail e.name he.offset_lt he.size_lt
    rw [himg, List.length_cons, findLoop]
    simp only [← hpre, hc', hread, hread', Option.bind_eq_bind, Option.bind_some]
    unfold lookupEntry
    -- a match ends the loop here; otherwise it goes on
    by_cases hen : e.name = name
    · rw [if_pos (hciff.mpr hen), List.find?_cons_of_pos (by simpa using hen)]
      rfl
    · rw [if_neg fun h => hen (hciff.mp h), List.find?_cons_of_neg (by simpa using hen)]
      have hnext : (pre ++ entryBytes e.name e.offset e.size).length =
          headerSize + (i + 1) * entrySize := by
        rw [List.length_append, length_entryBytes, hpre]
        unfold entrySize
        omega
      have hrest := ih (fun e' he' => hok e' (List.mem_cons_of_mem _ he'))
        (pre ++ entryBytes e.name e.offset e.size) (i + 1) hnext
      rw [htail, ← List.append_assoc, hrest]
      rfl

/-- A name is found in the entry that has it, if no earlier one does. -/
theorem lookupEntry_append (pre post : List Entry) (e : Entry)
    (hpre : ∀ e' ∈ pre, e'.name ≠ e.name) :
    lookupEntry e.name (pre ++ e :: post) = some (e.offset, e.size) := by
  have hnone : pre.find? (fun e' => e'.name = e.name) = none := by
    rw [List.find?_eq_none]
    intro e' he'
    simpa using hpre e' he'
  unfold lookupEntry
  rw [List.find?_append, hnone, Option.none_or, List.find?_cons_of_pos (by simp)]
  rfl

-- ---------------------------------------------------------------------------
-- The reader
-- ---------------------------------------------------------------------------

/-- The reader on an image: it is accepted, and a name is looked up in its
table. -/
theorem read_image (s₀ : State) {es : List Entry} (hn : es.length < 2 ^ 32)
    (hok : ∀ e ∈ es, e.Ok) (total : Nat) (rest : Bytes) {img : Bytes}
    (himg : img = headerBytes es.length total ++ tableBytes es ++ rest) :
    ramdiskInit s₀ img = some ⟨some img, some img⟩ ∧
      ∀ name, 0 ∉ name →
        ramdiskFindFile ⟨some img, some img⟩ name = some (lookupEntry name es) := by
  have hmagic : slice img 0 4 = some (le 4 RAMDISK_MAGIC) := by
    have := slice_append [] (le 4 RAMDISK_MAGIC)
      (le 4 es.length ++ le 8 total ++ tableBytes es ++ rest) 0 4 rfl (by simp)
    rw [← this, himg, headerBytes]
    simp
  have hcount : slice img 4 4 = some (le 4 es.length) := by
    have := slice_append (le 4 RAMDISK_MAGIC) (le 4 es.length)
      (le 8 total ++ tableBytes es ++ rest) 4 4 (by simp) (by simp)
    rw [← this, himg, headerBytes]
    simp
  have hmagicRead : readLe img 0 4 = some RAMDISK_MAGIC := by
    rw [readLe, hmagic, Option.map_some, unle_le_of_lt (by decide)]
  have hcountRead : readLe img 4 4 = some es.length := by
    rw [readLe, hcount, Option.map_some, unle_le_of_lt]
    calc es.length < 2 ^ 32 := hn
      _ = 256 ^ 4 := by norm_num
  refine ⟨by simp [ramdiskInit, hmagicRead], fun name hname => ?_⟩
  unfold ramdiskFindFile
  simp only [hcountRead, Option.bind_eq_bind, Option.bind_some]
  rw [himg]
  exact findLoop_entries hname es hok _ _ 0 (by simp)

end AegisKernel.Ramdisk
