import AegisKernel.Ramdisk.Pointers

/-!
# Ramdisk — when a look-up stays inside the image

`ramdisk_find_file` takes the number of entries, the offset and the size of a
file from the image and does not check them, and compares names that need not
end within their field of 64 bytes.

* `Named` — the entry's string is the name.
* `strcmp_eq_zero_iff`, `strcmp_reads` — the comparison finds that out, and
  leaves the name field exactly when the field is the first 64 bytes of the name.
* `findLoop_found`, `findLoop_absent` — the search returns the first entry with
  that name.
* `lookups_inside_iff` — what is found and read for it lies inside of the image
  exactly when the table up to that entry and the file it names do.
-/

namespace AegisKernel.Ramdisk.Pointers

open Library

-- ---------------------------------------------------------------------------
-- Comparing names
-- ---------------------------------------------------------------------------

/-- The string at the entry, up to its NUL, is the name. -/
def Named (m : Memory) (entry : Address) (name : Bytes) : Prop :=
  (span entry (name.length + 1)).map m = name ++ [0]

/-- The first 64 bytes of the name fill the name field. -/
def Overruns (m : Memory) (entry : Address) (name : Bytes) : Prop :=
  64 ≤ name.length ∧ (span entry 64).map m = name.take 64

instance (m : Memory) (entry : Address) (name : Bytes) : Decidable (Named m entry name) :=
  inferInstanceAs (Decidable (_ = _))

section Comparison

variable {m : Memory} {entry : Address} {name : Bytes}

theorem strcmp_eq_zero_iff (hname : 0 ∉ name) :
    (strcmp m entry name).1 = 0 ↔ Named m entry name := by
  unfold Named
  induction name generalizing entry with
  | nil =>
    show ((m entry).toNat : Int) = 0 ↔ [m entry] = [0]
    rw [List.singleton_inj, ← UInt8.toNat_inj]
    exact Int.natCast_eq_zero
  | cons b name ih =>
    have hb : b ≠ 0 := fun h => hname (by simp [h])
    rw [strcmp, List.length_cons, span, List.map_cons, List.cons_append, List.cons.injEq]
    by_cases heq : m entry = b
    · rw [if_pos ⟨heq ▸ hb, heq⟩]
      exact (ih fun h => hname (List.mem_cons_of_mem _ h)).trans (by simp [heq])
    · rw [if_neg fun h => heq h.2]
      have hne : (m entry).toNat ≠ b.toNat := fun h => heq (UInt8.toNat_inj.mp h)
      constructor
      · intro h
        exact absurd (show (m entry).toNat = b.toNat by dsimp only at h; omega) hne
      · exact fun h => absurd h.1 heq

/-- The comparison reads the bytes of the entry one after the other. -/
theorem strcmp_reads (m : Memory) (entry : Address) (name : Bytes) :
    (strcmp m entry name).2 = span entry (strcmp m entry name).2.length := by
  induction name generalizing entry with
  | nil => rfl
  | cons b name ih =>
    rw [strcmp]
    split
    · dsimp only
      rw [List.length_cons, span]
      exact congrArg _ (ih _)
    · rfl

/-- It reads at most `k` bytes unless these are the first `k` of the name. -/
theorem length_reads_le_iff (hname : 0 ∉ name) (k : Nat) :
    (strcmp m entry name).2.length ≤ k ↔
      ¬ (k ≤ name.length ∧ (span entry k).map m = name.take k) := by
  induction name generalizing entry k with
  | nil =>
    show 1 ≤ k ↔ _
    cases k with
    | zero => simp [span]
    | succ k => simp
  | cons b name ih =>
    have hb : b ≠ 0 := fun h => hname (by simp [h])
    cases k with
    | zero =>
      rw [strcmp]
      split <;> simp [span]
    | succ k =>
      rw [strcmp, List.length_cons, span, List.map_cons, List.take_succ_cons, List.cons.injEq]
      by_cases heq : m entry = b
      · rw [if_pos ⟨heq ▸ hb, heq⟩]
        dsimp only
        rw [List.length_cons, Nat.add_le_add_iff_right, Nat.add_le_add_iff_right,
          ih fun h => hname (List.mem_cons_of_mem _ h)]
        simp [heq]
      · rw [if_neg fun h => heq h.2]
        simp [heq]

/-- The comparison stays in the name field unless the name overruns it. -/
theorem reads_in_field_iff (hname : 0 ∉ name) :
    (∀ a ∈ (strcmp m entry name).2, (a - entry).toNat < 64) ↔ ¬ Overruns m entry name := by
  unfold Overruns
  rw [← length_reads_le_iff hname, strcmp_reads, length_span]
  constructor
  · intro h
    by_contra hlong
    have hdist : (entry + BitVec.ofNat 64 64 - entry).toNat = 64 := by
      rw [BitVec.add_comm, BitVec.add_sub_cancel]
      rfl
    have hlt := h (entry + BitVec.ofNat 64 64) (mem_span.mpr ⟨64, by omega, rfl⟩)
    omega
  · intro hle a ha
    exact Nat.lt_of_lt_of_le ((mem_span_iff (by omega)).mp ha) hle

end Comparison

-- ---------------------------------------------------------------------------
-- The search
-- ---------------------------------------------------------------------------

/-- `&ramdisk_entries[i]` -/
def entryAt (s : State) (i : Nat) : Address := s.entries + BitVec.ofNat 64 (entrySize * i)

/-- The comparison with an entry, as a look-up lists it. -/
def comparison (m : Memory) (s : State) (name : Bytes) (i : Nat) : Address × List Address :=
  (entryAt s i, (strcmp m (entryAt s i) name).2)

section Search

variable {m : Memory} {s : State} {name : Bytes}

/-- The first entry with that name is returned. -/
theorem findLoop_found (hname : 0 ∉ name) {i k n : Nat} (hk : k < n)
    (hnamed : Named m (entryAt s (i + k)) name)
    (hbefore : ∀ j < k, ¬ Named m (entryAt s (i + j)) name) :
    findLoop m s name i n =
      ⟨s.header + BitVec.ofNat 64 (offset m (entryAt s (i + k))),
        some (size m (entryAt s (i + k))),
        (List.range' i (k + 1)).map (comparison m s name)⟩ := by
  induction n generalizing i k with
  | zero => omega
  | succ n ih =>
    rw [findLoop, ← entryAt]
    cases k with
    | zero =>
      rw [Nat.add_zero] at hnamed ⊢
      dsimp only
      rw [if_pos ((strcmp_eq_zero_iff hname).mpr hnamed)]
      rfl
    | succ k =>
      have hfirst := hbefore 0 (by omega)
      rw [Nat.add_zero] at hfirst
      dsimp only
      rw [if_neg fun h => hfirst ((strcmp_eq_zero_iff hname).mp h)]
      have hi : ∀ j, i + 1 + j = i + (j + 1) := fun j => by omega
      rw [ih (i := i + 1) (k := k) (by omega) (by rw [hi]; exact hnamed) fun j hj => by
        rw [hi]
        exact hbefore (j + 1) (by omega), hi, List.range'_succ (s := i), List.map_cons]
      rfl

/-- Without such an entry, nothing is. -/
theorem findLoop_absent (hname : 0 ∉ name) {i n : Nat}
    (habsent : ∀ j < n, ¬ Named m (entryAt s (i + j)) name) :
    (findLoop m s name i n).pointer = 0#64 ∧ (findLoop m s name i n).size = none := by
  induction n generalizing i with
  | zero => exact ⟨rfl, rfl⟩
  | succ n ih =>
    have hfirst := habsent 0 (by omega)
    rw [Nat.add_zero] at hfirst
    rw [findLoop, ← entryAt]
    dsimp only
    rw [if_neg fun h => hfirst ((strcmp_eq_zero_iff hname).mp h)]
    exact ih fun j hj => by
      rw [show i + 1 + j = i + (j + 1) by omega]
      exact habsent (j + 1) (by omega)

end Search

-- ---------------------------------------------------------------------------
-- One image
-- ---------------------------------------------------------------------------

/-- An image of `total_size` bytes with the right magic. -/
structure ImageAt (m : Memory) (image : Address) : Prop where
  ne_null : image ≠ 0#64
  magic_eq : magic m image = RAMDISK_MAGIC
  header : headerSize ≤ totalSize m image
  in_memory : image.toNat + totalSize m image < 2 ^ 64

/-- The variables with the image installed. -/
def installed (image : Address) : State := ⟨image, image + BitVec.ofNat 64 headerSize⟩

/-- The look-up stays inside of the image: the entries it compares do, the
comparisons stay in their name fields, and so does the range it returns. -/
structure Inside (m : Memory) (image : Address) (found : Lookup) : Prop where
  entries : ∀ c ∈ found.compared, (c.1 - image).toNat + entrySize ≤ totalSize m image
  names : ∀ c ∈ found.compared, ∀ a ∈ c.2, (a - c.1).toNat < 64
  range : ∀ n, found.size = some n → (found.pointer - image).toNat + n ≤ totalSize m image

/-- The first entry with that name. -/
structure FirstNamed (m : Memory) (image : Address) (name : Bytes) (k : Nat) : Prop where
  lt : k < fileCount m image
  named : Named m (entryAt (installed image) k) name
  first : ∀ j < k, ¬ Named m (entryAt (installed image) j) name

/-- Entry `k` and what it names lie inside of the image, and the name overruns no
name field up to there. -/
structure EntryInside (m : Memory) (image : Address) (name : Bytes) (k : Nat) : Prop where
  table : headerSize + entrySize * (k + 1) ≤ totalSize m image
  names : ∀ j ≤ k, ¬ Overruns m (entryAt (installed image) j) name
  file : offset m (entryAt (installed image) k) + size m (entryAt (installed image) k) ≤
    totalSize m image

section Image

variable {m : Memory} {image : Address} {name : Bytes} {k : Nat}

theorem ramdiskInit_image (h : magic m image = RAMDISK_MAGIC) (s₀ : State) :
    ramdiskInit m s₀ image = installed image := by
  unfold ramdiskInit
  rw [if_neg (not_not.mpr h)]
  rfl

theorem installed_ne_null (h : ImageAt m image) :
    ¬ ((installed image).header = 0#64 ∨ (installed image).entries = 0#64) := by
  have hheader := h.header
  have hmem := h.in_memory
  unfold headerSize at hheader
  rintro (h0 | h0)
  · exact h.ne_null h0
  · have hnat := congrArg BitVec.toNat h0
    unfold installed headerSize at hnat
    rw [BitVec.toNat_add, BitVec.toNat_ofNat, BitVec.toNat_ofNat] at hnat
    omega

/-- Where an entry lies, counted from the start of the image. -/
theorem entryAt_sub (hk : k < 2 ^ 32) :
    (entryAt (installed image) k - image).toNat = headerSize + entrySize * k := by
  unfold entryAt installed
  dsimp only
  rw [BitVec.add_assoc, BitVec.add_comm image, BitVec.add_sub_cancel, ← BitVec.ofNat_add,
    BitVec.toNat_ofNat]
  unfold headerSize entrySize
  omega

theorem fileCount_lt (m : Memory) (image : Address) : fileCount m image < 2 ^ 32 := by
  have h : fileCount m image < 256 ^ 4 := fetch_lt
  omega

theorem offset_lt (m : Memory) (entry : Address) : offset m entry < 2 ^ 64 := by
  have h : offset m entry < 256 ^ 8 := fetch_lt
  omega

/-- A name is in the image, with a first entry, or it is not. -/
theorem firstNamed_or_absent (m : Memory) (image : Address) (name : Bytes) :
    (∃ k, FirstNamed m image name k) ∨
      ∀ j < fileCount m image, ¬ Named m (entryAt (installed image) j) name := by
  by_cases hex : ∃ k, k < fileCount m image ∧ Named m (entryAt (installed image) k) name
  · refine .inl ⟨Nat.find hex, (Nat.find_spec hex).1, (Nat.find_spec hex).2, fun j hj hnamed => ?_⟩
    exact Nat.find_min hex hj ⟨hj.trans (Nat.find_spec hex).1, hnamed⟩
  · exact .inr fun j hj hnamed => hex ⟨j, hj, hnamed⟩

/-- What a look-up of a name in the image does. -/
theorem find_firstNamed (h : ImageAt m image) (hname : 0 ∉ name) (hk : FirstNamed m image name k) :
    ramdiskFindFile m (installed image) name =
      ⟨image + BitVec.ofNat 64 (offset m (entryAt (installed image) k)),
        some (size m (entryAt (installed image) k)),
        (List.range' 0 (k + 1)).map (comparison m (installed image) name)⟩ := by
  have hfound := findLoop_found hname (i := 0) hk.lt
    (by rw [Nat.zero_add]; exact hk.named)
    (fun j hj => by rw [Nat.zero_add]; exact hk.first j hj)
  rw [Nat.zero_add] at hfound
  unfold ramdiskFindFile
  rw [if_neg (installed_ne_null h)]
  exact hfound

/-- Such a look-up stays inside of the image exactly when the entry does. -/
theorem inside_iff (h : ImageAt m image) (hname : 0 ∉ name) (hk : FirstNamed m image name k) :
    Inside m image (ramdiskFindFile m (installed image) name) ↔ EntryInside m image name k := by
  have hcount := fileCount_lt m image
  have hlt := hk.lt
  have hfind := find_firstNamed h hname hk
  have hcompared : ∀ c, c ∈ (ramdiskFindFile m (installed image) name).compared ↔
      ∃ j ≤ k, c = comparison m (installed image) name j := fun c => by
    rw [hfind, List.mem_map]
    simp only [List.mem_range'_1, Nat.zero_le, Nat.zero_add, true_and, Nat.lt_succ_iff, eq_comm]
  have hoffset : (image + BitVec.ofNat 64 (offset m (entryAt (installed image) k)) - image).toNat =
      offset m (entryAt (installed image) k) := by
    rw [BitVec.add_comm, BitVec.add_sub_cancel, BitVec.toNat_ofNat,
      Nat.mod_eq_of_lt (offset_lt m _)]
  constructor
  · intro hin
    refine ⟨?_, fun j hj => ?_, ?_⟩
    · have hlast := hin.entries _ ((hcompared _).mpr ⟨k, Nat.le_refl k, rfl⟩)
      rw [comparison, entryAt_sub (by omega)] at hlast
      rw [Nat.mul_succ]
      omega
    · exact (reads_in_field_iff hname).mp (hin.names _ ((hcompared _).mpr ⟨j, hj, rfl⟩))
    · have hrange := hin.range (size m (entryAt (installed image) k)) (by rw [hfind])
      rw [hfind] at hrange
      rwa [← hoffset]
  · intro hin
    refine ⟨fun c hc => ?_, fun c hc => ?_, fun n hn => ?_⟩
    · obtain ⟨j, hj, rfl⟩ := (hcompared c).mp hc
      have htable := hin.table
      have hle : entrySize * (j + 1) ≤ entrySize * (k + 1) := Nat.mul_le_mul_left _ (by omega)
      rw [Nat.mul_succ] at hle
      rw [comparison, entryAt_sub (by omega)]
      omega
    · obtain ⟨j, hj, rfl⟩ := (hcompared c).mp hc
      exact (reads_in_field_iff hname).mpr (hin.names j hj)
    · rw [hfind] at hn ⊢
      obtain rfl := Option.some.inj hn
      rw [hoffset]
      exact hin.file

end Image

/-- **Look-ups stay inside the image.** With an image installed, a look-up that
returns a pointer stays inside of the image if and only if the first entry with
that name does, where it is one whose file is not at address 0. -/
theorem lookups_inside_iff {m : Memory} {image : Address} (h : ImageAt m image) (s₀ : State)
    {name : Bytes} (hname : 0 ∉ name) :
    ((ramdiskFindFile m (ramdiskInit m s₀ image) name).pointer ≠ 0#64 →
      Inside m image (ramdiskFindFile m (ramdiskInit m s₀ image) name)) ↔
    ∀ k, FirstNamed m image name k →
      image + BitVec.ofNat 64 (offset m (entryAt (installed image) k)) ≠ 0#64 →
      EntryInside m image name k := by
  rw [ramdiskInit_image h.magic_eq]
  constructor
  · intro hin k hk hne
    rw [← inside_iff h hname hk]
    refine hin ?_
    rw [find_firstNamed h hname hk]
    exact hne
  · intro hcond hne
    rcases firstNamed_or_absent m image name with ⟨k, hk⟩ | habsent
    · rw [inside_iff h hname hk]
      refine hcond k hk ?_
      rw [find_firstNamed h hname hk] at hne
      exact hne
    · -- no such entry: the pointer is NULL
      have hnull := (findLoop_absent hname (i := 0) fun j hj => by
        rw [Nat.zero_add]
        exact habsent j hj).1
      unfold ramdiskFindFile at hne
      rw [if_neg (installed_ne_null h)] at hne
      exact absurd hnull hne

/-- An image at `0x1000` with two files of four bytes, `a` and `b`. -/
def twoFiles : Memory :=
  bytesAt 0x1000#64 (le 4 RAMDISK_MAGIC ++ le 4 2 ++ le 8 192 ++
    nameField [97] ++ le 8 184 ++ le 8 4 ++ le 4 0 ++
    nameField [98] ++ le 8 188 ++ le 8 4 ++ le 4 0)

/-- The second file. -/
theorem lookups_inside_second :
    Inside twoFiles 0x1000#64
      (ramdiskFindFile twoFiles (ramdiskInit twoFiles boot 0x1000#64) [98]) := by
  have h : ImageAt twoFiles 0x1000#64 := ⟨by decide, by decide, by decide, by decide⟩
  refine (lookups_inside_iff h boot (by decide)).mpr (fun k hk _ => ?_) (by decide)
  have hcount : fileCount twoFiles 0x1000#64 = 2 := by decide
  have hlt := hk.lt
  have hfirst : ¬ Named twoFiles (entryAt (installed 0x1000#64) 0) [98] := by
    unfold Named
    decide
  obtain rfl : k = 1 := by
    by_contra hne
    obtain rfl : k = 0 := by omega
    exact hfirst hk.named
  refine ⟨by decide, fun j hj hover => ?_, by decide⟩
  exact absurd hover.1 (by decide)

/-- An image at `0x1000` with one file, `a`. -/
def oneFile (offset size total : Nat) : Memory :=
  bytesAt 0x1000#64 (le 4 RAMDISK_MAGIC ++ le 4 1 ++ le 8 total ++ nameField [97] ++ le 8 offset ++
    le 8 size ++ le 4 0)

/-- The same file said to have 5000 bytes: `ramdisk_find_file` returns it, although
the image ends after 100. -/
theorem file_outside_image :
    let m := oneFile 100 5000 100
    let found := ramdiskFindFile m (ramdiskInit m boot 0x1000#64) [97]
    ImageAt m 0x1000#64 ∧ found.pointer = 0x1064#64 ∧ found.size = some 5000 ∧
      ¬ (found.pointer ≠ 0#64 → Inside m 0x1000#64 found) := by
  intro m found
  have hpointer : found.pointer = 0x1064#64 := by decide
  have hsize : found.size = some 5000 := by decide
  have htotal : totalSize m 0x1000#64 = 100 := by decide
  refine ⟨⟨by decide, by decide, by decide, by decide⟩, hpointer, hsize, fun hin => ?_⟩
  have hrange := (hin (by rw [hpointer]; decide)).range 5000 hsize
  rw [htotal] at hrange
  omega

end AegisKernel.Ramdisk.Pointers
