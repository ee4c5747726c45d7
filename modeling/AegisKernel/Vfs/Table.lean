import AegisKernel.Library.Runs
import AegisKernel.Vfs.Definitions

/-!
# VFS server — names and lookup

The lookup of the server compares C strings in 64-byte fields. This module
turns it into a statement about names and says what the handlers do to it:

* `strcmp_eq_zero_iff` — the comparison is equality of the C strings.
* `storedName_spec` — `handle_create` stores the first 63 bytes of the path.
* `Fields` — what every request keeps: names are NUL-terminated in their
  fields, and sizes are at most `MAX_FILE_SIZE`.
* `fileFind_eq_some_iff` — while names are distinct, a lookup finds *the* used
  entry of that name.
-/

namespace AegisKernel.Vfs

open Library

/-! ## C strings -/

theorem cstring_nul_free (bs : Bytes) : 0 ∉ cstring bs := by
  intro h
  have := List.mem_takeWhile_imp h
  simp at this

theorem cstring_of_nul_free {bs : Bytes} (h : 0 ∉ bs) : cstring bs = bs := by
  unfold cstring
  rw [List.takeWhile_eq_self_iff]
  intro b hb
  have : b ≠ 0 := fun h0 => h (h0 ▸ hb)
  simpa using this

/-- A NUL ends the string. -/
theorem cstring_append_nul {p : Bytes} (hp : 0 ∉ p) (rest : Bytes) :
    cstring (p ++ 0 :: rest) = p := by
  unfold cstring
  rw [List.takeWhile_append_of_pos]
  · simp
  · intro b hb
    have : b ≠ 0 := fun h0 => hp (h0 ▸ hb)
    simpa using this

theorem cstring_cons {c : UInt8} (hc : c ≠ 0) (bs : Bytes) :
    cstring (c :: bs) = c :: cstring bs := by
  simp [cstring, hc]

theorem cstring_eq_nil_iff (bs : Bytes) : cstring bs = [] ↔ bs.headD 0 = 0 := by
  cases bs with
  | nil => simp [cstring]
  | cons b bs =>
    by_cases hb : b = 0
    · simp [cstring, hb]
    · simp [cstring, hb]

/-- `strcmp` returns 0 exactly on equal strings. -/
theorem strcmp_eq_zero_iff (s1 s2 : Bytes) : strcmp s1 s2 = 0 ↔ cstring s1 = cstring s2 := by
  have htoNat : ∀ {a b : UInt8}, (a.toNat : Int) - b.toNat = 0 ↔ a = b := by
    intro a b
    rw [Int.sub_eq_zero, Int.natCast_inj, UInt8.toNat_inj]
  -- by induction on the first string, which the loop walks along
  induction s1 generalizing s2 with
  | nil =>
    have hnil : cstring [] = [] := rfl
    rw [strcmp, hnil, eq_comm (a := ([] : Bytes)), cstring_eq_nil_iff, eq_comm (b := (0 : UInt8))]
    exact htoNat (a := 0)
  | cons c s1 ih =>
    rw [strcmp]
    by_cases hc : c = 0
    · -- the first string is empty
      subst hc
      have hnil : cstring (0 :: s1) = [] := by simp [cstring]
      rw [if_neg (by simp), htoNat, hnil, eq_comm (a := ([] : Bytes)), cstring_eq_nil_iff, eq_comm]
    · rw [cstring_cons hc]
      cases s2 with
      | nil =>
        have hnil : cstring [] = [] := rfl
        rw [if_neg (by simp [hc]), htoNat, hnil]
        simp [hc]
      | cons d s2 =>
        by_cases hcd : c = d
        · subst hcd
          rw [if_pos ⟨hc, rfl⟩, cstring_cons hc, List.tail_cons]
          refine (ih s2).trans ?_
          simp
        · rw [if_neg (by simp [hcd]), htoNat, List.headD_cons]
          by_cases hd : d = 0
          · subst hd
            simp [cstring, hc]
          · rw [cstring_cons hd]
            simp [hcd]

theorem Msg.path_nul_free (m : Msg) : 0 ∉ m.path := cstring_nul_free _

/-! ## The name `handle_create` stores -/

/-- The name field of a newly created entry. -/
def storedName (old path : Bytes) : Bytes := (strncpy old path 63).set 63 0

theorem strncpyBytes_eq {p : Bytes} (hp : 0 ∉ p) (n : Nat) :
    strncpyBytes p n =
      if p.length < n then p ++ List.replicate (n - p.length + 1) 0 else p.take n := by
  induction p generalizing n with
  | nil =>
    cases n with
    | zero => rfl
    | succ n => simp [strncpyBytes, List.replicate_succ]
  | cons c p ih =>
    cases n with
    | zero => simp [strncpyBytes]
    | succ n =>
      have hc : c ≠ 0 := fun h => hp (by simp [h])
      rw [strncpyBytes, if_neg hc, ih (fun h => hp (List.mem_cons_of_mem _ h))]
      by_cases hlt : p.length < n
      · rw [if_pos hlt, if_pos (by simp only [List.length_cons]; omega)]
        simp [Nat.add_sub_add_right]
      · rw [if_neg hlt, if_neg (by simp only [List.length_cons]; omega)]
        simp

/-- One byte more than `n`, where the source has fewer characters. -/
theorem length_strncpyBytes {p : Bytes} (hp : 0 ∉ p) (n : Nat) :
    (strncpyBytes p n).length = if n ≤ p.length then n else n + 1 := by
  rw [strncpyBytes_eq hp]
  by_cases hle : n ≤ p.length
  · rw [if_pos hle, if_neg (by omega), List.length_take, Nat.min_eq_left hle]
  · rw [if_neg hle, if_pos (by omega), List.length_append, List.length_replicate]
    omega

/-- The callers of `strncpy` give it one byte less than the field has, and end the
field themselves. -/
theorem cstring_strncpy_set {p : Bytes} (hp : 0 ∉ p) (dest : Bytes) (n : Nat) :
    cstring ((strncpy dest p n).set n 0) = p.take n := by
  rw [strncpy]
  generalize dest.drop (strncpyBytes p n).length = old
  rw [strncpyBytes_eq hp]
  by_cases hlt : p.length < n
  · -- a short source: `n + 1` bytes are written, and those behind it are NUL already
    obtain ⟨d, hd⟩ : ∃ d, n = p.length + (d + 1) := ⟨n - p.length - 1, by omega⟩
    rw [if_pos hlt, List.append_assoc, List.replicate_succ, List.cons_append,
      List.set_append_right _ _ (by omega), List.take_of_length_le (by omega), hd,
      Nat.add_sub_cancel_left, List.set_cons_succ]
    exact cstring_append_nul hp _
  · -- a source of `n` bytes or more: the byte behind is the old one, until it is cleared
    have htake : (p.take n).length = n := by
      rw [List.length_take]
      omega
    have hfree : 0 ∉ p.take n := fun h => hp (List.mem_of_mem_take h)
    rw [if_neg hlt, List.set_append_right _ _ (by omega), htake, Nat.sub_self]
    cases old with
    | nil => rw [List.set_nil, List.append_nil, cstring_of_nul_free hfree]
    | cons b old => exact cstring_append_nul hfree old

/-- The stored name is the path cut off after 63 bytes, NUL-terminated in its
field. -/
theorem storedName_spec {old p : Bytes} (hold : old.length = NAME_SIZE) (hp : 0 ∉ p) :
    (storedName old p).length = NAME_SIZE ∧ cstring (storedName old p) = p.take 63 := by
  refine ⟨?_, cstring_strncpy_set hp old 63⟩
  have hlength := length_strncpyBytes hp 63
  unfold NAME_SIZE at *
  rw [storedName, List.length_set, strncpy, List.length_append, List.length_drop]
  split at hlength <;> omega

/-! ## Lookup -/

/-- Used entry `i` has name `p`. -/
def Named (t : Table) (p : Bytes) (i : Nat) : Prop :=
  i < MAX_FILES ∧ (t i).used = true ∧ cstring (t i).name = p

/-- The names of used entries are pairwise distinct. -/
def NamesDistinct (t : Table) : Prop := ∀ p i j, Named t p i → Named t p j → i = j

/-- Names are NUL-terminated in their 64-byte fields, sizes are in range. -/
structure Fields (t : Table) : Prop where
  name_length : ∀ i < MAX_FILES, (t i).name.length = NAME_SIZE
  name_short : ∀ i < MAX_FILES, (cstring (t i).name).length ≤ 63
  size_le : ∀ i < MAX_FILES, (t i).size.toNat ≤ 4096

section Lookup

variable {t : Table} {p : Bytes} {i : Nat}

/-- The test `file_find` makes at slot `i`. -/
theorem fileFind_test (hp : 0 ∉ p) :
    ((t i).used && strcmp (t i).name p == 0) = true ↔
      (t i).used = true ∧ cstring (t i).name = p := by
  rw [Bool.and_eq_true, beq_iff_eq, strcmp_eq_zero_iff, cstring_of_nul_free hp]

theorem fileFind_some (hp : 0 ∉ p) (h : fileFind t p = some i) : Named t p i := by
  have hmem := List.mem_of_find?_eq_some h
  have htest := List.find?_some h
  exact ⟨List.mem_range.mp hmem, (fileFind_test hp).mp htest⟩

theorem fileFind_eq_none_iff (hp : 0 ∉ p) : fileFind t p = none ↔ ∀ i, ¬ Named t p i := by
  unfold fileFind
  rw [List.find?_eq_none]
  constructor
  · rintro h i ⟨hi, hnamed⟩
    exact h i (List.mem_range.mpr hi) ((fileFind_test hp).mpr hnamed)
  · intro h i hi htest
    exact h i ⟨List.mem_range.mp hi, (fileFind_test hp).mp htest⟩

/-- With distinct names, a lookup finds the entry of that name. -/
theorem fileFind_eq_some_iff (hd : NamesDistinct t) (hp : 0 ∉ p) :
    fileFind t p = some i ↔ Named t p i := by
  constructor
  · exact fileFind_some hp
  · intro hi
    rcases hfind : fileFind t p with _ | j
    · exact absurd hi ((fileFind_eq_none_iff hp).mp hfind i)
    · rw [hd p j i (fileFind_some hp hfind) hi]

theorem fileFindFree_some (h : fileFindFree t = some i) : i < MAX_FILES ∧ (t i).used = false := by
  have hmem := List.mem_of_find?_eq_some h
  have htest := List.find?_some h
  exact ⟨List.mem_range.mp hmem, by simpa using htest⟩

theorem fileFindFree_eq_none_iff : fileFindFree t = none ↔ ∀ i < MAX_FILES, (t i).used = true := by
  unfold fileFindFree
  rw [List.find?_eq_none]
  simp

/-- Lookup only looks at `used` and `name`. -/
theorem fileFind_congr {t' : Table} (h : ∀ i, (t' i).used = (t i).used ∧ (t' i).name = (t i).name)
    (p : Bytes) : fileFind t' p = fileFind t p := by
  unfold fileFind
  congr 1
  funext i
  rw [(h i).1, (h i).2]

theorem named_congr {t' : Table} (h : ∀ i, (t' i).used = (t i).used ∧ (t' i).name = (t i).name) :
    Named t' p i ↔ Named t p i := by
  unfold Named
  rw [(h i).1, (h i).2]

end Lookup

section Entries

variable {t : Table} {i j : Nat} {f : FileEntry → FileEntry}

@[simp] theorem setEntry_self : setEntry t i f i = f (t i) := Function.update_self ..

@[simp] theorem setEntry_of_ne (h : j ≠ i) : setEntry t i f j = t j := Function.update_of_ne h ..

/-- An edit of one entry's other fields does not change any lookup. -/
theorem setEntry_names (hused : (f (t i)).used = (t i).used) (hname : (f (t i)).name = (t i).name)
    (j : Nat) : (setEntry t i f j).used = (t j).used ∧ (setEntry t i f j).name = (t j).name := by
  by_cases hj : j = i
  · subst hj
    rw [setEntry_self]
    exact ⟨hused, hname⟩
  · rw [setEntry_of_ne hj]
    exact ⟨rfl, rfl⟩

theorem Fields.setEntry (h : Fields t)
    (hlen : i < MAX_FILES → (f (t i)).name.length = NAME_SIZE)
    (hshort : i < MAX_FILES → (cstring (f (t i)).name).length ≤ 63)
    (hsize : i < MAX_FILES → (f (t i)).size.toNat ≤ 4096) : Fields (setEntry t i f) := by
  refine ⟨?_, ?_, ?_⟩
  · exact (Function.forall_update_iff t fun j e =>
      j < MAX_FILES → e.name.length = NAME_SIZE).mpr ⟨hlen, fun j _ => h.name_length j⟩
  · exact (Function.forall_update_iff t fun j e =>
      j < MAX_FILES → (cstring e.name).length ≤ 63).mpr ⟨hshort, fun j _ => h.name_short j⟩
  · exact (Function.forall_update_iff t fun j e =>
      j < MAX_FILES → e.size.toNat ≤ 4096).mpr ⟨hsize, fun j _ => h.size_le j⟩

end Entries

/-! ## What the handlers do to a file -/

section Dispatch

variable {t : Table} {m : Msg}

theorem handle_read (h : m.type = VFS_READ) : handle t m = handleRead t m := by
  simp [handle, h]

theorem handle_write (h : m.type = VFS_WRITE) : handle t m = handleWrite t m := by
  simp [handle, h, VFS_READ, VFS_WRITE]

theorem handle_create (h : m.type = VFS_CREATE) : handle t m = some (handleCreate t m) := by
  simp [handle, h, VFS_READ, VFS_WRITE, VFS_CREATE]

theorem handle_delete (h : m.type = VFS_DELETE) : handle t m = some (handleDelete t m) := by
  simp [handle, h, VFS_READ, VFS_WRITE, VFS_CREATE, VFS_DELETE]

theorem handle_truncate (h : m.type = VFS_TRUNCATE) :
    handle t m = some (handleTruncate t m) := by
  simp [handle, h, VFS_READ, VFS_WRITE, VFS_CREATE, VFS_DELETE, VFS_TRUNCATE]

theorem handle_stat (h : m.type = VFS_STAT) : handle t m = some (handleStat t m) := by
  simp [handle, h, VFS_READ, VFS_WRITE, VFS_CREATE, VFS_DELETE, VFS_TRUNCATE, VFS_STAT]

theorem handle_readdir (h : m.type = VFS_READDIR) : handle t m = some (handleReaddir t m) := by
  simp [handle, h, VFS_READ, VFS_WRITE, VFS_CREATE, VFS_DELETE, VFS_TRUNCATE, VFS_STAT,
    VFS_READDIR]

theorem handle_open (h : m.type = VFS_OPEN) : handle t m = some (handleOpen t m) := by
  simp [handle, h, VFS_READ, VFS_WRITE, VFS_CREATE, VFS_DELETE, VFS_TRUNCATE, VFS_STAT,
    VFS_READDIR, VFS_OPEN]

/-- The other requests change nothing, whatever their arguments. -/
theorem handle_other (hr : m.type ≠ VFS_READ) (hw : m.type ≠ VFS_WRITE)
    (hc : m.type ≠ VFS_CREATE) (hd : m.type ≠ VFS_DELETE) (ht : m.type ≠ VFS_TRUNCATE) :
    ∃ r, handle t m = some (r, t) := by
  unfold handle
  rw [if_neg hr, if_neg hw, if_neg hc, if_neg hd, if_neg ht]
  split
  · unfold handleStat
    split <;> exact ⟨_, rfl⟩
  · split
    · exact ⟨_, rfl⟩
    · split
      · unfold handleOpen
        split <;> exact ⟨_, rfl⟩
      · split <;> exact ⟨_, rfl⟩

end Dispatch

/-- The range of a READ or WRITE lies inside a file and fits a message. -/
def InBounds (m : Msg) : Prop :=
  m.arg0.toNat + m.arg1.toNat ≤ 4096 ∧ m.arg1.toNat ≤ 512

/-- The edit an in-bounds WRITE makes to its file. -/
def written (m : Msg) (f : FileEntry) : FileEntry :=
  { f with
    data := copyInto f.data m.arg0.toNat m.arg1.toNat m.data
    size := if m.arg0 + m.arg1 > f.size then m.arg0 + m.arg1 else f.size }

/-- The size a TRUNCATE sets. -/
def truncateSize (m : Msg) : Word := if m.arg0 > MAX_FILE_SIZE then MAX_FILE_SIZE else m.arg0

/-- The edit a TRUNCATE makes to its file. -/
def truncated (m : Msg) (f : FileEntry) : FileEntry :=
  { f with
    data :=
      if truncateSize m < f.size then
        clearFrom f.data (truncateSize m).toNat (f.size - truncateSize m).toNat
      else f.data
    size := truncateSize m }

/-- The edit a CREATE makes to the slot it takes; `data` stays. -/
def created (m : Msg) (f : FileEntry) : FileEntry :=
  { f with
    name := storedName f.name m.path
    size := 0#64
    flags := m.arg0.setWidth 32
    used := true }

theorem created_name (m : Msg) (f : FileEntry) :
    (created m f).name = storedName f.name m.path := by
  rw [created]

/-- The edit a DELETE makes; `data` stays. -/
def deleted (f : FileEntry) : FileEntry := { f with used := false, size := 0#64 }

section Handlers

variable {t : Table} {m : Msg} {i : Nat}

theorem handleWrite_some (hfind : fileFind t m.path = some i) (hb : InBounds m) :
    handleWrite t m = some (reply m.arg1 0#64, setEntry t i (written m)) := by
  obtain ⟨hsum, hsize⟩ := hb
  -- in bounds, the request is not clipped
  have hno : ¬ m.arg0 + m.arg1 > MAX_FILE_SIZE := by
    intro hgt
    have hgt : 4096 < (m.arg0 + m.arg1).toNat := hgt
    rw [BitVec.toNat_add] at hgt
    omega
  unfold handleWrite
  rw [hfind]
  dsimp only
  rw [if_neg hno, if_pos ⟨hsize, hsum⟩]
  rfl

theorem handleWrite_none (hfind : fileFind t m.path = none) :
    handleWrite t m = some (failure, t) := by
  unfold handleWrite
  rw [hfind]

theorem written_size (hb : InBounds m) (f : FileEntry) :
    (written m f).size.toNat = max f.size.toNat (m.arg0.toNat + m.arg1.toNat) := by
  obtain ⟨hsum, -⟩ := hb
  have hadd : (m.arg0 + m.arg1).toNat = m.arg0.toNat + m.arg1.toNat := by
    rw [BitVec.toNat_add]
    omega
  unfold written
  dsimp only
  split
  · rename_i hgt
    have hgt : f.size.toNat < (m.arg0 + m.arg1).toNat := hgt
    omega
  · rename_i hle
    have hle : ¬ f.size.toNat < (m.arg0 + m.arg1).toNat := hle
    omega

theorem truncateSize_toNat (m : Msg) : (truncateSize m).toNat = min m.arg0.toNat 4096 := by
  have hmax : MAX_FILE_SIZE.toNat = 4096 := rfl
  unfold truncateSize
  split
  · rename_i hgt
    have hgt : 4096 < m.arg0.toNat := hgt
    omega
  · rename_i hle
    have hle : ¬ 4096 < m.arg0.toNat := hle
    omega

/-- After a TRUNCATE the bytes between the new and the old end are 0. -/
theorem truncated_data (m : Msg) (f : FileEntry) (k : Nat) :
    (truncated m f).data k =
      if min m.arg0.toNat 4096 ≤ k ∧ k < f.size.toNat then 0 else f.data k := by
  have hsize := truncateSize_toNat m
  unfold truncated
  dsimp only
  by_cases hlt : truncateSize m < f.size
  · have hlt' : (truncateSize m).toNat < f.size.toNat := hlt
    have hdiff : (f.size - truncateSize m).toNat = f.size.toNat - (truncateSize m).toNat :=
      BitVec.toNat_sub_of_le (BitVec.le_of_lt hlt)
    rw [if_pos hlt, clearFrom, hdiff, hsize]
    congr 1
    rw [eq_iff_iff]
    constructor
    · rintro ⟨h₁, h₂⟩
      exact ⟨h₁, by omega⟩
    · rintro ⟨h₁, h₂⟩
      exact ⟨h₁, by omega⟩
  · have hle : ¬ (truncateSize m).toNat < f.size.toNat := hlt
    rw [if_neg hlt, if_neg]
    omega

theorem handleTruncate_some (hfind : fileFind t m.path = some i) :
    handleTruncate t m = (reply 0#64 0#64, setEntry t i (truncated m)) := by
  unfold handleTruncate
  rw [hfind]
  rfl

theorem handleTruncate_none (hfind : fileFind t m.path = none) :
    handleTruncate t m = (failure, t) := by
  unfold handleTruncate
  rw [hfind]

theorem handleDelete_some (hfind : fileFind t m.path = some i) :
    handleDelete t m = (reply 0#64 0#64, setEntry t i deleted) := by
  unfold handleDelete
  rw [hfind]
  rfl

theorem handleDelete_none (hfind : fileFind t m.path = none) :
    handleDelete t m = (failure, t) := by
  unfold handleDelete
  rw [hfind]

theorem handleCreate_some (hfind : fileFind t m.path = none) (hfree : fileFindFree t = some i) :
    handleCreate t m = (reply 0#64 0#64, setEntry t i (created m)) := by
  unfold handleCreate
  rw [hfind, hfree]
  rfl

/-- CREATE is refused when the path exists or no slot is free. -/
theorem handleCreate_failed (h : fileFind t m.path ≠ none ∨ fileFindFree t = none) :
    handleCreate t m = (failure, t) := by
  unfold handleCreate
  rcases hfind : fileFind t m.path with _ | i
  · rw [(h.resolve_left fun hne => hne hfind)]
  · rfl

/-- A request with the bytes `bs` at the start of its data. -/
def request (type arg0 arg1 : Word) (bs : Bytes) : Msg := ⟨type, arg0, arg1, fun i => bs.getD i 0⟩

/-- Whether a READ of file `f` stays inside the file and the reply. -/
def ReadOk (f : FileEntry) (m : Msg) : Prop :=
  m.arg0.toNat ≤ f.size.toNat ∧ min m.arg1.toNat (f.size.toNat - m.arg0.toNat) ≤ 512 ∧
    (m.arg0.toNat + m.arg1.toNat < 2 ^ 64 ∨
      f.size.toNat < m.arg0.toNat + m.arg1.toNat - 2 ^ 64)

instance (f : FileEntry) (m : Msg) : Decidable (ReadOk f m) :=
  inferInstanceAs (Decidable (_ ∧ _ ∧ (_ ∨ _)))

/-- How many bytes such a READ returns. -/
def readSize (f : FileEntry) (m : Msg) : Nat := min m.arg1.toNat (f.size.toNat - m.arg0.toNat)

/-- The size `handle_read` copies, for a file of at most 4096 bytes: the copy
stays in bounds exactly for `ReadOk`. -/
theorem read_copy (f : FileEntry) (hf : f.size.toNat ≤ 4096) (m : Msg) :
    let size := if m.arg0 + m.arg1 > f.size then f.size - m.arg0 else m.arg1
    (size.toNat ≤ MSG_DATA_SIZE ∧ m.arg0.toNat + size.toNat ≤ MAX_FILE_SIZE.toNat ↔ ReadOk f m) ∧
      (ReadOk f m → size.toNat = readSize f m) := by
  intro size
  have hmsg : MSG_DATA_SIZE = 512 := rfl
  have hmax : MAX_FILE_SIZE.toNat = 4096 := rfl
  rw [hmsg, hmax]
  have h0 := m.arg0.isLt
  have h1 := m.arg1.isLt
  -- the request is clipped to the end of the file, or not
  by_cases hgt : m.arg0 + m.arg1 > f.size
  · have hsize : size = f.size - m.arg0 := if_pos hgt
    have hgt : f.size.toNat < (m.arg0 + m.arg1).toNat := hgt
    rw [BitVec.toNat_add] at hgt
    rw [hsize, BitVec.toNat_sub]
    unfold ReadOk readSize
    omega
  · have hsize : size = m.arg1 := if_neg hgt
    have hle : ¬ f.size.toNat < (m.arg0 + m.arg1).toNat := hgt
    rw [BitVec.toNat_add] at hle
    rw [hsize]
    unfold ReadOk readSize
    omega

theorem handleRead_some (hfind : fileFind t m.path = some i) (hf : (t i).size.toNat ≤ 4096)
    (hok : ReadOk (t i) m) :
    ∃ r, handleRead t m = some (r, t) ∧ r.arg0 = BitVec.ofNat 64 (readSize (t i) m) ∧
      r.arg1 = 0#64 ∧
      r.data = copyInto (fun _ => 0) 0 (readSize (t i) m)
        fun k => (t i).data (m.arg0.toNat + k) := by
  obtain ⟨hiff, hsize⟩ := read_copy (t i) hf m
  have hcopy := hiff.mpr hok
  unfold handleRead
  rw [hfind]
  dsimp only
  rw [if_pos hcopy]
  refine ⟨_, rfl, ?_, rfl, ?_⟩
  · rw [← hsize hok]
    rw [BitVec.ofNat_toNat, BitVec.setWidth_eq]
    rfl
  · rw [← hsize hok]

theorem handleRead_fault (hfind : fileFind t m.path = some i) (hf : (t i).size.toNat ≤ 4096)
    (hbad : ¬ ReadOk (t i) m) : handleRead t m = none := by
  obtain ⟨hiff, -⟩ := read_copy (t i) hf m
  unfold handleRead
  rw [hfind]
  dsimp only
  exact if_neg fun h => hbad (hiff.mp h)

/-- A READ leaves the table alone. -/
theorem handleRead_table {r : Reply} {t' : Table} (h : handleRead t m = some (r, t')) :
    t' = t := by
  unfold handleRead at h
  split at h
  · cases h
    rfl
  · dsimp only at h
    rw [Option.ite_none_right_eq_some] at h
    obtain ⟨-, h⟩ := h
    cases h
    rfl

theorem handleRead_none (hfind : fileFind t m.path = none) :
    handleRead t m = some (failure, t) := by
  unfold handleRead
  rw [hfind]

end Handlers

/-! ## What a request does to the table -/

section Step

variable {t : Table} {m : Msg}

theorem step_of_handle {r : Reply} {t' : Table} (h : handle t m = some (r, t')) :
    step t m = t' := by
  unfold step
  rw [h]

theorem step_of_fault (h : handle t m = none) : step t m = t := by
  unfold step
  rw [h]

/-- The request changes nothing, or edits the entry it finds or creates. -/
inductive Change (t : Table) (m : Msg) : Table → Prop
  | same : Change t m t
  | write (i : Nat) : m.type = VFS_WRITE → fileFind t m.path = some i →
      Change t m (setEntry t i (written m))
  | create (i : Nat) : m.type = VFS_CREATE → fileFind t m.path = none →
      fileFindFree t = some i → Change t m (setEntry t i (created m))
  | delete (i : Nat) : m.type = VFS_DELETE → fileFind t m.path = some i →
      Change t m (setEntry t i deleted)
  | truncate (i : Nat) : m.type = VFS_TRUNCATE → fileFind t m.path = some i →
      Change t m (setEntry t i (truncated m))

/-- Every request is one of these changes, a WRITE if it is in bounds. -/
theorem step_change (hb : m.type = VFS_WRITE → InBounds m) : Change t m (step t m) := by
  by_cases hw : m.type = VFS_WRITE
  · rcases hfind : fileFind t m.path with _ | i
    · rw [step_of_handle ((handle_write hw).trans (handleWrite_none hfind))]
      exact .same
    · rw [step_of_handle ((handle_write hw).trans (handleWrite_some hfind (hb hw)))]
      exact .write i hw hfind
  by_cases hc : m.type = VFS_CREATE
  · by_cases hfail : fileFind t m.path ≠ none ∨ fileFindFree t = none
    · rw [step_of_handle ((handle_create hc).trans (congrArg some (handleCreate_failed hfail)))]
      exact .same
    · obtain ⟨hfind, hfree⟩ := not_or.mp hfail
      obtain ⟨i, hi⟩ := Option.ne_none_iff_exists'.mp hfree
      have hfind := not_not.mp hfind
      rw [step_of_handle ((handle_create hc).trans (congrArg some (handleCreate_some hfind hi)))]
      exact .create i hc hfind hi
  by_cases hd : m.type = VFS_DELETE
  · rcases hfind : fileFind t m.path with _ | i
    · rw [step_of_handle ((handle_delete hd).trans (congrArg some (handleDelete_none hfind)))]
      exact .same
    · rw [step_of_handle ((handle_delete hd).trans (congrArg some (handleDelete_some hfind)))]
      exact .delete i hd hfind
  by_cases ht : m.type = VFS_TRUNCATE
  · rcases hfind : fileFind t m.path with _ | i
    · rw [step_of_handle ((handle_truncate ht).trans (congrArg some (handleTruncate_none hfind)))]
      exact .same
    · rw [step_of_handle ((handle_truncate ht).trans (congrArg some (handleTruncate_some hfind)))]
      exact .truncate i ht hfind
  -- READ and the requests without a handler of their own edit nothing
  by_cases hr : m.type = VFS_READ
  · rcases hres : handle t m with _ | ⟨r, t'⟩
    · rw [step_of_fault hres]
      exact .same
    · have hsame : t' = t := by
        rw [handle_read hr] at hres
        exact handleRead_table hres
      rw [step_of_handle hres, hsame]
      exact .same
  · obtain ⟨r, hres⟩ := handle_other (t := t) hr hw hc hd ht
    rw [step_of_handle hres]
    exact .same

/-- A WRITE, in bounds or not, leaves names alone and sizes in range. -/
theorem Fields.handleWrite (h : Fields t) {r : Reply} {t' : Table}
    (hres : handleWrite t m = some (r, t')) : Fields t' := by
  unfold Vfs.handleWrite at hres
  split at hres
  · cases hres
    exact h
  · rename_i i hfind
    dsimp only at hres
    generalize (if m.arg0 + m.arg1 > MAX_FILE_SIZE then MAX_FILE_SIZE - m.arg0 else m.arg1) = size
      at hres
    rw [Option.ite_none_right_eq_some] at hres
    obtain ⟨⟨-, hle⟩, hres⟩ := hres
    cases hres
    refine h.setEntry (h.name_length i) (h.name_short i) fun hi => ?_
    -- `size` is the old one or the end of the copy, which is inside `data`
    dsimp only
    split
    · have hmax : MAX_FILE_SIZE.toNat = 4096 := rfl
      rw [BitVec.toNat_add]
      omega
    · exact h.size_le i hi

theorem Fields.change {t' : Table} (h : Fields t) (hb : m.type = VFS_WRITE → InBounds m)
    (hchange : Change t m t') : Fields t' := by
  cases hchange with
  | same => exact h
  | write i hw hfind =>
    exact h.handleWrite (handleWrite_some hfind (hb hw))
  | create i hc hfind hfree =>
    have hname := fun hi => storedName_spec (p := m.path) (h.name_length i hi) m.path_nul_free
    have hzero : (0#64).toNat ≤ 4096 := by decide
    refine h.setEntry (fun hi => ?_) (fun hi => ?_) fun _ => hzero
    · rw [created_name]
      exact (hname hi).1
    · rw [created_name, (hname hi).2, List.length_take]
      omega
  | delete i hd hfind =>
    have hzero : (0#64).toNat ≤ 4096 := by decide
    exact h.setEntry (h.name_length i) (h.name_short i) fun _ => hzero
  | truncate i ht hfind =>
    refine h.setEntry (h.name_length i) (h.name_short i) fun _ => ?_
    have hsize : (truncated m (t i)).size.toNat = min m.arg0.toNat 4096 := truncateSize_toNat m
    omega

/-- Every request keeps the fields in shape. -/
theorem Fields.step (h : Fields t) (m : Msg) : Fields (step t m) := by
  by_cases hw : m.type = VFS_WRITE
  · rcases hres : handle t m with _ | ⟨r, t'⟩
    · rw [step_of_fault hres]
      exact h
    · rw [step_of_handle hres]
      rw [handle_write hw] at hres
      exact h.handleWrite hres
  · have hb : m.type = VFS_WRITE → InBounds m := fun h => absurd h hw
    exact h.change hb (step_change hb)

end Step

/-! ## The initial table -/

theorem fields_vfsInitRamfs : Fields vfsInitRamfs := by
  have hall : ∀ i < MAX_FILES, (vfsInitRamfs i).name.length = NAME_SIZE ∧
      (cstring (vfsInitRamfs i).name).length ≤ 63 ∧ (vfsInitRamfs i).size.toNat ≤ 4096 := by
    decide +kernel
  exact ⟨fun i hi => (hall i hi).1, fun i hi => (hall i hi).2.1, fun i hi => (hall i hi).2.2⟩

theorem namesDistinct_vfsInitRamfs : NamesDistinct vfsInitRamfs := by
  have hall : ∀ i < MAX_FILES, ∀ j < MAX_FILES, (vfsInitRamfs i).used = true →
      (vfsInitRamfs j).used = true →
      cstring (vfsInitRamfs i).name = cstring (vfsInitRamfs j).name → i = j := by
    decide +kernel
  intro p i j hi hj
  exact hall i hi.1 j hj.1 hi.2.1 hj.2.1 (hi.2.2.trans hj.2.2.symm)

/-- The invariant holds after any run of requests. -/
theorem fields_run (ms : List Msg) : Fields (run step vfsInitRamfs ms) := by
  suffices h : ∀ t, Fields t → Fields (run step t ms) from h _ fields_vfsInitRamfs
  induction ms with
  | nil => exact fun t h => h
  | cons m ms ih => exact fun t h => ih _ (h.step m)

end AegisKernel.Vfs
