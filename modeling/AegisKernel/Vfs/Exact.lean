import AegisKernel.Vfs.Server

/-!
# VFS server — which READs and WRITEs are exact

`handle_read` and `handle_write` clip the size of a request to the end of the
file (of the `data` array for a WRITE), in arithmetic modulo 2^64, and copy that
many bytes to or from a message of 512. An exact handler would copy `count`
bytes: nothing from an offset at or past the end, and never more than 512.

* `clamp_eq_count_iff` — the size the code computes is that count exactly for
  the requests that are `Clear`; for all others it is another number, and the
  copy leaves an array.
* `write_exact_iff`, `read_exact_iff` — the handlers are exact for those
  requests and no others.
-/

namespace AegisKernel.Vfs

open Library

/-- The bytes an exact handler copies, for data that ends at `limit`. -/
def count (limit : Nat) (m : Msg) : Nat :=
  if limit ≤ m.arg0.toNat then 0 else min m.arg1.toNat (min (limit - m.arg0.toNat) 512)

/-- The offset is not past the end, at most 512 bytes remain after clipping, and
offset and size do not add up to 2^64. -/
def Clear (limit : Nat) (m : Msg) : Prop :=
  m.arg0.toNat ≤ limit ∧ min m.arg1.toNat (limit - m.arg0.toNat) ≤ 512 ∧
    m.arg0.toNat + m.arg1.toNat < 2 ^ 64

instance (limit : Nat) (m : Msg) : Decidable (Clear limit m) :=
  inferInstanceAs (Decidable (_ ∧ _ ∧ _))

/-- `if (offset + size > limit) size = limit - offset;` -/
def clamp (limit : Word) (m : Msg) : Word :=
  if m.arg0 + m.arg1 > limit then limit - m.arg0 else m.arg1

section Counts

variable {m : Msg} {limit : Word}

theorem clamp_toNat : (clamp limit m).toNat =
    if limit.toNat < (m.arg0.toNat + m.arg1.toNat) % 2 ^ 64 then
      (2 ^ 64 - m.arg0.toNat + limit.toNat) % 2 ^ 64
    else m.arg1.toNat := by
  have hiff : m.arg0 + m.arg1 > limit ↔
      limit.toNat < (m.arg0.toNat + m.arg1.toNat) % 2 ^ 64 := by
    rw [← BitVec.toNat_add]
    exact Iff.rfl
  unfold clamp
  rw [apply_ite BitVec.toNat, BitVec.toNat_sub]
  exact if_congr hiff rfl rfl

/-- The code computes the exact count for the `Clear` requests and for no
others. -/
theorem clamp_eq_count_iff (m : Msg) (hlimit : limit.toNat ≤ 4096) :
    (clamp limit m).toNat = count limit.toNat m ↔ Clear limit.toNat m := by
  have h0 := m.arg0.isLt
  have h1 := m.arg1.isLt
  rw [clamp_toNat]
  unfold count Clear
  split <;> split <;> omega

/-- A copy of the clipped size stays inside the arrays exactly then. -/
theorem clamp_inBounds_iff (m : Msg) (hlimit : limit.toNat ≤ 4096) :
    ((clamp limit m).toNat ≤ MSG_DATA_SIZE ∧
      m.arg0.toNat + (clamp limit m).toNat ≤ MAX_FILE_SIZE.toNat) ↔ Clear limit.toNat m := by
  have hmsg : MSG_DATA_SIZE = 512 := rfl
  have hmax : MAX_FILE_SIZE.toNat = 4096 := rfl
  have h0 := m.arg0.isLt
  have h1 := m.arg1.isLt
  rw [hmsg, hmax, clamp_toNat]
  unfold Clear
  split <;> omega

/-- An exact copy ends at `limit` or before it. -/
theorem count_le (limit : Nat) (m : Msg) :
    count limit m ≤ 512 ∧ (0 < count limit m → m.arg0.toNat + count limit m ≤ limit) := by
  unfold count
  split <;> omega

end Counts

-- ---------------------------------------------------------------------------
-- The handlers
-- ---------------------------------------------------------------------------

/-- The edit of a WRITE of the first `n` bytes of the message. -/
def wroteFirst (m : Msg) (n : Nat) (f : FileEntry) : FileEntry :=
  { f with
    data := copyInto f.data m.arg0.toNat n m.data
    size := if 0 < n then BitVec.ofNat 64 (max f.size.toNat (m.arg0.toNat + n)) else f.size }

/-- The WRITE to file `i` copies `count` bytes, replies with their number, and
changes nothing else. -/
def WriteExact (t : Table) (m : Msg) (i : Nat) : Prop :=
  ∃ r, handle t m = some (r, setEntry t i (wroteFirst m (count 4096 m))) ∧
    r.arg0.toNat = count 4096 m

/-- The READ of file `i` replies with `count` bytes of it, zeros behind them, and
their number; every byte read lies before the end of the file, and every byte
written in the reply. -/
def ReadExact (t : Table) (m : Msg) (i : Nat) : Prop :=
  let n := count (t i).size.toNat m
  ∃ r, handle t m = some (r, t) ∧ r.arg0.toNat = n ∧ r.arg1 = 0#64 ∧ n ≤ 512 ∧
    (∀ k < n, m.arg0.toNat + k < (t i).size.toNat ∧ r.data k = (t i).data (m.arg0.toNat + k)) ∧
    ∀ k, n ≤ k → r.data k = 0

/-- A WRITE that copies nothing does not start past the end of the file. -/
def NoGap (f : FileEntry) (m : Msg) : Prop :=
  m.arg1.toNat = 0 ∨ m.arg0.toNat = 4096 → m.arg0.toNat ≤ f.size.toNat

instance (f : FileEntry) (m : Msg) : Decidable (NoGap f m) :=
  inferInstanceAs (Decidable (_ → _))

section Handlers

variable {t : Table} {m : Msg} {i : Nat}

/-- `handle_write` on a file that exists, with its size computation named. -/
theorem handleWrite_eq (hfind : fileFind t m.path = some i) :
    handleWrite t m =
      if (clamp MAX_FILE_SIZE m).toNat ≤ MSG_DATA_SIZE ∧
          m.arg0.toNat + (clamp MAX_FILE_SIZE m).toNat ≤ MAX_FILE_SIZE.toNat then
        some (reply (clamp MAX_FILE_SIZE m) 0#64, setEntry t i fun f =>
          { f with
            data := copyInto f.data m.arg0.toNat (clamp MAX_FILE_SIZE m).toNat m.data
            size :=
              if m.arg0 + clamp MAX_FILE_SIZE m > f.size then m.arg0 + clamp MAX_FILE_SIZE m
              else f.size })
      else none := by
  unfold handleWrite
  rw [hfind]
  rfl

/-- The size field a `Clear` WRITE stores: the end of the copy if it is past the
end of the file, also when nothing was copied. -/
theorem clear_write_size (hclear : Clear 4096 m) (f : FileEntry) :
    (if m.arg0 + clamp MAX_FILE_SIZE m > f.size then m.arg0 + clamp MAX_FILE_SIZE m
      else f.size).toNat = max f.size.toNat (m.arg0.toNat + count 4096 m) := by
  have hlimit : MAX_FILE_SIZE.toNat ≤ 4096 := Nat.le_refl 4096
  have hcount : (clamp MAX_FILE_SIZE m).toNat = count 4096 m :=
    (clamp_eq_count_iff m hlimit).mpr hclear
  have hle := (count_le 4096 m).1
  have hoff := hclear.1
  have hadd : (m.arg0 + clamp MAX_FILE_SIZE m).toNat = m.arg0.toNat + count 4096 m := by
    rw [BitVec.toNat_add, hcount]
    omega
  have hiff : m.arg0 + clamp MAX_FILE_SIZE m > f.size ↔
      f.size.toNat < m.arg0.toNat + count 4096 m := by
    rw [← hadd]
    exact Iff.rfl
  rw [apply_ite BitVec.toNat, hadd, if_congr hiff rfl rfl]
  split <;> omega

theorem wroteFirst_size (f : FileEntry) (hf : f.size.toNat ≤ 4096) :
    (wroteFirst m (count 4096 m) f).size.toNat =
      if 0 < count 4096 m then max f.size.toNat (m.arg0.toNat + count 4096 m)
      else f.size.toNat := by
  have hend := (count_le 4096 m).2
  unfold wroteFirst
  dsimp only
  rw [apply_ite BitVec.toNat, BitVec.toNat_ofNat]
  split <;> omega

/-- The two sizes agree when no gap is left. -/
theorem clear_write_size_iff (hclear : Clear 4096 m) (f : FileEntry) (hf : f.size.toNat ≤ 4096) :
    (if m.arg0 + clamp MAX_FILE_SIZE m > f.size then m.arg0 + clamp MAX_FILE_SIZE m
      else f.size) = (wroteFirst m (count 4096 m) f).size ↔ NoGap f m := by
  have hoff := hclear.1
  rw [← BitVec.toNat_inj, clear_write_size hclear, wroteFirst_size f hf]
  unfold NoGap count
  split <;> split <;> omega

theorem writeExact_iff (hf : (t i).size.toNat ≤ 4096) (hw : m.type = VFS_WRITE)
    (hfind : fileFind t m.path = some i) :
    WriteExact t m i ↔ Clear 4096 m ∧ NoGap (t i) m := by
  have hlimit : MAX_FILE_SIZE.toNat ≤ 4096 := Nat.le_refl 4096
  have hbounds := clamp_inBounds_iff m hlimit
  have hcount := clamp_eq_count_iff m hlimit
  unfold WriteExact
  rw [handle_write hw, handleWrite_eq hfind]
  by_cases hclear : Clear 4096 m
  · have hcount : (clamp MAX_FILE_SIZE m).toNat = count 4096 m := hcount.mpr hclear
    rw [if_pos (hbounds.mpr hclear), hcount, ← clear_write_size_iff hclear (t i) hf]
    constructor
    · rintro ⟨r, hres, -⟩
      -- the entry stored is the exact one, so its size is
      have hentry := congrFun (Prod.ext_iff.mp (Option.some.inj hres)).2 i
      dsimp only at hentry
      rw [setEntry_self, setEntry_self] at hentry
      exact ⟨hclear, congrArg FileEntry.size hentry⟩
    · rintro ⟨-, hsize⟩
      refine ⟨reply (clamp MAX_FILE_SIZE m) 0#64, ?_, hcount⟩
      unfold setEntry
      dsimp only
      rw [hsize]
      rfl
  · -- the copy leaves an array
    rw [if_neg fun h => hclear (hbounds.mp h)]
    simp [hclear]

/-- The READs that stay in bounds are the `Clear` ones, and they copy the exact
count. -/
theorem readOk_iff_clear (f : FileEntry) : ReadOk f m ↔ Clear f.size.toNat m := by
  have h0 := m.arg0.isLt
  have h1 := m.arg1.isLt
  unfold ReadOk Clear
  omega

theorem readSize_eq_count (f : FileEntry) (hclear : Clear f.size.toNat m) :
    readSize f m = count f.size.toNat m := by
  unfold Clear at hclear
  unfold readSize count
  split <;> omega

theorem readExact_iff (hf : (t i).size.toNat ≤ 4096) (hr : m.type = VFS_READ)
    (hfind : fileFind t m.path = some i) :
    ReadExact t m i ↔ Clear (t i).size.toNat m := by
  unfold ReadExact
  rw [handle_read hr]
  constructor
  · rintro ⟨r, hres, -⟩
    by_contra hbad
    rw [handleRead_fault hfind hf fun hok => hbad ((readOk_iff_clear _).mp hok)] at hres
    exact absurd hres (by simp)
  · intro hclear
    obtain ⟨r, hres, harg0, harg1, hdata⟩ :=
      handleRead_some hfind hf ((readOk_iff_clear _).mpr hclear)
    rw [readSize_eq_count _ hclear] at harg0 hdata
    obtain ⟨hle, hend⟩ := count_le (t i).size.toNat m
    refine ⟨r, hres, ?_, harg1, hle, fun k hk => ⟨by omega, ?_⟩, fun k hk => ?_⟩
    · rw [harg0, BitVec.toNat_ofNat]
      omega
    · rw [hdata, copyInto, if_pos (by omega)]
      rfl
    · rw [hdata, copyInto, if_neg (by omega)]

end Handlers

theorem sizes_vfsInitRamfs : ∀ j < MAX_FILES, (vfsInitRamfs j).size.toNat ≤ 4096 :=
  fields_vfsInitRamfs.size_le

/-- A request with offset and size for `/version`. -/
def versionRequest (type offset size : Word) : Msg := request type offset size versionName

theorem find_versionRequest (type offset size : Word) :
    fileFind vfsInitRamfs (versionRequest type offset size).path = some 2 := by
  have hpath : (versionRequest type offset size).path = versionName := by
    show cstring ((List.range MSG_DATA_SIZE).map fun i => versionName.getD i 0) = versionName
    decide +kernel
  rw [hpath]
  decide +kernel

/-- **WRITEs that are exact.** On a table with all sizes at most 4096, a WRITE to
file `i` is exact and isolated exactly when its range is `Clear` and it does not
leave a gap behind the file without copying anything. -/
theorem write_exact_iff (t : Table) (m : Msg) (i : Nat)
    (hsizes : ∀ j < MAX_FILES, (t j).size.toNat ≤ 4096) (hw : m.type = VFS_WRITE)
    (hfind : fileFind t m.path = some i) :
    WriteExact t m i ↔ Clear 4096 m ∧ NoGap (t i) m :=
  writeExact_iff (hsizes i (fileFind_some m.path_nul_free hfind).1) hw hfind

/-- Four bytes at offset 2. -/
theorem write_exact_inside : WriteExact vfsInitRamfs (versionRequest VFS_WRITE 2#64 4#64) 2 :=
  (write_exact_iff vfsInitRamfs _ 2 sizes_vfsInitRamfs rfl (find_versionRequest _ _ _)).mpr
    (by decide +kernel)

/-- A WRITE of 513 bytes reads past the message, and one of no bytes at offset
100 makes the 15 bytes of `/version` a file of 100. -/
theorem write_not_exact :
    (∀ j < MAX_FILES, (vfsInitRamfs j).size.toNat ≤ 4096) ∧
      fileFind vfsInitRamfs (versionRequest VFS_WRITE 0#64 513#64).path = some 2 ∧
      ¬ WriteExact vfsInitRamfs (versionRequest VFS_WRITE 0#64 513#64) 2 ∧
      fileFind vfsInitRamfs (versionRequest VFS_WRITE 100#64 0#64).path = some 2 ∧
      (step vfsInitRamfs (versionRequest VFS_WRITE 100#64 0#64) 2).size = 100#64 ∧
      ¬ WriteExact vfsInitRamfs (versionRequest VFS_WRITE 100#64 0#64) 2 := by
  have hf : (vfsInitRamfs 2).size.toNat ≤ 4096 := sizes_vfsInitRamfs 2 (by decide)
  refine ⟨sizes_vfsInitRamfs, find_versionRequest _ _ _, fun h => ?_, find_versionRequest _ _ _,
    by decide +kernel, fun h => ?_⟩
  · have hcond := (writeExact_iff hf rfl (find_versionRequest _ _ _)).mp h
    exact absurd hcond.1 (by decide)
  · have hcond := (writeExact_iff hf rfl (find_versionRequest _ _ _)).mp h
    exact absurd hcond.2 (by decide +kernel)

/-- **READs that are exact.** On a table with all sizes at most 4096, a READ of
file `i` is exact and in bounds exactly when its range is `Clear`. -/
theorem read_exact_iff (t : Table) (m : Msg) (i : Nat)
    (hsizes : ∀ j < MAX_FILES, (t j).size.toNat ≤ 4096) (hr : m.type = VFS_READ)
    (hfind : fileFind t m.path = some i) :
    ReadExact t m i ↔ Clear (t i).size.toNat m :=
  readExact_iff (hsizes i (fileFind_some m.path_nul_free hfind).1) hr hfind

/-- Four bytes at offset 2. -/
theorem read_exact_inside : ReadExact vfsInitRamfs (versionRequest VFS_READ 2#64 4#64) 2 :=
  (read_exact_iff vfsInitRamfs _ 2 sizes_vfsInitRamfs rfl (find_versionRequest _ _ _)).mpr
    (by decide +kernel)

/-- A READ from offset 16 of the 15 bytes of `/version` copies 2^64 - 1 bytes. -/
theorem read_not_exact :
    (∀ j < MAX_FILES, (vfsInitRamfs j).size.toNat ≤ 4096) ∧
      fileFind vfsInitRamfs (versionRequest VFS_READ 16#64 4#64).path = some 2 ∧
      clamp (vfsInitRamfs 2).size (versionRequest VFS_READ 16#64 4#64) = -1#64 ∧
      ¬ ReadExact vfsInitRamfs (versionRequest VFS_READ 16#64 4#64) 2 := by
  have hf : (vfsInitRamfs 2).size.toNat ≤ 4096 := sizes_vfsInitRamfs 2 (by decide)
  refine ⟨sizes_vfsInitRamfs, find_versionRequest _ _ _, by decide +kernel, fun h => ?_⟩
  have hcond := (readExact_iff hf rfl (find_versionRequest _ _ _)).mp h
  exact absurd hcond (by decide +kernel)

end AegisKernel.Vfs
