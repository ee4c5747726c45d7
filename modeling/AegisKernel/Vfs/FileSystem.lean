import Mathlib.Data.List.GetD
import Mathlib.Tactic.IntervalCases
import AegisKernel.Library.Unwinding
import AegisKernel.Vfs.Reuse

/-!
# VFS — the file system behind the table

What the server is for, without slots, name fields and leftover bytes: a
finite set of paths, each with a byte string and flags (`FileSystem`), and what
a request does to it (`FileSystem.respond`). `fileSystem t` is the file system a
table stands for.

A user sees of a reply what `observe` keeps: not the slot number an OPEN
returns, and of a READDIR only that it was answered. CLOSE, SEEK and unknown
requests are left out.

* `handle_refines` — one request that keeps the namespace and brings only zeros
  into its file is answered as by the file system.
* `refines_files` — so is every run of such requests.
-/

namespace AegisKernel.Vfs

open Library

/-! ## File systems -/

/-- The first `n` bytes, with zeros where there are none. -/
def fit (bs : Bytes) (n : Nat) : Bytes := bs.take n ++ List.replicate (n - bs.length) 0

structure File where
  content : Bytes
  flags : BitVec 32
deriving DecidableEq

namespace File

def read (f : File) (offset n : Nat) : Bytes := (f.content.drop offset).take n

/-- The content with `bs` at `offset`, behind zeros if the file ended before. -/
def write (f : File) (offset : Nat) (bs : Bytes) : File :=
  { f with content := fit f.content offset ++ bs ++ f.content.drop (offset + bs.length) }

def truncate (f : File) (n : Nat) : File :=
  { f with content := fit f.content n }

end File

/-- Which paths there are, and what each holds. -/
structure FileSystem where
  lookup : Path → Option File
  paths : Finset Path
  mem_paths : ∀ p, p ∈ paths ↔ lookup p ≠ none

/-- A user's view of a reply. -/
inductive Answer
  | failed
  | done
  | bytes (bs : Bytes)
  | stored (n : Nat)
  | info (size : Nat) (flags : BitVec 32) (name : Bytes)
deriving DecidableEq

namespace FileSystem

@[ext] theorem ext {fs fs' : FileSystem} (h : ∀ p, fs.lookup p = fs'.lookup p) : fs = fs' := by
  obtain ⟨lookup, paths, hmem⟩ := fs
  obtain ⟨lookup', paths', hmem'⟩ := fs'
  obtain rfl : lookup = lookup' := funext h
  obtain rfl : paths = paths' := Finset.ext fun p => (hmem p).trans (hmem' p).symm
  rfl

/-- `p` holds `f` from now on. -/
def insert (fs : FileSystem) (p : Path) (f : File) : FileSystem where
  lookup := Function.update fs.lookup p (some f)
  paths := Insert.insert p fs.paths
  mem_paths q := by
    rw [Finset.mem_insert, fs.mem_paths]
    by_cases hq : q = p
    · simp [hq]
    · simp [hq]

def erase (fs : FileSystem) (p : Path) : FileSystem where
  lookup := Function.update fs.lookup p none
  paths := fs.paths.erase p
  mem_paths q := by
    rw [Finset.mem_erase, fs.mem_paths]
    by_cases hq : q = p
    · simp [hq]
    · simp [hq]

@[simp] theorem insert_lookup (fs : FileSystem) (p : Path) (f : File) :
    (fs.insert p f).lookup = Function.update fs.lookup p (some f) := rfl

@[simp] theorem erase_lookup (fs : FileSystem) (p : Path) :
    (fs.erase p).lookup = Function.update fs.lookup p none := rfl

@[simp] theorem insert_paths (fs : FileSystem) (p : Path) (f : File) :
    (fs.insert p f).paths = Insert.insert p fs.paths := rfl

@[simp] theorem erase_paths (fs : FileSystem) (p : Path) :
    (fs.erase p).paths = fs.paths.erase p := rfl

/-- A request for the file `f` at path `p`. -/
def respondFile (fs : FileSystem) (p : Path) (f : File) (m : Msg) : Answer × FileSystem :=
  if m.type = VFS_DELETE then (.done, fs.erase p)
  else if m.type = VFS_READ then (.bytes (f.read m.arg0.toNat m.arg1.toNat), fs)
  else if m.type = VFS_WRITE then
    (.stored m.arg1.toNat,
      fs.insert p (f.write m.arg0.toNat ((List.range m.arg1.toNat).map m.data)))
  else if m.type = VFS_TRUNCATE then
    (.done, fs.insert p (f.truncate (min m.arg0.toNat MAX_FILE_SIZE.toNat)))
  else if m.type = VFS_STAT then (.info f.content.length f.flags p.1, fs)
  else (.done, fs)

/-- What a request does. -/
def respond (fs : FileSystem) (m : Msg) : Answer × FileSystem :=
  if m.type = VFS_CREATE then
    if m.target ∉ fs.paths ∧ fs.paths.card < MAX_FILES then
      (.done, fs.insert m.target ⟨[], m.arg0.setWidth 32⟩)
    else (.failed, fs)
  else if m.type = VFS_READDIR then (.done, fs)
  else
    match fs.lookup m.target with
    | none => (.failed, fs)
    | some f => fs.respondFile m.target f m

end FileSystem

/-! ## The file system a table stands for -/

def FileEntry.file (e : FileEntry) : File := ⟨(List.range e.size.toNat).map e.data, e.flags⟩

def fileSystem (t : Table) : FileSystem where
  lookup p := (fileFind t p.1).map fun i => (t i).file
  paths := (directory t).keys
  mem_paths p := by
    rw [Finmap.mem_keys, mem_directory_iff]
    cases fileFind t p.1 <;> simp

theorem lookup_fileSystem (t : Table) (p : Path) :
    (fileSystem t).lookup p = ((directory t).lookup p).map fun i => (t i).file := by
  rw [lookup_directory]
  rfl

/-- What a user sees of the reply to `m`. -/
def observe (m : Msg) (r : Reply) : Answer :=
  if r.arg0 = -1#64 then .failed
  else if m.type = VFS_READ then .bytes ((List.range r.arg0.toNat).map r.data)
  else if m.type = VFS_WRITE then .stored r.arg0.toNat
  else if m.type = VFS_STAT then
    .info r.arg1.toNat (r.arg2.setWidth 32) (cstring ((List.range MSG_DATA_SIZE).map r.data))
  else .done

/-- One request at the server: what the user sees, if there is a reply. -/
def answer (t : Table) (m : Msg) : Option Answer × Table :=
  match handle t m with
  | some (r, t') => (some (observe m r), t')
  | none => (none, t)

/-! ## Contents -/

@[simp] theorem fit_length (bs : Bytes) (n : Nat) : (fit bs n).length = n := by
  simp only [fit, List.length_append, List.length_take, List.length_replicate]
  omega

theorem fit_getD (bs : Bytes) (n k : Nat) :
    (fit bs n).getD k 0 = if k < n then bs.getD k 0 else 0 := by
  simp only [fit, List.getD_eq_getElem?_getD]
  grind

/-- Byte by byte, what a WRITE leaves. -/
theorem write_getD (f : File) (offset : Nat) (bs : Bytes) (k : Nat) :
    (f.write offset bs).content.getD k 0 =
      if k < offset then f.content.getD k 0
      else if k < offset + bs.length then bs.getD (k - offset) 0
      else f.content.getD k 0 := by
  have hlen := fit_length f.content offset
  rw [File.write]
  split
  case isTrue hk =>
    rw [List.append_assoc, List.getD_append _ _ _ _ (by omega), fit_getD, if_pos hk]
  case isFalse hk =>
    rw [List.append_assoc, List.getD_append_right _ _ _ _ (by omega), hlen]
    split
    case isTrue hin => rw [List.getD_append _ _ _ _ (by omega)]
    case isFalse hout =>
      rw [List.getD_append_right _ _ _ _ (by omega), List.getD_eq_getElem?_getD,
        List.getElem?_drop, List.getD_eq_getElem?_getD]
      congr 2
      omega

theorem list_ext_getD {xs ys : Bytes} (hlen : xs.length = ys.length)
    (h : ∀ k < xs.length, xs.getD k 0 = ys.getD k 0) : xs = ys := by
  refine List.ext_getElem hlen fun k hk hk' => ?_
  rw [List.getElem_eq_getD 0, List.getElem_eq_getD 0]
  exact h k hk

section Contents

variable {m : Msg} {e : FileEntry}

theorem file_length (e : FileEntry) : e.file.content.length = e.size.toNat := by
  simp [FileEntry.file]

theorem file_getD (e : FileEntry) (k : Nat) :
    e.file.content.getD k 0 = if k < e.size.toNat then e.data k else 0 := by
  simp only [FileEntry.file, List.getD_eq_getElem?_getD]
  grind

/-- The bytes a READ returns. -/
theorem file_read (e : FileEntry) (m : Msg) {data : Nat → UInt8}
    (hdata : ∀ k < readSize e m, data k = e.data (m.arg0.toNat + k)) :
    (List.range (readSize e m)).map data = e.file.read m.arg0.toNat m.arg1.toNat := by
  refine List.ext_getElem ?_ fun k hk hk' => ?_
  · simp [File.read, file_length, readSize]
  · rw [List.length_map, List.length_range] at hk
    simp only [List.getElem_map, List.getElem_range, File.read, List.getElem_take,
      List.getElem_drop, FileEntry.file]
    exact hdata k hk

/-- A WRITE whose gap holds zeros. -/
theorem file_written (hb : InBounds m)
    (hclean : ∀ k, e.size.toNat ≤ k → k < m.arg0.toNat → e.data k = 0) :
    (written m e).file = e.file.write m.arg0.toNat ((List.range m.arg1.toNat).map m.data) := by
  have hsize := written_size hb e
  have hlen := file_length e
  have hcontent : (written m e).file.content =
      (e.file.write m.arg0.toNat ((List.range m.arg1.toNat).map m.data)).content := by
    refine list_ext_getD ?_ fun k hk => ?_
    · rw [file_length, hsize, File.write]
      simp only [List.length_append, fit_length, List.length_map, List.length_range,
        List.length_drop, hlen]
      omega
    · rw [file_length, hsize] at hk
      rw [file_getD, hsize, if_pos hk, write_getD, file_getD, List.length_map, List.length_range]
      show copyInto e.data m.arg0.toNat m.arg1.toNat m.data k = _
      rw [copyInto]
      by_cases hlow : k < m.arg0.toNat
      · rw [if_neg (by omega), if_pos hlow]
        split
        case isTrue => rfl
        case isFalse hge => exact hclean k (by omega) hlow
      · rw [if_neg hlow]
        by_cases hin : k < m.arg0.toNat + m.arg1.toNat
        · rw [if_pos ⟨by omega, hin⟩, if_pos hin, List.getD_eq_getElem?_getD, List.getElem?_map,
            List.getElem?_range (by omega)]
          rfl
        · rw [if_neg (by omega), if_neg hin, if_pos (by omega)]
  exact congrArg (File.mk · e.flags) hcontent

/-- A TRUNCATE that brings only zeros into the file. -/
theorem file_truncated (m : Msg)
    (hclean : ∀ k, e.size.toNat ≤ k → k < min m.arg0.toNat 4096 → e.data k = 0) :
    (truncated m e).file = e.file.truncate (min m.arg0.toNat MAX_FILE_SIZE.toNat) := by
  have hsize : (truncated m e).size.toNat = min m.arg0.toNat 4096 := truncateSize_toNat m
  have hmax : MAX_FILE_SIZE.toNat = 4096 := rfl
  have hcontent : (truncated m e).file.content =
      (e.file.truncate (min m.arg0.toNat MAX_FILE_SIZE.toNat)).content := by
    refine list_ext_getD ?_ fun k hk => ?_
    · rw [file_length, hsize, File.truncate, fit_length, hmax]
    · rw [file_length, hsize] at hk
      rw [file_getD, hsize, if_pos hk, truncated_data, if_neg (by omega), File.truncate, fit_getD,
        hmax, if_pos hk, file_getD]
      split
      case isTrue => rfl
      case isFalse hge => exact hclean k (by omega) hk
  exact congrArg (File.mk · e.flags) hcontent

end Contents

/-! ## Requests -/

section Requests

variable {t t' : Table} {m : Msg} {r : Reply} {e e' : FileEntry} {fs : FileSystem} {p : Path}

theorem observe_failed (h : ¬ Succeeds r) : observe m r = .failed := if_pos (not_not.mp h)

theorem target_val (m : Msg) : m.target.1 = m.path := by
  rw [Msg.target]

theorem insert_self {f : File} (h : fs.lookup p = some f) : fs.insert p f = fs := by
  ext q : 1
  rw [FileSystem.insert_lookup, ← h, Function.update_eq_self]

theorem cstring_append_zeros (bs : Bytes) (n : Nat) :
    cstring (bs ++ List.replicate n 0) = cstring bs := by
  induction bs with
  | nil => cases n <;> rfl
  | cons b bs ih =>
    by_cases hb : b = 0
    · subst hb
      rfl
    · rw [List.cons_append, cstring_cons hb, cstring_cons hb, ih]

/-- The name field as a STAT shows it. -/
theorem cstring_shown (hlen : e.name.length = NAME_SIZE) :
    cstring ((List.range MSG_DATA_SIZE).map fun k => e.name.getD k 0) = cstring e.name := by
  have hshown : (List.range MSG_DATA_SIZE).map (fun k => e.name.getD k 0) = fit e.name 512 := by
    refine list_ext_getD (by simp [MSG_DATA_SIZE]) fun k hk => ?_
    rw [List.length_map, List.length_range] at hk
    have hk512 : k < 512 := hk
    rw [fit_getD, if_pos hk512, List.getD_eq_getElem?_getD, List.getElem?_map,
      List.getElem?_range hk]
    rfl
  rw [hshown, fit, List.take_of_length_le (by rw [hlen]; decide), cstring_append_zeros]

/-- A request that acts on its file, seen from the file system. -/
theorem respondFile_eq {i : Nat} (hm : Considered m) (hon : OnFile m) (hr : Succeeds r)
    (hacts : ActsOn m i e r e') (hlookup : fs.lookup p = some e.file)
    (hlen : e.name.length = NAME_SIZE) (hname : cstring e.name = p.1)
    (hclean : ∀ k, e.size.toNat ≤ k → k < grownTo m → e.data k = 0) :
    fs.respondFile p e.file m = (observe m r, fs.insert p e'.file) := by
  obtain ⟨-, hdel, -⟩ := hon
  unfold ActsOn at hacts
  rw [FileSystem.respondFile, if_neg hdel, observe, if_neg hr]
  by_cases hread : m.type = VFS_READ
  · rw [if_pos hread] at hacts ⊢
    obtain ⟨rfl, harg, hdata⟩ := hacts
    rw [if_pos hread, harg, file_read e' m hdata, insert_self hlookup]
  rw [if_neg hread] at hacts ⊢
  rw [if_neg hread]
  by_cases hwrite : m.type = VFS_WRITE
  · rw [if_pos hwrite] at hacts ⊢
    obtain ⟨rfl, harg⟩ := hacts
    rw [if_pos hwrite, harg, file_written (hm.2.2 hwrite)]
    intro k hge hlt
    refine hclean k hge ?_
    rw [grownTo, if_neg (by rw [hwrite]; decide), if_pos hwrite]
    exact hlt
  rw [if_neg hwrite] at hacts ⊢
  rw [if_neg hwrite]
  by_cases htrunc : m.type = VFS_TRUNCATE
  · rw [if_pos htrunc] at hacts ⊢
    subst hacts
    have hstat : m.type ≠ VFS_STAT := by
      rw [htrunc]
      decide
    rw [if_neg hstat, file_truncated m]
    intro k hge hlt
    refine hclean k hge ?_
    rw [grownTo, if_pos htrunc]
    exact hlt
  rw [if_neg htrunc] at hacts ⊢
  by_cases hstat : m.type = VFS_STAT
  · rw [if_pos hstat] at hacts ⊢
    obtain ⟨rfl, hsize, hflags, hdata⟩ := hacts
    rw [if_pos hstat, hsize, hflags, funext hdata, cstring_shown hlen, hname, file_length,
      insert_self hlookup, BitVec.setWidth_setWidth_of_le _ (by decide), BitVec.setWidth_eq]
    rfl
  · rw [if_neg hstat] at hacts ⊢
    obtain ⟨rfl, -⟩ := hacts
    rw [if_neg hstat, insert_self hlookup]

/-- Files of other paths are as they were. -/
theorem FollowsMap.lookup_others (h : FollowsMap t m r t') (hp : p ≠ m.target) :
    (fileSystem t').lookup p = (fileSystem t).lookup p := by
  obtain ⟨hlookup, hsame⟩ := h.others p hp
  rw [lookup_fileSystem, lookup_fileSystem, hlookup]
  cases hfind : (directory t).lookup p with
  | none => rfl
  | some i => rw [Option.map_some, Option.map_some, hsame i hfind]

/-- The file system after a change at the path of the request. -/
theorem FollowsMap.fileSystem_eq (h : FollowsMap t m r t')
    (htarget : fs.lookup m.target = (fileSystem t').lookup m.target)
    (hothers : ∀ q ≠ m.target, fs.lookup q = (fileSystem t).lookup q) : fs = fileSystem t' := by
  ext q : 1
  by_cases hq : q = m.target
  · rw [hq, htarget]
  · rw [hothers q hq, h.lookup_others hq]

theorem mem_paths_fileSystem (t : Table) (p : Path) : p ∈ (fileSystem t).paths ↔ p ∈ directory t :=
  Finmap.mem_keys

theorem lookup_ne_none_iff (t : Table) (p : Path) :
    (fileSystem t).lookup p ≠ none ↔ p ∈ directory t :=
  ((fileSystem t).mem_paths p).symm.trans (mem_paths_fileSystem t p)

/-- A request that asks for a file that is not there. -/
theorem FollowsMap.respond_absent (h : FollowsMap t m r t') (hcreate : m.type ≠ VFS_CREATE)
    (hdir : m.type ≠ VFS_READDIR) (hiff : Succeeds r ↔ m.target ∈ directory t)
    (hr : ¬ Succeeds r) : (fileSystem t).respond m = (observe m r, fileSystem t') := by
  have habsent : (fileSystem t).lookup m.target = none := by
    by_contra hne
    exact hr (hiff.mpr ((lookup_ne_none_iff t m.target).mp hne))
  rw [FileSystem.respond, if_neg hcreate, if_neg hdir, habsent, observe_failed hr, h.failed hr]

theorem FollowsMap.respond_create (h : FollowsMap t m r t') (hcreate : m.type = VFS_CREATE) :
    (fileSystem t).respond m = (observe m r, fileSystem t') := by
  have houtcome := h.outcome
  rw [Outcome, if_pos hcreate] at houtcome
  obtain ⟨hiff, hafter⟩ := houtcome
  have hroom : (m.target ∉ (fileSystem t).paths ∧ (fileSystem t).paths.card < MAX_FILES) ↔
      Succeeds r := by
    rw [hiff]
    exact and_congr_left' (not_congr (mem_paths_fileSystem t m.target))
  rw [FileSystem.respond, if_pos hcreate]
  by_cases hr : Succeeds r
  · obtain ⟨i, hdir, hsize, hflags⟩ := hafter hr
    have hdone : observe m r = .done := by
      rw [observe, if_neg hr, hcreate]
      rfl
    rw [if_pos (hroom.mpr hr), hdone]
    refine congrArg (Prod.mk _) (h.fileSystem_eq ?_ fun q hq => ?_)
    · -- the new file is empty, whatever its slot held before
      rw [FileSystem.insert_lookup, Function.update_self, lookup_fileSystem, hdir,
        Finmap.lookup_insert, Option.map_some, FileEntry.file, hsize, hflags]
      rfl
    · rw [FileSystem.insert_lookup, Function.update_of_ne hq]
  · rw [if_neg fun hin => hr (hroom.mp hin), observe_failed hr, h.failed hr]

theorem FollowsMap.respond_delete (h : FollowsMap t m r t') (hdelete : m.type = VFS_DELETE) :
    (fileSystem t).respond m = (observe m r, fileSystem t') := by
  have hcreate : m.type ≠ VFS_CREATE := by
    rw [hdelete]
    decide
  have hdir : m.type ≠ VFS_READDIR := by
    rw [hdelete]
    decide
  have houtcome := h.outcome
  rw [Outcome, if_neg hcreate, if_pos hdelete] at houtcome
  obtain ⟨hiff, hafter⟩ := houtcome
  by_cases hr : Succeeds r
  · obtain ⟨f, hlookup⟩ := Option.ne_none_iff_exists'.mp
      ((lookup_ne_none_iff t m.target).mpr (hiff.mp hr))
    have hdone : observe m r = .done := by
      rw [observe, if_neg hr, hdelete]
      rfl
    rw [FileSystem.respond, if_neg hcreate, if_neg hdir, hlookup]
    dsimp only
    rw [FileSystem.respondFile, if_pos hdelete, hdone]
    refine congrArg (Prod.mk _) (h.fileSystem_eq ?_ fun q hq => ?_)
    · rw [FileSystem.erase_lookup, Function.update_self, lookup_fileSystem, hafter hr,
        Finmap.lookup_erase, Option.map_none]
    · rw [FileSystem.erase_lookup, Function.update_of_ne hq]
  · exact h.respond_absent hcreate hdir hiff hr

theorem FollowsMap.respond_readdir (h : FollowsMap t m r t') (hdir : m.type = VFS_READDIR) :
    (fileSystem t).respond m = (observe m r, fileSystem t') := by
  have houtcome := h.outcome
  rw [Outcome, hdir, if_neg (by decide), if_neg (by decide), if_pos rfl] at houtcome
  obtain ⟨hr, rfl⟩ := houtcome
  rw [FileSystem.respond, observe, if_neg hr, hdir]
  rfl

/-- A request for the content or the size of a file. -/
theorem FollowsMap.respond_onFile (h : FollowsMap t m r t') (hf : Fields t) (hm : Considered m)
    (hclean : Clean t m) (hon : OnFile m) :
    (fileSystem t).respond m = (observe m r, fileSystem t') := by
  obtain ⟨hcreate, hdelete, hdir⟩ := hon
  have houtcome := h.outcome
  rw [Outcome, if_neg hcreate, if_neg hdelete, if_neg hdir] at houtcome
  obtain ⟨hiff, hsame, hacts⟩ := houtcome
  by_cases hr : Succeeds r
  · obtain ⟨i, hslot⟩ := Finmap.mem_iff.mp (hiff.mp hr)
    have hfind : fileFind t m.path = some i := by
      rw [← target_val, ← lookup_directory, hslot]
    obtain ⟨hlt, -, hname⟩ := fileFind_some m.path_nul_free hfind
    have hlookup : (fileSystem t).lookup m.target = some (t i).file := by
      rw [lookup_fileSystem, hslot, Option.map_some]
    have hrespond := respondFile_eq hm ⟨hcreate, hdelete, hdir⟩ hr (hacts i hslot) hlookup
      (hf.name_length i hlt) (hname.trans (target_val m).symm) (hclean i hfind)
    rw [FileSystem.respond, if_neg hcreate, if_neg hdir, hlookup]
    dsimp only
    rw [hrespond]
    refine congrArg (Prod.mk _) (h.fileSystem_eq ?_ fun q hq => ?_)
    · rw [FileSystem.insert_lookup, Function.update_self, lookup_fileSystem, hsame, hslot,
        Option.map_some]
    · rw [FileSystem.insert_lookup, Function.update_of_ne hq]
  · exact h.respond_absent hcreate hdir hiff hr

/-- **One request.** It is answered as by the file system, and leaves the table
that stands for the file system afterwards. -/
theorem handle_refines (hf : Fields t) (hd : NamesDistinct t) (hm : Considered m)
    (hk : KeepsNamespace t m) (hclean : Clean t m) :
    (answer t m).1 = some ((fileSystem t).respond m).1 ∧
      fileSystem (answer t m).2 = ((fileSystem t).respond m).2 := by
  obtain ⟨r, t', hres, h⟩ := follows_of_keepsNamespace hf hd hm hk
  have hanswer : answer t m = (some (observe m r), t') := by
    rw [answer, hres]
  have hrespond : (fileSystem t).respond m = (observe m r, fileSystem t') := by
    by_cases hcreate : m.type = VFS_CREATE
    · exact h.respond_create hcreate
    by_cases hdelete : m.type = VFS_DELETE
    · exact h.respond_delete hdelete
    by_cases hdir : m.type = VFS_READDIR
    · exact h.respond_readdir hdir
    · exact h.respond_onFile hf hm hclean ⟨hcreate, hdelete, hdir⟩
  rw [hanswer, hrespond]
  exact ⟨rfl, rfl⟩

theorem answer_table (t : Table) (m : Msg) : (answer t m).2 = step t m := by
  rw [answer, step]
  cases handle t m <;> rfl

end Requests

/-! ## Runs -/

/-- The file system the server starts with. -/
def initialFiles : FileSystem :=
  let empty : FileSystem := ⟨fun _ => none, ∅, fun p => by simp⟩
  ((empty.insert ⟨helloName, by decide⟩ ⟨helloText, 0#32⟩).insert
    ⟨readmeName, by decide⟩ ⟨readmeText, 0#32⟩).insert
    ⟨versionName, by decide⟩ ⟨versionText, 0#32⟩

theorem fileSystem_vfsInitRamfs : fileSystem vfsInitRamfs = initialFiles := by
  have hslots : ∀ i < MAX_FILES, (vfsInitRamfs i).used = true → i < 3 := by decide +kernel
  have hnames : (∀ i < 3, (vfsInitRamfs i).used = true) ∧
      cstring (vfsInitRamfs 0).name = helloName ∧ cstring (vfsInitRamfs 1).name = readmeName ∧
      cstring (vfsInitRamfs 2).name = versionName := by
    decide +kernel
  have hfiles : (vfsInitRamfs 0).file = ⟨helloText, 0#32⟩ ∧
      (vfsInitRamfs 1).file = ⟨readmeText, 0#32⟩ ∧ (vfsInitRamfs 2).file = ⟨versionText, 0#32⟩ := by
    decide +kernel
  obtain ⟨hused, hhello, hreadme, hversion⟩ := hnames
  have hfind : ∀ i < 3, ∀ p, cstring (vfsInitRamfs i).name = p → 0 ∉ p →
      fileFind vfsInitRamfs p = some i := fun i hi p hp hp0 =>
    (fileFind_eq_some_iff namesDistinct_vfsInitRamfs hp0).mpr ⟨by unfold MAX_FILES; omega,
      hused i hi, hp⟩
  ext ⟨p, hp⟩ : 1
  show (fileFind vfsInitRamfs p).map (fun i => (vfsInitRamfs i).file) = initialFiles.lookup ⟨p, hp⟩
  have hlookup : initialFiles.lookup ⟨p, hp⟩ =
      if p = versionName then some ⟨versionText, 0#32⟩
      else if p = readmeName then some ⟨readmeText, 0#32⟩
      else if p = helloName then some ⟨helloText, 0#32⟩ else none := by
    simp [initialFiles, Function.update_apply]
  rw [hlookup]
  by_cases hv : p = versionName
  · rw [if_pos hv, hfind 2 (by decide) p (hversion.trans hv.symm) hp, Option.map_some, hfiles.2.2]
  rw [if_neg hv]
  by_cases hr : p = readmeName
  · rw [if_pos hr, hfind 1 (by decide) p (hreadme.trans hr.symm) hp, Option.map_some, hfiles.2.1]
  rw [if_neg hr]
  by_cases hh : p = helloName
  · rw [if_pos hh, hfind 0 (by decide) p (hhello.trans hh.symm) hp, Option.map_some, hfiles.1]
  rw [if_neg hh, (fileFind_eq_none_iff hp).mpr, Option.map_none]
  rintro i ⟨hlt, hu, hname⟩
  have hi := hslots i hlt hu
  interval_cases i
  · exact hh (hname.symm.trans hhello)
  · exact hr (hname.symm.trans hreadme)
  · exact hv (hname.symm.trans hversion)

/-- A request within the conditions of `handle_refines`. -/
def Plain (t : Table) (m : Msg) : Prop := Considered m ∧ KeepsNamespace t m ∧ Clean t m

theorem run_refines {t : Table} (hf : Fields t) (hd : NamesDistinct t) {ms : List Msg}
    (h : Meets step Plain t ms) :
    trace answer t ms =
        (trace FileSystem.respond (fileSystem t) ms).map (fun ma => (ma.1, some ma.2)) ∧
      fileSystem (run step t ms) = run (fun fs m => (fs.respond m).2) (fileSystem t) ms := by
  induction ms generalizing t with
  | nil => exact ⟨rfl, rfl⟩
  | cons m ms ih =>
    obtain ⟨⟨hm, hk, hclean⟩, hrest⟩ := h
    obtain ⟨hanswer, hnext⟩ := handle_refines hf hd hm hk hclean
    have hd' := hd.step hf hm.2.2 hk.1
    obtain ⟨htrace, hrun⟩ := ih (hf.step m) hd' hrest
    rw [answer_table] at hnext
    rw [hnext] at htrace hrun
    rw [trace, trace, List.map_cons, answer_table, hanswer, htrace, run_cons, run_cons, hrun]
    exact ⟨rfl, rfl⟩

/-- **The server is a file system.** In a run of requests with paths that fit the
name field, READs and WRITEs in bounds, and no request that brings leftover
bytes into a file, every reply is that of the file system that starts with the
three default files, and the table stands for it at the end. -/
theorem refines_files (ms : List Msg) (h : Meets step Plain vfsInitRamfs ms) :
    trace answer vfsInitRamfs ms =
        (trace FileSystem.respond initialFiles ms).map (fun ma => (ma.1, some ma.2)) ∧
      fileSystem (run step vfsInitRamfs ms) =
        run (fun fs m => (fs.respond m).2) initialFiles ms := by
  rw [← fileSystem_vfsInitRamfs]
  exact run_refines fields_vfsInitRamfs namesDistinct_vfsInitRamfs h

/-- A CREATE is plain as long as its path fits. -/
theorem plain_create {t : Table} {m : Msg} (hm : Considered m) (hc : m.type = VFS_CREATE)
    (hshort : m.path.length ≤ 63) : Plain t m := by
  refine ⟨hm, ⟨fun _ _ _ => hshort, fun hr => ?_⟩, fun i _ k _ hk => ?_⟩
  · rw [hc] at hr
    exact absurd hr (by decide)
  · rw [grownTo, if_neg (by rw [hc]; decide), if_neg (by rw [hc]; decide)] at hk
    exact absurd hk (Nat.not_lt_zero k)

/-- A READ is plain if it stays inside its file. -/
theorem plain_read {t : Table} {m : Msg} (hm : Considered m) (hr : m.type = VFS_READ)
    (hok : ∀ i, fileFind t m.path = some i → ReadOk (t i) m) : Plain t m := by
  refine ⟨hm, ⟨fun hc => ?_, fun _ => hok⟩, fun i _ k _ hk => ?_⟩
  · rw [hr] at hc
    exact absurd hc (by decide)
  · rw [grownTo, if_neg (by rw [hr]; decide), if_neg (by rw [hr]; decide)] at hk
    exact absurd hk (Nat.not_lt_zero k)

/-- `/notes` created, then `/version` read. -/
theorem refines_files_createNotes :
    (trace answer vfsInitRamfs [createNotes, readVersion]).map Prod.snd =
      [some .done, some (.bytes versionText)] := by
  have hfind : fileFind (step vfsInitRamfs createNotes) readVersion.path = some 2 := by
    decide +kernel
  have hplain : Meets step Plain vfsInitRamfs [createNotes, readVersion] := by
    refine ⟨plain_create (by decide +kernel) rfl (by decide +kernel),
      plain_read (by decide +kernel) rfl fun i hi => ?_, trivial⟩
    obtain rfl : 2 = i := Option.some_inj.mp (hfind.symm.trans hi)
    decide +kernel
  rw [(refines_files _ hplain).1]
  decide +kernel

end AegisKernel.Vfs
